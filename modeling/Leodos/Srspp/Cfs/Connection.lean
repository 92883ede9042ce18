/-
One connection and the stream that receives it.

A sender numbers its DATA packets from zero and ends with an EOS packet.  The backend
takes the EOS for one more packet with an empty message; the call that passes it
drains that message, so the messages that wait are messages of the connection.
-/
import Leodos.Srspp.Cfs.Streams
import Leodos.Srspp.Receiver.Refine

namespace Leodos
namespace Srspp
namespace Cfs

open Isl Spp Reorder

/-- What a sender sends in one connection, `mp` payload bytes to a packet. -/
structure Connection where
  source : Address
  mp : Nat
  messages : List Bytes

namespace Connection

def dataPackets (c : Connection) : List Packet := packets c.mp c.messages

def eosIndex (c : Connection) : Nat := c.dataPackets.length

def stream (c : Connection) : List Packet := c.dataPackets ++ [(.unsegmented, [])]

/-- Packet `a` on the wire. -/
def incoming (c : Connection) (a : Nat) : Option Incoming :=
  if a = c.eosIndex then some (.eos c.source (seqOf a) .unsegmented)
  else c.dataPackets[a]?.map fun p => .data c.source (seqOf a) p.1 p.2

/-- The messages completed by the first `n` packets. -/
def completed (c : Connection) (n : Nat) : List Bytes := (feedAll none (c.dataPackets.take n)).2

theorem stream_length (c : Connection) : c.stream.length = c.eosIndex + 1 := by
  simp [stream, eosIndex]

theorem stream_take {c : Connection} {n : Nat} (h : n ≤ c.eosIndex) :
    c.stream.take n = c.dataPackets.take n := by
  rw [stream, List.take_append_of_le_length h]

theorem stream_take_all (c : Connection) : c.stream.take (c.eosIndex + 1) = c.stream :=
  List.take_of_length_le (Nat.le_of_eq c.stream_length)

theorem getElem_eosIndex (c : Connection) : c.stream[c.eosIndex]? = some (.unsegmented, []) := by
  simp [stream, eosIndex]

theorem stream_getElem {c : Connection} {a : Nat} (h : a < c.eosIndex) :
    c.stream[a]? = c.dataPackets[a]? := by
  rw [stream, List.getElem?_append_left h]

theorem fits {c : Connection} {REASM : Nat}
    (hmp : ∀ msg ∈ c.messages, msg.length ≤ c.mp ∨ 0 < c.mp)
    (hroom : ∀ msg ∈ c.messages, msg.length ≤ REASM) : FitsAll REASM none c.stream := by
  rw [stream, fitsAll_append]
  exact ⟨fitsAll_packets hmp hroom, Nat.zero_le _, trivial⟩

end Connection

/-! ## One packet at the endpoint -/

namespace Connection

variable {σ : Type} {S : Slots σ} {REASM MAX_STREAMS WIN a : Nat}
variable {c : Connection} {s : MultiReceiverState σ REASM MAX_STREAMS} {inc : Incoming} {p : Packet}

/-- The stream that packet `a` is driven through: the EOS is recorded first. -/
def recorded (c : Connection) (a : Nat) (stream : StreamState σ REASM) : StreamState σ REASM :=
  if a = c.eosIndex then stream.recordEos (seqOf a) else stream

theorem recorded_fields (c : Connection) (a : Nat) (stream : StreamState σ REASM) :
    (c.recorded a stream).machine = stream.machine ∧
      (c.recorded a stream).ackState = stream.ackState ∧
      (c.recorded a stream).eosObserved = stream.eosObserved := by
  unfold recorded StreamState.recordEos
  by_cases ha : a = c.eosIndex
  · by_cases hn : stream.eosSeq.isNone = true
    · simp [ha, hn]
    · simp [ha, hn]
  · simp [ha]

theorem recorded_eosSeq {stream : StreamState σ REASM}
    (h : stream.eosSeq = none ∨ stream.eosSeq = some (seqOf c.eosIndex)) :
    (c.recorded a stream).eosSeq =
      if a = c.eosIndex then some (seqOf c.eosIndex) else stream.eosSeq := by
  unfold recorded StreamState.recordEos
  by_cases ha : a = c.eosIndex
  · rcases h with h | h
    · simp [ha, h]
    · simp [ha, h]
  · simp [ha]

theorem incoming_cases (hinc : c.incoming a = some inc) (hp : c.stream[a]? = some p) :
    (a = c.eosIndex ∧ p = (.unsegmented, []) ∧ inc = .eos c.source (seqOf a) .unsegmented) ∨
      (a < c.eosIndex ∧ inc = .data c.source (seqOf a) p.1 p.2) := by
  unfold incoming at hinc
  by_cases ha : a = c.eosIndex
  · rw [if_pos ha, Option.some.injEq] at hinc
    rw [ha, c.getElem_eosIndex, Option.some.injEq] at hp
    exact Or.inl ⟨ha, hp.symm, hinc.symm⟩
  · rw [if_neg ha, Option.map_eq_some_iff] at hinc
    obtain ⟨q, hq, rfl⟩ := hinc
    have hlt : a < c.eosIndex := (List.getElem?_eq_some_iff.1 hq).1
    rw [stream_getElem hlt, hq, Option.some.injEq] at hp
    exact Or.inr ⟨hlt, by rw [hp]⟩

theorem exists_incoming (hp : c.stream[a]? = some p) : ∃ inc, c.incoming a = some inc := by
  unfold incoming
  by_cases ha : a = c.eosIndex
  · exact ⟨_, if_pos ha⟩
  · have hlt := (List.getElem?_eq_some_iff.1 hp).1
    rw [c.stream_length] at hlt
    rw [stream_getElem (by omega)] at hp
    exact ⟨_, by rw [if_neg ha, hp, Option.map_some]⟩

theorem processData_ok (now : Nat) (written : Bool) (hinc : c.incoming a = some inc)
    (hp : c.stream[a]? = some p) (hroom : s.HasRoom c.source)
    (hlive : a < c.eosIndex → (s.streamOf S c.source).eosReached = false)
    {machine : Backend σ REASM} {outcome : DataOutcome}
    (hcall : (s.streamOf S c.source).machine.handleData S WIN (seqOf a) p.1 p.2 =
      some (machine, .ok outcome)) :
    ∃ s' stream' ack res, s.processData S WIN now written inc = some (s', ack, res) ∧
      s'.streams.get c.source = some stream' ∧
      MultiReceiverState.Driven (c.recorded a (s.streamOf S c.source)) machine outcome stream' := by
  rcases incoming_cases hinc hp with ⟨ha, rfl, rfl⟩ | ⟨ha, rfl⟩
  · obtain ⟨hroom', hstream⟩ := MultiReceiverState.streamOf_recordEos S (seqOf a) hroom
    have hrec : c.recorded a (s.streamOf S c.source) =
        (s.streamOf S c.source).recordEos (seqOf a) := if_pos ha
    have hmachine := (c.recorded_fields a (s.streamOf S c.source)).1
    rw [hrec, ← hstream] at hmachine
    rw [← hmachine] at hcall
    obtain ⟨s', stream', ack, res, hd, hget, hdriven, -⟩ :=
      MultiReceiverState.drive_ok now written hroom' hcall
    rw [hstream, ← hrec] at hdriven
    exact ⟨s', stream', ack, res, hd, hget, hdriven⟩
  · have hrec : c.recorded a (s.streamOf S c.source) = s.streamOf S c.source :=
      if_neg (Nat.ne_of_lt ha)
    obtain ⟨s', stream', ack, res, hd, hget, hdriven, -⟩ :=
      MultiReceiverState.drive_ok now written hroom hcall
    refine ⟨s', stream', ack, res, ?_, hget, by rwa [hrec]⟩
    rw [MultiReceiverState.processData, MultiReceiverState.reap_live (hlive ha)]
    exact hd

theorem processData_full (S : Slots σ) (WIN now : Nat) (written : Bool)
    (hinc : c.incoming a = some inc) (hp : c.stream[a]? = some p) (hroom : ¬ s.HasRoom c.source)
    (hlive : a < c.eosIndex → (s.streamOf S c.source).eosReached = false) :
    ∃ s' ack res, s.processData S WIN now written inc = some (s', ack, res) ∧
      s'.streams.get c.source = none := by
  rcases incoming_cases hinc hp with ⟨ha, rfl, rfl⟩ | ⟨ha, rfl⟩
  · obtain ⟨s', hd, hget⟩ := MultiReceiverState.drive_full S WIN now written
      (seqOf a) .unsegmented [] (MultiReceiverState.not_hasRoom_recordEos S (seqOf a) hroom)
    exact ⟨s', none, .ok (), hd, hget⟩
  · obtain ⟨s', hd, hget⟩ := MultiReceiverState.drive_full S WIN now written (seqOf a) p.1 p.2 hroom
    refine ⟨s', none, .ok (), ?_, hget⟩
    rw [MultiReceiverState.processData, MultiReceiverState.reap_live (hlive ha)]
    exact hd

end Connection

/-! ## One arrival at the stream -/

theorem seqStrictlyPast_succ (n : Nat) : seqStrictlyPast (seqOf (n + 1)) (seqOf n) = true := by
  have h : (seqOf (n + 1) - seqOf n).toNat = 1 := by
    rw [seqOf_sub_toNat (Nat.le_succ n)]
    omega
  simp [seqStrictlyPast, h]

theorem seqStrictlyPast_self (seq : SequenceCount) : seqStrictlyPast seq seq = false := by
  simp [seqStrictlyPast]

section Drain

variable {σ : Type} {REASM : Nat}

theorem drainEos_cases (eosSeq : Option SequenceCount) (before : SequenceCount)
    (r : Backend σ REASM) :
    StreamState.drainEos eosSeq before r = r ∨
      StreamState.drainEos eosSeq before r = r.takeMessage.2 := by
  cases eosSeq with
  | none => exact Or.inl rfl
  | some eos =>
    rw [StreamState.drainEos]
    by_cases h : seqStrictlyPast before eos = false ∧
        seqStrictlyPast r.base.expectedSeq eos = true ∧ r.reasm.completeMessageLen = some 0
    · exact Or.inr (if_pos h)
    · exact Or.inl (if_neg h)

theorem drainEos_message_sublist (eosSeq : Option SequenceCount) (before : SequenceCount)
    (r : Backend σ REASM) :
    (StreamState.drainEos eosSeq before r).reasm.message.toList.Sublist r.reasm.message.toList := by
  rcases drainEos_cases eosSeq before r with h | h
  · rw [h]
  · rw [h]
    exact List.nil_sublist _

theorem drainEos_passed {eos before : SequenceCount} {r : Backend σ REASM}
    (hbefore : seqStrictlyPast before eos = false)
    (hafter : seqStrictlyPast r.base.expectedSeq eos = true) (hm : r.reasm.message = some []) :
    (StreamState.drainEos (some eos) before r).reasm.message = none := by
  have hlen : r.reasm.completeMessageLen = some 0 := by
    rw [← Reassembly.message_length, hm]
    rfl
  rw [StreamState.drainEos, if_pos ⟨hbefore, hafter, hlen⟩]
  rfl

theorem drainEos_marker {eos before : SequenceCount} {r : Backend σ REASM} {r₁ : Reassembly REASM}
    (hbefore : seqStrictlyPast before eos = false)
    (hafter : seqStrictlyPast r.base.expectedSeq eos = true)
    (hpush : r₁.push .unsegmented [] = .ok r.reasm) :
    (StreamState.drainEos (some eos) before r).reasm.message.toList.Sublist r₁.message.toList := by
  cases hm : r₁.message with
  | some m =>
    rw [Reassembly.push_eos_waiting (p := (.unsegmented, [])) ⟨rfl, rfl⟩ hm,
      Except.ok.injEq] at hpush
    rw [← hm, hpush]
    exact drainEos_message_sublist _ _ _
  | none =>
    obtain ⟨r₂, hpush₂, -, hmsg⟩ := Reassembly.push_feed (p := (.unsegmented, []))
      (Or.inl hm) (Nat.zero_le REASM)
    rw [hpush, Except.ok.injEq] at hpush₂
    rw [← hpush₂] at hmsg
    rw [drainEos_passed hbefore hafter hmsg]

end Drain

section Arrival

variable {σ : Type} {S : Slots σ} {WIN REASM : Nat} {c : Connection}
variable {w : Window Packet}

/-- The messages that an arrival adds, and what becomes of the one that waits: either
the marker is not passed, or its empty message is drained. -/
theorem arrival_messages (stream : StreamState σ REASM) (hfit : FitsAll REASM none c.stream)
    (h : Follows S WIN c.stream stream.machine w) (hin : w.next ≤ c.stream.length) {a : Nat}
    {p : Packet} (hp : c.stream[a]? = some p) {r : Backend σ REASM}
    (hr : Follows S WIN c.stream r (w.accept WIN a p).2)
    (hpush : stream.machine.reasm.pushAll (w.accept WIN a p).1 = .ok r.reasm)
    (hsub : r.reasm.message.toList.Sublist (stream.machine.reasm.message.toList ++
      (feedAll stream.machine.reasm.partialMessage (w.accept WIN a p).1).2))
    (hpass : w.next ≤ c.eosIndex → c.eosIndex < (w.accept WIN a p).2.next →
      stream.eosSeq = some (seqOf c.eosIndex) ∧
        seqStrictlyPast (seqOf w.next) (seqOf c.eosIndex) = false) :
    ∃ new, c.completed (w.accept WIN a p).2.next = c.completed w.next ++ new ∧
      (StreamState.drainEos stream.eosSeq stream.machine.base.expectedSeq
        r).reasm.message.toList.Sublist (stream.machine.reasm.message.toList ++ new) := by
  have hdrain := drainEos_message_sublist stream.eosSeq stream.machine.base.expectedSeq r
  have hin' := h.source.accept_next_le hp hin
  have htake := (h.source.accept hp).2.1
  have hle := (h.source.accept hp).2.2.1
  rw [c.stream_length] at hin hin'
  by_cases hend : (w.accept WIN a p).2.next ≤ c.eosIndex
  · refine ⟨_, ?_, hdrain.trans hsub⟩
    have hfeed := congrArg Prod.snd (h.feedAll_accept hp)
    rw [Connection.stream_take hend, Connection.stream_take (Nat.le_trans hle hend)] at hfeed
    exact hfeed
  · have hend' : (w.accept WIN a p).2.next = c.eosIndex + 1 := by omega
    rw [hend', c.stream_take_all] at htake
    by_cases hbefore : w.next ≤ c.eosIndex
    · obtain ⟨heos, hnot⟩ := hpass hbefore (by omega)
      -- The released run is what was left of the DATA packets and the marker.
      have hps : (w.accept WIN a p).1 = c.dataPackets.drop w.next ++ [(.unsegmented, [])] := by
        rw [Connection.stream_take hbefore, Connection.stream] at htake
        have hcut : c.dataPackets.take w.next ++ (w.accept WIN a p).1 =
            c.dataPackets.take w.next ++ (c.dataPackets.drop w.next ++ [(.unsegmented, [])]) := by
          rw [← htake, ← List.append_assoc, List.take_append_drop]
        exact List.append_cancel_left hcut
      have hopened := h.opened
      rw [Connection.stream_take hbefore] at hopened
      have hfit' := h.fits hfit hp
      rw [hps, fitsAll_append] at hfit'
      obtain ⟨r₁, hpush₁, -, hsub₁⟩ := Reassembly.pushAll_sublist hfit'.1
      refine ⟨(feedAll stream.machine.reasm.partialMessage (c.dataPackets.drop w.next)).2, ?_, ?_⟩
      · have hwhole : c.dataPackets.take (c.eosIndex + 1) = c.dataPackets :=
          List.take_of_length_le (Nat.le_succ _)
        rw [hend', Connection.completed, Connection.completed, hwhole, hopened]
        have hall := feedAll_append none (c.dataPackets.take w.next) (c.dataPackets.drop w.next)
        rw [List.take_append_drop] at hall
        exact congrArg Prod.snd hall
      · rw [hps, Reassembly.pushAll_append hpush₁] at hpush
        refine List.Sublist.trans ?_ hsub₁
        have hpast : seqStrictlyPast r.base.expectedSeq (seqOf c.eosIndex) = true := by
          rw [hr.expected, hend']
          exact seqStrictlyPast_succ _
        have hnot' :
            seqStrictlyPast stream.machine.base.expectedSeq (seqOf c.eosIndex) = false := by
          rw [h.expected]
          exact hnot
        obtain ⟨r₂, hpush₂, hnil⟩ := Reassembly.pushAll_cons_ok hpush
        simp only [Reassembly.pushAll, Except.ok.injEq] at hnil
        rw [heos]
        exact drainEos_marker hnot' hpast (hnil ▸ hpush₂)
    · have hnext : w.next = c.eosIndex + 1 := by omega
      have hnil : (w.accept WIN a p).1 = [] := by
        rw [hnext, c.stream_take_all] at htake
        exact List.self_eq_append_right.1 htake
      refine ⟨[], by rw [hend', hnext, List.append_nil], hdrain.trans ?_⟩
      rw [hnil] at hsub
      exact hsub

end Arrival

end Cfs
end Srspp
end Leodos
