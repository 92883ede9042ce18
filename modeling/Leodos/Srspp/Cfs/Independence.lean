/-
What a consumer that keeps up obtains from a source.

A message that is still waiting when the next one is complete is overwritten, and whether
it is taken in time depends on what other sources have ready.  When nothing of a source
is waiting at its next packet or expired timer, its events and its stream depend on its
packets and timers alone.
-/
import Leodos.Srspp.Cfs.Isolation

namespace Leodos
namespace Srspp
namespace Cfs

open Container Isl Spp Transition

variable {σ : Type} {REASM MAX_STREAMS WIN MTU RX_WIN : Nat} {S : Slots σ} {ids : PacketIds}

/-! ## Taking everything -/

namespace StreamState

/-- The stream when everything ready has been taken, and what was ready. -/
def drained (stream : StreamState σ REASM) : StreamState σ REASM × List RecvEvent :=
  ({ stream with
      machine := stream.machine.takeMessage.2
      eosObserved := stream.eosObserved || stream.eosReached },
    stream.machine.reasm.message.toList.map RecvEvent.data ++
      if stream.eosObserved = false ∧ stream.eosReached = true then [.eos] else [])

theorem takeMessage_of_none {r : Backend σ REASM} (h : r.reasm.message = none) :
    r.takeMessage.2 = r := by
  have hlen : r.reasm.completeMessageLen = none := by
    rw [← Reassembly.message_length, h]
    rfl
  obtain ⟨base, occupied, slots, buf, len, inProgress, completeMessageLen, _, _, _, _⟩ := r
  cases hlen
  rfl

theorem drained_of_peek {stream : StreamState σ REASM} (h : stream.peekRecvEvent = none) :
    stream.drained = (stream, []) := by
  rw [peekRecvEvent] at h
  by_cases hmsg : stream.machine.reasm.completeMessageLen.isSome = true
  · rw [if_pos hmsg] at h
    cases h
  rw [if_neg hmsg] at h
  by_cases heos : stream.eosObserved = false ∧ stream.eosReached = true
  · rw [if_pos heos] at h
    cases h
  have hnone : stream.machine.reasm.message = none := by
    rw [← Reassembly.message_isSome] at hmsg
    exact Option.not_isSome_iff_eq_none.1 hmsg
  have hobserved : (stream.eosObserved || stream.eosReached) = stream.eosObserved := by
    cases hob : stream.eosObserved with
    | true => rfl
    | false =>
      cases hre : stream.eosReached with
      | false => rfl
      | true => exact absurd ⟨hob, hre⟩ heos
  rw [drained, takeMessage_of_none hnone, hobserved, hnone, if_neg heos]
  rfl

theorem drained_take {room : Nat} (hroom : REASM ≤ room) {stream stream' : StreamState σ REASM}
    {ev : RecvEvent} (h : stream.takeRecvEvent room = some (ev, stream')) :
    stream.drained = (stream'.drained.1, ev :: stream'.drained.2) := by
  rcases takeRecvEvent_cases h with ⟨msg, hmsg, rfl, rfl⟩ | ⟨hmsg, rfl, hob, hre, rfl⟩
  · have hlen : msg.length ≤ REASM := by
      refine stream.machine.reasm.complete_le _ ?_
      rw [← Reassembly.message_length, hmsg]
      rfl
    rw [List.take_of_length_le (Nat.le_trans hlen hroom), drained, hmsg]
    rfl
  · rw [drained, drained, hmsg, if_pos ⟨hob, hre⟩, if_neg (by simp), hre]
    show (_, [RecvEvent.eos]) = (_, [RecvEvent.eos])
    simp only [hob, Bool.or_true, Bool.true_or]

/-! ## A source on its own, drained -/

/-- The stream of a source and its events with everything taken. -/
def drainedPair (x : Option (StreamState σ REASM) × List RecvEvent) :
    Option (StreamState σ REASM) × List RecvEvent :=
  match x.1 with
  | none => (none, x.2)
  | some stream => (some stream.drained.1, x.2 ++ stream.drained.2)

/-- The entry finds nothing waiting, or the buffer holds every message. -/
def InTime (x : Option (StreamState σ REASM) × List RecvEvent) : Input → Prop
  | .packet .. | .timeouts _ => ∀ stream ∈ x.1, stream.peekRecvEvent = none
  | .taken room => REASM ≤ room

def isOwn : Input → Bool
  | .taken _ => false
  | _ => true

theorem drainedPair_of_peek {x : Option (StreamState σ REASM) × List RecvEvent}
    (h : ∀ stream ∈ x.1, stream.peekRecvEvent = none) : drainedPair x = x := by
  obtain ⟨_ | stream, events⟩ := x
  · rfl
  · rw [drainedPair]
    dsimp only
    rw [drained_of_peek (h stream rfl), List.append_nil]

theorem drainedPair_taken {config : ReceiverConfig} {source : Address} {room : Nat}
    (hroom : REASM ≤ room) (x : Option (StreamState σ REASM) × List RecvEvent) :
    drainedPair (replay S RX_WIN config source x (.taken room)) = drainedPair x := by
  obtain ⟨_ | stream, events⟩ := x
  · rfl
  · rw [replay, Option.bind_some]
    cases htake : stream.takeRecvEvent room with
    | none => rfl
    | some r =>
      obtain ⟨ev, stream'⟩ := r
      show (some stream'.drained.1, events ++ [ev] ++ stream'.drained.2) =
        (some stream.drained.1, events ++ stream.drained.2)
      rw [drained_take hroom htake, List.append_assoc]
      rfl

theorem drainedPair_replay {config : ReceiverConfig} {source : Address} (inputs : List Input)
    (x : Option (StreamState σ REASM) × List RecvEvent)
    (h : System.Meets (replay S RX_WIN config source) InTime x inputs) :
    drainedPair (inputs.foldl (replay S RX_WIN config source) x) =
      (inputs.filter isOwn).foldl (fun y i => drainedPair (replay S RX_WIN config source y i))
        (drainedPair x) := by
  induction inputs generalizing x with
  | nil => rfl
  | cons i inputs ih =>
    obtain ⟨hin, hrest⟩ := h
    have hnext := ih _ hrest
    rw [List.foldl_cons, hnext]
    cases i with
    | packet now p =>
      rw [List.filter_cons_of_pos rfl, List.foldl_cons, drainedPair_of_peek hin]
    | timeouts now =>
      rw [List.filter_cons_of_pos rfl, List.foldl_cons, drainedPair_of_peek hin]
    | taken room =>
      rw [List.filter_cons_of_neg (by simp [isOwn]), drainedPair_taken hin]

end StreamState

/-! ## Runs that keep up -/

namespace Run

variable {d d' : Run σ REASM MAX_STREAMS WIN MTU} {config : ReceiverConfig}

/-- Nothing of a source is waiting at its next packet or expired timer, and the consumer's
buffers hold every message. -/
def Prompt (d : Run σ REASM MAX_STREAMS WIN MTU) : Move → Prop
  | .loop (.packet _ bytes) =>
      ∀ source ∈ (Incoming.ofBytes bytes).source, d.endpoint.Admits source →
        ∀ stream ∈ d.streamOf source, stream.peekRecvEvent = none
  | .loop (.timeouts now _) =>
      ∀ e ∈ d.endpoint.rxState.streams.entries,
        (StreamState.isPast now e.2.ackDeadline || StreamState.isPast now e.2.progressDeadline) =
          true → e.2.peekRecvEvent = none
  | .view (.recv _ room) => REASM ≤ room
  | _ => True

def added (d : Run σ REASM MAX_STREAMS WIN MTU) : Move → List (Address × Input)
  | .loop (.packet now bytes) => d.endpoint.heard now bytes
  | .loop (.timeouts now _) => d.endpoint.woken now
  | .loop (.transmit _ _) => []
  | .view (.recv view room) =>
      match (d.endpoint.rxState.recv view room).1 with
      | some (.ok (source, _)) => [(source, .taken room)]
      | _ => []
  | .view _ => []

theorem close_inputs (d : Run σ REASM MAX_STREAMS WIN MTU) (res : Except TransportError Unit) :
    (d.close res).1.inputs = d.inputs := by
  cases res with
  | ok u => rfl
  | error e => rfl

theorem next_inputs (hquiet : d.Quiet) {m : Move} {res : Except TransportError Unit}
    (h : d.next S RX_WIN ids m = some (d', res)) : d'.inputs = d.inputs ++ d.added m := by
  cases m with
  | loop step =>
    rw [next_loop hquiet] at h
    cases step with
    | packet now bytes =>
      obtain ⟨⟨endpoint, ack, r⟩, -, hclose⟩ := Option.map_eq_some_iff.1 h
      have hd' : _ = d' := congrArg Prod.fst hclose
      rw [← hd']
      exact close_inputs _ r
    | timeouts now rto =>
      obtain ⟨⟨endpoint, acks, wire, writes, r⟩, -, hclose⟩ := Option.map_eq_some_iff.1 h
      have hd' : _ = d' := congrArg Prod.fst hclose
      rw [← hd']
      exact close_inputs _ r
    | transmit now rto =>
      have hd' : _ = d' := congrArg Prod.fst (Option.some.inj h)
      rw [← hd', added, List.append_nil]
      exact close_inputs _ _
  | view c =>
    have hview : d.view c = d' := congrArg Prod.fst (Option.some.inj h)
    rw [← hview]
    cases c with
    | recv view room =>
      rw [Run.view, added]
      generalize d.endpoint.rxState.recv view room = x
      obtain ⟨_ | _ | ⟨source, ev⟩, s'⟩ := x
      · exact (List.append_nil _).symm
      · exact (List.append_nil _).symm
      · rfl
    | _ => exact (List.append_nil _).symm

theorem added_filter (d : Run σ REASM MAX_STREAMS WIN MTU) (m : Move) (k : Address) :
    ((d.added m).filter fun x => x.1 = k).map Prod.snd = [] ∨
      ∃ i, ((d.added m).filter fun x => x.1 = k).map Prod.snd = [i] ∧ (k, i) ∈ d.added m := by
  have hsingle : ∀ source i, d.added m = [(source, i)] →
      ((d.added m).filter fun x => x.1 = k).map Prod.snd = [] ∨
        ∃ i, ((d.added m).filter fun x => x.1 = k).map Prod.snd = [i] ∧ (k, i) ∈ d.added m := by
    intro source i hadded
    have hsplit := filter_append_single [] k source i
    rw [List.nil_append] at hsplit
    rw [hadded, hsplit]
    by_cases hk : source = k
    · rw [if_pos hk, hk]
      exact Or.inr ⟨i, rfl, List.mem_singleton.2 rfl⟩
    · rw [if_neg hk]
      exact Or.inl rfl
  have hnil : d.added m = [] → ((d.added m).filter fun x => x.1 = k).map Prod.snd = [] := by
    intro hadded
    rw [hadded]
    rfl
  cases m with
  | loop step =>
    cases step with
    | packet now bytes =>
      cases hsource : (Incoming.ofBytes bytes).source with
      | none =>
        refine Or.inl (hnil (heard_nil (fun source h => ?_) now))
        rw [hsource] at h
        cases h
      | some source =>
        by_cases hadmits : d.endpoint.Admits source
        · exact hsingle _ _ (heard_of_admits hsource hadmits now)
        · refine Or.inl (hnil (heard_nil (fun source' h => ?_) now))
          rw [hsource] at h
          cases h
          exact hadmits
    | timeouts now rto =>
      have hwoken := woken_filter d now k
      rw [added, hwoken]
      cases hstream : d.streamOf k with
      | none => exact Or.inl rfl
      | some stream =>
        dsimp only
        by_cases hpast : (StreamState.isPast now stream.ackDeadline ||
            StreamState.isPast now stream.progressDeadline) = true
        · rw [if_pos hpast]
          refine Or.inr ⟨_, rfl, List.mem_map.2 ⟨(k, stream), List.mem_filter.2
            ⟨LinearMap.mem_of_get hstream, hpast⟩, rfl⟩⟩
        · rw [if_neg hpast]
          exact Or.inl rfl
    | transmit now rto => exact Or.inl rfl
  | view c =>
    cases c with
    | recv view room =>
      cases hrecv : (d.endpoint.rxState.recv view room).1 with
      | none => exact Or.inl (hnil (by rw [added, hrecv]))
      | some r =>
        cases r with
        | error e => exact Or.inl (hnil (by rw [added, hrecv]))
        | ok ev => exact hsingle ev.1 (.taken room) (by rw [added, hrecv])
    | _ => exact Or.inl rfl

theorem added_inTime {m : Move} (hprompt : d.Prompt m) {k : Address} {i : Input}
    (hmem : (k, i) ∈ d.added m) : StreamState.InTime (d.streamOf k, d.eventsOf k) i := by
  cases m with
  | loop step =>
    cases step with
    | packet now bytes =>
      by_cases hall : ∀ source ∈ (Incoming.ofBytes bytes).source, ¬ d.endpoint.Admits source
      · rw [added, heard_nil hall] at hmem
        cases hmem
      · simp only [not_forall, not_not] at hall
        obtain ⟨source, hsource, hadmits⟩ := hall
        rw [added, heard_of_admits hsource hadmits] at hmem
        cases List.mem_singleton.1 hmem
        exact hprompt k hsource hadmits
    | timeouts now rto =>
      obtain ⟨e, he, heq⟩ := List.mem_map.1 hmem
      obtain ⟨hentry, hpast⟩ := List.mem_filter.1 he
      cases heq
      intro stream hstream
      have hget : d.endpoint.rxState.streams.get e.1 = some e.2 := LinearMap.get_of_mem hentry
      have hsame : d.endpoint.rxState.streams.get e.1 = some stream := hstream
      rw [hget, Option.some.injEq] at hsame
      rw [← hsame]
      exact hprompt e hentry hpast
    | transmit now rto => cases hmem
  | view c =>
    cases c with
    | recv view room =>
      rw [added] at hmem
      generalize (d.endpoint.rxState.recv view room).1 = x at hmem
      obtain _ | _ | ⟨source, ev⟩ := x
      · cases hmem
      · cases hmem
      · cases List.mem_singleton.1 hmem
        exact hprompt
    | _ => cases hmem

/-- Every entry of the record of a source came in time. -/
def KeepsUp (S : Slots σ) (RX_WIN : Nat) (config : ReceiverConfig)
    (d : Run σ REASM MAX_STREAMS WIN MTU) : Prop :=
  d.Few → ∀ source, System.Meets (StreamState.replay S RX_WIN config source) StreamState.InTime
    ((none, []) : Option (StreamState σ REASM) × List RecvEvent) (d.inputsOf source)

theorem keepsUp_step (h : d.Isolated S RX_WIN config) (hup : d.KeepsUp S RX_WIN config) {m : Move}
    (hprompt : d.Prompt m) {res : Except TransportError Unit}
    (hstep : d.next S RX_WIN ids m = some (d', res)) : d'.KeepsUp S RX_WIN config := by
  intro hfew k
  have hin := next_inputs h.quiet hstep
  rw [Few, hin] at hfew
  have hold := hup (Few.of_append hfew) k
  have hinputs : d'.inputsOf k =
      d.inputsOf k ++ ((d.added m).filter fun x => x.1 = k).map Prod.snd := by
    rw [inputsOf, hin, List.filter_append, List.map_append]
    rfl
  rw [hinputs]
  rcases added_filter d m k with hnil | ⟨i, hsingle, hmem⟩
  · rw [hnil, List.append_nil]
    exact hold
  · rw [hsingle, System.meets_append_single, ← h.replay (Few.of_append hfew) k]
    exact ⟨hold, added_inTime hprompt hmem⟩

end Run

section

variable {MAX_TX bufSize : Nat} {senderConfig : SenderConfig} {receiverConfig : ReceiverConfig}

theorem keepsUp_of_runs {d : Run σ REASM MAX_STREAMS WIN MTU}
    (h : (endpointRuns S RX_WIN ids REASM MAX_STREAMS WIN MTU MAX_TX bufSize senderConfig
      receiverConfig).Reaches (fun d m => d.Harmless S RX_WIN m ∧ d.Prompt m) d) :
    d.KeepsUp S RX_WIN receiverConfig := by
  refine (h.invariant (fun d => d.Isolated S RX_WIN receiverConfig ∧
    d.KeepsUp S RX_WIN receiverConfig) ?_ ?_).2
  · rintro d rfl
    exact ⟨Run.isolated_new S RX_WIN MAX_TX bufSize senderConfig receiverConfig,
      fun _ _ => trivial⟩
  · rintro d m d' ⟨hd, hup⟩ ⟨hok, hprompt⟩ ⟨res, hstep⟩
    obtain ⟨d₁, hd₁, hiso⟩ := Run.step_isolated ids hd hok
    have heq := hstep.symm.trans hd₁
    cases heq
    exact ⟨hiso, Run.keepsUp_step hd hup hprompt hstep⟩

/-- In every run of harmless steps nothing fails: no error is recorded, every harmless step
succeeds, and a packet is handled without an error exactly when it is harmless.  With no more
active sources than streams, a stream and the events taken from it are determined by what
happened to its source; and when the consumer keeps up, they are determined, once everything
ready has been taken, by the packets and expired timers of the source alone. -/
theorem peers_isolated {d : Run σ REASM MAX_STREAMS WIN MTU}
    (h : (endpointRuns S RX_WIN ids REASM MAX_STREAMS WIN MTU MAX_TX bufSize senderConfig
      receiverConfig).Reaches (Run.Harmless S RX_WIN) d) :
    d.Quiet ∧
    (∀ m, d.Harmless S RX_WIN m → ∃ d', d.next S RX_WIN ids m = some (d', .ok ())) ∧
    (∀ now bytes, (∃ d', d.next S RX_WIN ids (.loop (.packet now bytes)) = some (d', .ok ())) ↔
      d.Harmless S RX_WIN (.loop (.packet now bytes))) ∧
    (∀ d₂, (endpointRuns S RX_WIN ids REASM MAX_STREAMS WIN MTU MAX_TX bufSize senderConfig
        receiverConfig).Reaches (Run.Harmless S RX_WIN) d₂ → d.Few → d₂.Few →
      ∀ source, d.inputsOf source = d₂.inputsOf source →
        d.streamOf source = d₂.streamOf source ∧ d.eventsOf source = d₂.eventsOf source) ∧
    ∀ d₁ d₂, (endpointRuns S RX_WIN ids REASM MAX_STREAMS WIN MTU MAX_TX bufSize senderConfig
        receiverConfig).Reaches (fun d m => d.Harmless S RX_WIN m ∧ d.Prompt m) d₁ →
      (endpointRuns S RX_WIN ids REASM MAX_STREAMS WIN MTU MAX_TX bufSize senderConfig
        receiverConfig).Reaches (fun d m => d.Harmless S RX_WIN m ∧ d.Prompt m) d₂ →
      d₁.Few → d₂.Few → ∀ source,
        (d₁.inputsOf source).filter StreamState.isOwn =
          (d₂.inputsOf source).filter StreamState.isOwn →
        StreamState.drainedPair (d₁.streamOf source, d₁.eventsOf source) =
          StreamState.drainedPair (d₂.streamOf source, d₂.eventsOf source) := by
  have hd := isolated_of_runs h
  refine ⟨hd.quiet, fun m hok => ?_, fun now bytes => Run.packet_ok_iff hd now bytes, ?_, ?_⟩
  · obtain ⟨d', hd', -⟩ := Run.step_isolated ids hd hok
    exact ⟨d', hd'⟩
  · intro d₂ h₂ hfew hfew₂ source hin
    have heq := hd.replay hfew source
    rw [hin, ← (isolated_of_runs h₂).replay hfew₂ source] at heq
    exact Prod.mk.inj heq
  · intro d₁ d₂ h₁ h₂ hfew₁ hfew₂ source hin
    have hdrained : ∀ d', (endpointRuns S RX_WIN ids REASM MAX_STREAMS WIN MTU MAX_TX bufSize
        senderConfig receiverConfig).Reaches
          (fun d m => d.Harmless S RX_WIN m ∧ d.Prompt m) d' → d'.Few →
        StreamState.drainedPair (d'.streamOf source, d'.eventsOf source) =
          ((d'.inputsOf source).filter StreamState.isOwn).foldl
            (fun y i => StreamState.drainedPair
              (StreamState.replay S RX_WIN receiverConfig source y i)) (none, []) := by
      intro d' hreach hfew
      rw [(isolated_of_runs (hreach.mono fun _ _ hok => hok.1)).replay hfew source]
      exact StreamState.drainedPair_replay _ _ (keepsUp_of_runs hreach hfew source)
    rw [hdrained d₁ h₁ hfew₁, hdrained d₂ h₂ hfew₂, hin]

end

/-! ## One stray segment -/

section

/-- Packed streams of 64 octets with a window of 8. -/
def packedRuns : System (Run PackedSlots 64 2 2 64) Move :=
  endpointRuns (PackedReceiver.slotsOf 64 64) 8 ⟨0x42, 0⟩ 64 2 2 64 2 64
    ⟨.satellite ⟨1, 5⟩, 100, 3, HEADER_SIZE⟩ ⟨.satellite ⟨1, 5⟩, true, 20, some 500⟩

def packedStart : Run PackedSlots 64 2 2 64 :=
  .new PackedSlots 64 2 2 64 2 64 ⟨.satellite ⟨1, 5⟩, 100, 3, HEADER_SIZE⟩
    ⟨.satellite ⟨1, 5⟩, true, 20, some 500⟩

def Run.after (d : Run PackedSlots 64 2 2 64) (m : Move) : Run PackedSlots 64 2 2 64 :=
  ((d.next (PackedReceiver.slotsOf 64 64) 8 ⟨0x42, 0⟩ m).map Prod.fst).getD d

def octetFrom (station : UInt8) (seq : SequenceCount) (flag : SequenceFlag) (octet : UInt8) :
    Bytes :=
  match SrsppDataPacket.new (List.replicate 14 0) (.ground station) (.satellite ⟨1, 5⟩) 0x42 0 seq
      flag 1 with
  | .ok p => { p with payload := [octet] }.asBytes
  | .error _ => []

theorem packed_reaches {ok : Run PackedSlots 64 2 2 64 → Move → Prop} {moves : List Move}
    (h : System.Meets Run.after (fun d m => ok d m ∧
      (d.next (PackedReceiver.slotsOf 64 64) 8 ⟨0x42, 0⟩ m).isSome = true) packedStart moves) :
    packedRuns.Reaches ok (moves.foldl Run.after packedStart) := by
  refine System.Reaches.foldl (fun d m hm => ⟨hm.1, ?_⟩) (.init rfl) h
  obtain ⟨⟨d', res⟩, hnext⟩ := Option.isSome_iff_exists.1 hm.2
  refine ⟨res, ?_⟩
  rw [Run.after, hnext]
  rfl

/-- Station 3 sends one segment in the middle of no message, while a view of station 7 is
open. -/
def strayMoves : List Move :=
  [.view (.sender (.ground 7)), .loop (.packet 0 (octetFrom 3 0 .continuation 9))]

/-- The segment ends the run loop and leaves its error in every slot. -/
theorem stray_segment_ends_loop : ¬ ∀ d, packedRuns.Reachable d → d.Quiet := by
  intro hall
  have hreach : packedRuns.Reachable (strayMoves.foldl Run.after packedStart) :=
    packed_reaches (by decide)
  exact absurd (hall _ hreach) (by decide)

/-- Station 3 sends a message that is taken. -/
def quietMoves : List Move :=
  [.view .listener, .loop (.packet 0 (octetFrom 3 0 .unsegmented 9)), .view (.recv none 64)]

/-- So does station 4, with messages to station 7 in flight. -/
def busyMoves : List Move :=
  [.view .listener, .view (.sender (.ground 7)), .view (.send (.ground 7) [1, 2]),
    .loop (.transmit 0 50), .loop (.packet 0 (octetFrom 3 0 .unsegmented 9)),
    .loop (.packet 1 (octetFrom 4 1 .unsegmented 8)), .view (.recv none 64),
    .loop (.timeouts 600 50)]

theorem peers_isolated_two_stations :
    (busyMoves.foldl Run.after packedStart).Quiet ∧
      (busyMoves.foldl Run.after packedStart).eventsOf (.ground 3) =
        (quietMoves.foldl Run.after packedStart).eventsOf (.ground 3) := by
  have hreach : packedRuns.Reaches (Run.Harmless (PackedReceiver.slotsOf 64 64) 8)
      (busyMoves.foldl Run.after packedStart) := packed_reaches (by decide)
  have hquiet : packedRuns.Reaches (Run.Harmless (PackedReceiver.slotsOf 64 64) 8)
      (quietMoves.foldl Run.after packedStart) := packed_reaches (by decide)
  have hbusy := peers_isolated hreach
  exact ⟨hbusy.1, (hbusy.2.2.2.1 _ hquiet ⟨[.ground 3, .ground 4], by decide, by decide⟩
    ⟨[.ground 3], by decide, by decide⟩ (.ground 3) (by decide)).2⟩

end

end Cfs
end Srspp
end Leodos
