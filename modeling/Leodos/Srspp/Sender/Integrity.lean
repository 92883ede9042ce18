/-
Integrity of the send buffer.

A sender run keeps a log of the packets it queued, in order, and for each slot the
number of the packet it was filled with; packet `n` of the log carries the count
`seqOf n`.  `Carries` says that the slots in use hold the packets of their numbers,
and every move of the machine keeps it.
-/
import Leodos.Srspp.Sender.Queueing
import Leodos.Transition.System

namespace Leodos
namespace Srspp

open Isl Memory Spp Transition

namespace SenderMachine

variable {WIN MTU : Nat}

/-! ## Runs of the sender -/

inductive SenderCall where
  | handle (event : Event)
  | markTransmitted (seq : SequenceCount)
  deriving DecidableEq, Repr

/-- A machine with the packets it queued so far, and for each slot the number in the log
of the packet it was last filled with. -/
structure Logged (WIN MTU : Nat) where
  machine : SenderMachine WIN MTU
  log : List QueuedPacket
  num : Fin WIN → Nat

/-- The packets that the event `e` took from `m` to `m'` queued: as many of the
intended ones as there are slots newly in use. -/
def queuedBy (m : SenderMachine WIN MTU) (e : Event) (m' : SenderMachine WIN MTU) :
    List QueuedPacket :=
  (m.intended e).take (m'.unackedCount - m.unackedCount)

/-- The slots newly in use, in the order in which `position` finds them. -/
def filledBy (m m' : SenderMachine WIN MTU) : List (Fin WIN) :=
  (List.finRange WIN).filter fun i => ¬ (m.slots i).Occupied ∧ (m'.slots i).Occupied

/-- The slots `is` are filled with packets `n`, `n + 1` and so on. -/
def renumber (num : Fin WIN → Nat) (n : Nat) : List (Fin WIN) → Fin WIN → Nat
  | [] => num
  | i :: is => renumber (Function.update num i n) (n + 1) is

def sender (WIN MTU : Nat) (config : SenderConfig) (bufSize : Nat) :
    System (Logged WIN MTU) SenderCall where
  init s := s = ⟨.new config bufSize, [], fun _ => 0⟩
  step s c s' :=
    match c with
    | .handle e => (∃ a, s'.machine = (s.machine.handle e a).1) ∧
        s'.log = s.log ++ queuedBy s.machine e s'.machine ∧
        s'.num = renumber s.num s.log.length (filledBy s.machine s'.machine)
    | .markTransmitted seq => s' = ⟨s.machine.markTransmitted seq, s.log, s.num⟩

/-! ## Moves that queue nothing -/

/-- Some slots were freed and some changed their state or retransmit count. -/
structure SameCargo (m m' : SenderMachine WIN MTU) : Prop where
  slot : ∀ i, (m'.slots i).Occupied → (m.slots i).Occupied ∧
    ∃ st n, m'.slots i = { m.slots i with state := st, retransmitCount := n }
  data : m'.data = m.data
  writePos : m'.writePos = m.writePos
  nextSeq : m'.nextSeq = m.nextSeq

theorem SameCargo.refl (m : SenderMachine WIN MTU) : SameCargo m m :=
  ⟨fun _ hi => ⟨hi, _, _, rfl⟩, rfl, rfl, rfl⟩

theorem filledBy_eq_nil {m m' : SenderMachine WIN MTU}
    (h : ∀ i, (m'.slots i).Occupied → (m.slots i).Occupied) : filledBy m m' = [] := by
  refine List.filter_eq_nil_iff.2 fun i _ hi => ?_
  rw [decide_eq_true_eq] at hi
  exact hi.1 (h i hi.2)

theorem SameCargo.filledBy {m m' : SenderMachine WIN MTU} (h : SameCargo m m') :
    filledBy m m' = [] :=
  filledBy_eq_nil fun i hi => (h.slot i hi).1

theorem SameCargo.updateSendBase {m m' : SenderMachine WIN MTU} (h : SameCargo m m') :
    SameCargo m m'.updateSendBase :=
  ⟨h.slot, h.data, h.writePos, h.nextSeq⟩

theorem FreesOnly.sameCargo {p : SequenceCount → Prop} {m m' : SenderMachine WIN MTU}
    (h : FreesOnly p m m') : SameCargo m m' where
  slot i hi := by
    have hk := h.kept hi
    rw [hk] at hi
    exact ⟨hi, _, _, hk⟩
  data := h.data
  writePos := h.writePos
  nextSeq := h.nextSeq

theorem setSlot_sameCargo (m : SenderMachine WIN MTU) {i : Fin WIN} (hi : (m.slots i).Occupied)
    (st : SlotState) (n : Nat) :
    SameCargo m (m.setSlot i { m.slots i with state := st, retransmitCount := n }) where
  slot j hj := by
    rw [setSlot_slots] at hj ⊢
    by_cases hji : j = i
    · subst hji
      rw [if_pos rfl]
      exact ⟨hi, st, n, rfl⟩
    · rw [if_neg hji] at hj ⊢
      exact ⟨hj, _, _, rfl⟩
  data := rfl
  writePos := rfl
  nextSeq := rfl

theorem handleTimeout_sameCargo (m : SenderMachine WIN MTU) (seq : SequenceCount)
    (a : SenderActions) : SameCargo m (m.handleTimeout seq a).1 := by
  unfold handleTimeout
  split
  · exact (SameCargo.refl m).updateSendBase
  · rename_i i hfind
    have hi := findSlot_some hfind
    have hocc : (m.slots i).Occupied := by
      simp only [Bool.decide_and, Bool.and_eq_true, decide_eq_true_eq] at hi
      simp [PacketMeta.Occupied, hi.1]
    dsimp only
    split
    · exact (setSlot_sameCargo m hocc .empty _).updateSendBase
    · exact (setSlot_sameCargo m hocc .pendingTransmit _).updateSendBase

theorem markTransmitted_sameCargo (m : SenderMachine WIN MTU) (seq : SequenceCount) :
    SameCargo m (m.markTransmitted seq) := by
  unfold markTransmitted
  split
  · exact SameCargo.refl m
  · rename_i i hfind
    have hi := findSlot_some hfind
    refine setSlot_sameCargo m ?_ .awaitingAck (m.slots i).retransmitCount
    simp only [Bool.decide_and, Bool.and_eq_true, decide_eq_true_eq] at hi
    simp [PacketMeta.Occupied, hi.1]

theorem SameCargo.layout {m m' : SenderMachine WIN MTU} (h : SameCargo m m') (hl : Layout m) :
    Layout m' where
  writePos_le := by
    rw [h.writePos, h.data]
    exact hl.writePos_le
  inside i hi := by
    obtain ⟨hocc, st, n, he⟩ := h.slot i hi
    rw [he, h.writePos]
    exact hl.inside i hocc
  apart i j hi hj hij := by
    obtain ⟨hocc, st, n, he⟩ := h.slot i hi
    obtain ⟨hocc', st', n', he'⟩ := h.slot j hj
    rw [he, he']
    exact hl.apart i j hocc hocc' hij

theorem sender_step_cases {config : SenderConfig} {bufSize : Nat} {s s' : Logged WIN MTU}
    {c : SenderCall} (hl : Layout s.machine) (h : (sender WIN MTU config bufSize).step s c s') :
    (∃ e a ps a', c = .handle e ∧
        ps = (s.machine.intended e).take (s.machine.roomFor (s.machine.intended e)) ∧
        Queues s.machine a ps s'.machine a' ∧ s'.log = s.log ++ ps ∧
        s'.num = renumber s.num s.log.length (filledBy s.machine s'.machine)) ∨
      SameCargo s.machine s'.machine ∧ s'.log = s.log ∧ s'.num = s.num := by
  cases c with
  | markTransmitted seq =>
    simp only [sender] at h
    subst h
    exact Or.inr ⟨markTransmitted_sameCargo _ _, rfl, rfl⟩
  | handle e =>
    obtain ⟨⟨a, hm⟩, hlog, hnum⟩ := h
    have hsame : SameCargo s.machine s'.machine →
        (s.machine.intended e).take (s'.machine.unackedCount - s.machine.unackedCount) = [] →
        SameCargo s.machine s'.machine ∧ s'.log = s.log ∧ s'.num = s.num := by
      intro hcargo hnone
      rw [queuedBy, hnone, List.append_nil] at hlog
      rw [hcargo.filledBy] at hnum
      exact ⟨hcargo, hlog, hnum⟩
    have hsend : ((∃ target data, e = .sendRequest target data) ∨ ∃ target, e = .sendEos target) →
        ∃ e' a ps a', SenderCall.handle e = .handle e' ∧
          ps = (s.machine.intended e').take (s.machine.roomFor (s.machine.intended e')) ∧
          Queues s.machine a ps s'.machine a' ∧ s'.log = s.log ++ ps ∧
          s'.num = renumber s.num s.log.length (filledBy s.machine s'.machine) := by
      intro he
      obtain ⟨m', a', res, hh, hq, -⟩ := handle_queues hl he a
      rw [hh] at hm
      simp only at hm
      subst hm
      have hcount := hq.unackedCount
      rw [List.length_take, Nat.min_eq_left (roomFor_le_length ..)] at hcount
      refine ⟨e, a, _, a', rfl, rfl, hq, ?_, hnum⟩
      rw [hlog, queuedBy, hcount, Nat.add_sub_cancel_left]
    cases e with
    | sendRequest target data => exact Or.inl (hsend (Or.inl ⟨target, data, rfl⟩))
    | sendEos target => exact Or.inl (hsend (Or.inr ⟨target, rfl⟩))
    | ackReceived ack bitmap =>
      refine Or.inr (hsame ?_ List.take_nil)
      rw [hm]
      exact (handleAck_freesOnly s.machine ack bitmap a).sameCargo
    | retransmitTimeout seq =>
      refine Or.inr (hsame ?_ List.take_nil)
      rw [hm]
      exact handleTimeout_sameCargo s.machine seq a

/-! ## The cargo of the slots -/

/-- The slot `x` holds packet `n` of the log. -/
structure HoldsPacket (data : Bytes) (x : PacketMeta) (n : Nat) (p : QueuedPacket) : Prop where
  seq : x.seq = seqOf n
  flags : x.flags = p.flags
  target : x.target = RawAddress.ofAddress p.target
  payload : slice data x.offset x.len = p.payload
  len : x.len = p.payload.length
  isEos : x.isEos = p.isEos

structure Carries (m : SenderMachine WIN MTU) (log : List QueuedPacket) (num : Fin WIN → Nat) :
    Prop where
  nextSeq : m.nextSeq = seqOf log.length
  cargo : ∀ i, (m.slots i).Occupied →
    ∃ p, log[num i]? = some p ∧ HoldsPacket m.data (m.slots i) (num i) p
  distinct : ∀ i j, (m.slots i).Occupied → (m.slots j).Occupied → num i = num j → i = j

theorem Carries.lt_length {m : SenderMachine WIN MTU} {log : List QueuedPacket}
    {num : Fin WIN → Nat} (h : Carries m log num) {i : Fin WIN} (hi : (m.slots i).Occupied) :
    num i < log.length := by
  obtain ⟨p, hp, -⟩ := h.cargo i hi
  exact (List.getElem?_eq_some_iff.1 hp).1

theorem Carries.sameCargo {m m' : SenderMachine WIN MTU} {log : List QueuedPacket}
    {num : Fin WIN → Nat} (h : Carries m log num) (hs : SameCargo m m') : Carries m' log num where
  nextSeq := by rw [hs.nextSeq, h.nextSeq]
  cargo i hi := by
    obtain ⟨hocc, st, n, he⟩ := hs.slot i hi
    obtain ⟨p, hp, hh⟩ := h.cargo i hocc
    rw [he, hs.data]
    exact ⟨p, hp, hh.seq, hh.flags, hh.target, hh.payload, hh.len, hh.isEos⟩
  distinct i j hi hj := h.distinct i j (hs.slot i hi).1 (hs.slot j hj).1

theorem Carries.relocated {m m' : SenderMachine WIN MTU} {log : List QueuedPacket}
    {num : Fin WIN → Nat} (h : Carries m log num) (hr : Relocated m m') :
    Carries m' log num where
  nextSeq := by rw [hr.nextSeq, h.nextSeq]
  cargo i hi := by
    have hocc := (hr.occupied_iff i).1 hi
    obtain ⟨off, hoff⟩ := hr.slot i
    obtain ⟨p, hp, hh⟩ := h.cargo i hocc
    have hslice := hr.payload i hocc
    rw [hoff] at hslice ⊢
    exact ⟨p, hp, hh.seq, hh.flags, hh.target, hslice.trans hh.payload, hh.len, hh.isEos⟩
  distinct i j hi hj := h.distinct i j ((hr.occupied_iff i).1 hi) ((hr.occupied_iff j).1 hj)

theorem Carries.assign {m : SenderMachine WIN MTU} {log : List QueuedPacket}
    {num : Fin WIN → Nat} (h : Carries m log num) (hl : Layout m) {i : Fin WIN}
    (p : QueuedPacket) (hfit : p.payload.length ≤ m.availableBytes) :
    Carries (m.assignPacket i p) (log ++ [p]) (Function.update num i log.length) where
  nextSeq := by
    simp only [assignPacket, SenderMachine.assign, h.nextSeq, List.length_append,
      List.length_singleton, seqOf_succ]
  cargo j hj := by
    have hpos := hl.writePos_le
    unfold availableBytes at hfit
    by_cases hji : j = i
    · subst hji
      rw [Function.update_self]
      refine ⟨p, by simp, ?_⟩
      rw [assignPacket_slots, if_pos rfl]
      refine ⟨h.nextSeq, rfl, rfl, ?_, rfl, rfl⟩
      exact slice_write_self (by omega)
    · rw [Function.update_of_ne hji]
      rw [assignPacket_slots, if_neg hji] at hj ⊢
      obtain ⟨q, hq, hh⟩ := h.cargo j hj
      have hlt := h.lt_length hj
      refine ⟨q, by rw [List.getElem?_append_left hlt]; exact hq, hh.seq, hh.flags, hh.target, ?_,
        hh.len, hh.isEos⟩
      rw [← hh.payload]
      exact slice_write_of_disjoint (Or.inl (hl.inside j hj))
  distinct j k hj hk he := by
    rw [assignPacket_slots] at hj hk
    by_cases hji : j = i <;> by_cases hki : k = i
    · rw [hji, hki]
    · rw [if_neg hki] at hk
      rw [hji, Function.update_self, Function.update_of_ne hki] at he
      have := h.lt_length hk
      omega
    · rw [if_neg hji] at hj
      rw [hki, Function.update_self, Function.update_of_ne hji] at he
      have := h.lt_length hj
      omega
    · rw [if_neg hji] at hj
      rw [if_neg hki] at hk
      rw [Function.update_of_ne hji, Function.update_of_ne hki] at he
      exact h.distinct j k hj hk he

theorem Relocated.filledBy {m m₁ m' : SenderMachine WIN MTU} (h : Relocated m m₁) :
    filledBy m₁ m' = filledBy m m' := by
  simp only [SenderMachine.filledBy, h.occupied_iff]

theorem Queues.occupied {m m' : SenderMachine WIN MTU} {a a' : SenderActions}
    {ps : List QueuedPacket} (h : Queues m a ps m' a') {i : Fin WIN} (hi : (m.slots i).Occupied) :
    (m'.slots i).Occupied := by
  induction h with
  | done => exact hi
  | relocate hl _ ih => exact ih (((compact_relocated hl).occupied_iff i).2 hi)
  | assign j p _ _ _ ih =>
    apply ih
    rw [assignPacket_slots]
    split
    · simp [PacketMeta.Occupied]
    · exact hi

/-- The slots before the first free one are in use, so the packet that takes it comes first
among those newly in use. -/
theorem filledBy_assignPacket {m m' : SenderMachine WIN MTU} {i : Fin WIN} (p : QueuedPacket)
    (hfind : m.findSlot (fun x => x.state = .empty) = some i)
    (hkeep : ∀ j, ((m.assignPacket i p).slots j).Occupied → (m'.slots j).Occupied) :
    filledBy m m' = i :: filledBy (m.assignPacket i p) m' := by
  have hi := findSlot_empty hfind
  obtain ⟨-, before, behind, hsplit, hbefore⟩ := List.find?_eq_some_iff_append.1 hfind
  have hself : ((m.assignPacket i p).slots i).Occupied := by
    simp [assignPacket_slots, PacketMeta.Occupied]
  have hnodup := List.nodup_finRange WIN
  rw [hsplit, List.nodup_append, List.nodup_cons] at hnodup
  have hother : ∀ {j : Fin WIN}, j ≠ i → (m.assignPacket i p).slots j = m.slots j := fun hj => by
    rw [assignPacket_slots, if_neg hj]
  have hnone : ∀ {n : SenderMachine WIN MTU}, (∀ j ∈ before, n.slots j = m.slots j) →
      before.filter (fun j => ¬ (n.slots j).Occupied ∧ (m'.slots j).Occupied) = [] := by
    intro n hn
    refine List.filter_eq_nil_iff.2 fun j hj h => ?_
    rw [decide_eq_true_eq, hn j hj] at h
    exact h.1 (by simpa [PacketMeta.Occupied] using hbefore j hj)
  have hbehind : behind.filter (fun j => ¬ (m.slots j).Occupied ∧ (m'.slots j).Occupied) =
      behind.filter fun j => ¬ ((m.assignPacket i p).slots j).Occupied ∧ (m'.slots j).Occupied :=
    List.filter_congr fun j hj => by rw [hother fun he => hnodup.2.1.1 (he ▸ hj)]
  rw [filledBy, filledBy, hsplit, List.filter_append, List.filter_append, hnone fun _ _ => rfl,
    hnone fun j hj => hother fun he => hnodup.2.2 j hj i List.mem_cons_self he,
    List.filter_cons_of_pos (by simpa using ⟨hi, hkeep i hself⟩),
    List.filter_cons_of_neg (by simp [hself]), hbehind]
  rfl

theorem Queues.renumbered {m m' : SenderMachine WIN MTU} {a a' : SenderActions}
    {ps : List QueuedPacket} (hq : Queues m a ps m' a') {log : List QueuedPacket}
    {num : Fin WIN → Nat} (hl : Layout m) (h : Carries m log num) :
    Carries m' (log ++ ps) (renumber num log.length (filledBy m m')) ∧
      ∀ i, (m'.slots i).Occupied →
        (m.slots i).Occupied ∧ renumber num log.length (filledBy m m') i = num i ∨
          log.length ≤ renumber num log.length (filledBy m m') i := by
  induction hq generalizing log num with
  | done m a =>
    rw [filledBy_eq_nil fun i hi => hi, List.append_nil]
    exact ⟨h, fun i hi => Or.inl ⟨hi, rfl⟩⟩
  | relocate hl' _ ih =>
    have hr := compact_relocated hl'
    obtain ⟨hc, hold⟩ := ih hl.compact (h.relocated hr)
    rw [hr.filledBy] at hc hold
    refine ⟨hc, fun i hi => (hold i hi).imp_left ?_⟩
    exact fun ⟨hocc, he⟩ => ⟨(hr.occupied_iff i).1 hocc, he⟩
  | assign i p hi hfit hrest ih =>
    obtain ⟨hc, hold⟩ := ih (hl.assign hfit _ _ _ _) (h.assign hl p hfit)
    rw [filledBy_assignPacket p hi fun j => hrest.occupied, renumber]
    rw [List.append_assoc, List.length_append] at hc
    rw [List.length_append] at hold
    refine ⟨hc, fun j hj => ?_⟩
    rcases hold j hj with ⟨hocc, he⟩ | hge
    · by_cases hji : j = i
      · rw [hji, Function.update_self] at he
        exact Or.inr (by rw [hji]; exact Nat.le_of_eq he.symm)
      · rw [assignPacket_slots, if_neg hji] at hocc
        rw [Function.update_of_ne hji] at he
        exact Or.inl ⟨hocc, he⟩
    · exact Or.inr (Nat.le_trans (Nat.le_add_right ..) hge)

theorem Queues.carries {m m' : SenderMachine WIN MTU} {a a' : SenderActions}
    {ps : List QueuedPacket} (hq : Queues m a ps m' a') {log : List QueuedPacket}
    {num : Fin WIN → Nat} (hl : Layout m) (h : Carries m log num) :
    ∃ num', Carries m' (log ++ ps) num' ∧
      ∀ i, (m'.slots i).Occupied → (m.slots i).Occupied ∧ num' i = num i ∨
        log.length ≤ num' i :=
  ⟨_, hq.renumbered hl h⟩

theorem carries_of_reaches {config : SenderConfig} {bufSize : Nat} {s : Logged WIN MTU}
    {ok : Logged WIN MTU → SenderCall → Prop}
    (h : (sender WIN MTU config bufSize).Reaches ok s) :
    Layout s.machine ∧ Carries s.machine s.log s.num := by
  refine h.invariant (fun s => Layout s.machine ∧ Carries s.machine s.log s.num) ?_ ?_
  · rintro _ rfl
    exact ⟨Layout.new config bufSize, rfl, fun i hi => absurd rfl hi,
      fun i _ hi => absurd rfl hi⟩
  · rintro s c s' ⟨hl, hc⟩ - hs
    rcases sender_step_cases hl hs with ⟨e, a, ps, a', -, -, hq, hlog, hnum⟩ | ⟨hcargo, hlog, hnum⟩
    · rw [hlog, hnum]
      exact ⟨hq.layout hl, (hq.renumbered hl hc).1⟩
    · rw [hlog, hnum]
      exact ⟨hcargo.layout hl, hc.sameCargo hcargo⟩

/-! ## Integrity -/

/-- What `get_payload` has to return for a queued packet. -/
def info (p : QueuedPacket) (seq : SequenceCount) : PayloadInfo :=
  ⟨seq, p.flags, p.target, p.payload, p.isEos⟩

/-- The send events name targets whose wire form names them back. -/
def TargetEncodable (_ : Logged WIN MTU) : SenderCall → Prop
  | .handle (.sendRequest target _) | .handle (.sendEos target) => target.Encodable
  | _ => True

theorem intended_target {m : SenderMachine WIN MTU} {s : Logged WIN MTU} {e : Event}
    (h : TargetEncodable s (.handle e)) {p : QueuedPacket} (hp : p ∈ m.intended e) :
    p.target.Encodable := by
  cases e with
  | sendRequest target data =>
    simp only [intended] at hp
    split at hp
    · rw [List.mem_singleton] at hp
      rw [hp]
      exact h
    · obtain ⟨x, -, rfl⟩ := List.mem_map.1 hp
      exact h
  | sendEos target =>
    simp only [intended, List.mem_singleton] at hp
    rw [hp]
    exact h
  | ackReceived | retransmitTimeout => cases hp

theorem encodable_of_reaches {config : SenderConfig} {bufSize : Nat} {s : Logged WIN MTU}
    (h : (sender WIN MTU config bufSize).Reaches TargetEncodable s) :
    ∀ p ∈ s.log, p.target.Encodable := by
  refine (h.invariant
    (fun s => Layout s.machine ∧ ∀ p ∈ s.log, p.target.Encodable) ?_ ?_).2
  · rintro _ rfl
    exact ⟨Layout.new config bufSize, by simp⟩
  · rintro s c s' ⟨hl, henc⟩ hok hs
    rcases sender_step_cases hl hs with ⟨e, a, ps, a', rfl, rfl, hq, hlog, -⟩ | ⟨hcargo, hlog, -⟩
    · refine ⟨hq.layout hl, fun p hp => ?_⟩
      rw [hlog, List.mem_append] at hp
      rcases hp with hp | hp
      · exact henc p hp
      · exact intended_target hok (List.mem_of_mem_take hp)
    · rw [hlog]
      exact ⟨hcargo.layout hl, henc⟩

theorem HoldsPacket.info {m : SenderMachine WIN MTU} {i : Fin WIN} {n : Nat} {p : QueuedPacket}
    (h : HoldsPacket m.data (m.slots i) n p) (henc : p.target.Encodable)
    {seq : SequenceCount} (hfind : m.findSlot (fun x => x.Occupied ∧ x.seq = seq) = some i) :
    m.getPayload seq = some (SenderMachine.info p seq) := by
  have hseq := findSlot_some hfind
  simp only [Bool.decide_and, Bool.and_eq_true, decide_eq_true_eq] at hseq
  rw [getPayload, hfind, Option.map_some]
  simp only [SenderMachine.info, h.flags, h.target, h.payload, h.isEos, hseq.2,
    (parse_ofAddress_iff p.target).2 henc]

/-- Fewer than `2 ^ 14` numbers separate every slot in use from the next number. -/
def Close (m : SenderMachine WIN MTU) (log : List QueuedPacket) (num : Fin WIN → Nat) : Prop :=
  ∀ i, (m.slots i).Occupied → log.length ≤ num i + 16384

/-- The integrity of a machine with the log of its packets and the numbers of its slots. -/
structure Intact (m : SenderMachine WIN MTU) (log : List QueuedPacket) (num : Fin WIN → Nat) :
    Prop where
  writePos_le : m.writePos ≤ m.data.length
  inside : ∀ i, (m.slots i).Occupied → (m.slots i).offset + (m.slots i).len ≤ m.writePos
  disjoint : ∀ i j, (m.slots i).Occupied → (m.slots j).Occupied → i ≠ j → ∀ b,
    ¬ (((m.slots i).offset ≤ b ∧ b < (m.slots i).offset + (m.slots i).len) ∧
      (m.slots j).offset ≤ b ∧ b < (m.slots j).offset + (m.slots j).len)
  nextSeq : m.nextSeq = seqOf log.length
  numbered : ∀ i, (m.slots i).Occupied → num i < log.length ∧ (m.slots i).seq = seqOf (num i)
  numbers : ∀ i j, (m.slots i).Occupied → (m.slots j).Occupied → num i = num j → i = j
  seqs : Close m log num → ∀ i j, (m.slots i).Occupied → (m.slots j).Occupied →
    (m.slots i).seq = (m.slots j).seq → i = j
  queued : ∀ seq x, m.getPayload seq = some x → ∃ i p, (m.slots i).Occupied ∧
    (m.slots i).seq = seq ∧ log[num i]? = some p ∧ x = SenderMachine.info p seq
  answered : ∀ i, (m.slots i).Occupied → (m.getPayload (m.slots i).seq).isSome
  payload : Close m log num → ∀ i, (m.slots i).Occupied → ∃ p, log[num i]? = some p ∧
    m.getPayload (m.slots i).seq = some (SenderMachine.info p (m.slots i).seq)

theorem Carries.numbered {m : SenderMachine WIN MTU} {log : List QueuedPacket}
    {num : Fin WIN → Nat} (h : Carries m log num) {i : Fin WIN} (hi : (m.slots i).Occupied) :
    num i < log.length ∧ (m.slots i).seq = seqOf (num i) :=
  ⟨h.lt_length hi, (h.cargo i hi).choose_spec.2.seq⟩

theorem Carries.seqs {m : SenderMachine WIN MTU} {log : List QueuedPacket}
    {num : Fin WIN → Nat} (h : Carries m log num) (hclose : Close m log num) {i j : Fin WIN}
    (hi : (m.slots i).Occupied) (hj : (m.slots j).Occupied)
    (he : (m.slots i).seq = (m.slots j).seq) : i = j := by
  have hni := h.numbered hi
  have hnj := h.numbered hj
  rw [hni.2, hnj.2] at he
  have hmod := seqOf_inj he
  have hci := hclose i hi
  have hcj := hclose j hj
  exact h.distinct i j hi hj (by omega)

theorem Carries.queued {m : SenderMachine WIN MTU} {log : List QueuedPacket}
    {num : Fin WIN → Nat} (h : Carries m log num) (henc : ∀ p ∈ log, p.target.Encodable)
    {seq : SequenceCount} {x : PayloadInfo} (hx : m.getPayload seq = some x) :
    ∃ i p, (m.slots i).Occupied ∧ (m.slots i).seq = seq ∧ log[num i]? = some p ∧
      x = SenderMachine.info p seq := by
  cases hfind : m.findSlot fun x => x.Occupied ∧ x.seq = seq with
  | none =>
    rw [getPayload, hfind] at hx
    cases hx
  | some i =>
    have hi := findSlot_some hfind
    simp only [Bool.decide_and, Bool.and_eq_true, decide_eq_true_eq] at hi
    obtain ⟨p, hp, hh⟩ := h.cargo i hi.1
    rw [hh.info (henc p (List.mem_of_getElem? hp)) hfind, Option.some.injEq] at hx
    exact ⟨i, p, hi.1, hi.2, hp, hx.symm⟩

theorem getPayload_isSome {m : SenderMachine WIN MTU} {i : Fin WIN} (hi : (m.slots i).Occupied) :
    (m.getPayload (m.slots i).seq).isSome := by
  rw [getPayload, Option.isSome_map, findSlot, List.find?_isSome]
  exact ⟨i, List.mem_finRange i, by simpa using hi⟩

theorem Carries.intact {m : SenderMachine WIN MTU} {log : List QueuedPacket}
    {num : Fin WIN → Nat} (hl : Layout m) (h : Carries m log num)
    (henc : ∀ p ∈ log, p.target.Encodable) : Intact m log num where
  writePos_le := hl.writePos_le
  inside := hl.inside
  disjoint i j hi hj hij := (hl.apart i j hi hj hij).disjoint
  nextSeq := h.nextSeq
  numbered _ hi := h.numbered hi
  numbers := h.distinct
  seqs hclose _ _ hi hj he := h.seqs hclose hi hj he
  queued _ _ hx := h.queued henc hx
  answered _ hi := getPayload_isSome hi
  payload hclose i hi := by
    obtain ⟨x, hx⟩ := Option.isSome_iff_exists.1 (getPayload_isSome hi)
    obtain ⟨j, p, hj, hseq, hp, he⟩ := h.queued henc hx
    rw [h.seqs hclose hj hi hseq] at hp
    exact ⟨p, hp, by rw [hx, he]⟩

/-- In every state of a run whose targets are encodable the send buffer is intact. -/
theorem intact_of_reaches {config : SenderConfig} {bufSize : Nat} {s : Logged WIN MTU}
    (h : (sender WIN MTU config bufSize).Reaches TargetEncodable s) :
    Intact s.machine s.log s.num := by
  obtain ⟨hl, hc⟩ := carries_of_reaches h
  exact hc.intact hl (encodable_of_reaches h)

def Logged.next (s : Logged WIN MTU) : SenderCall → Logged WIN MTU
  | .handle e =>
      let m := (s.machine.handle e .new).1
      ⟨m, s.log ++ queuedBy s.machine e m, renumber s.num s.log.length (filledBy s.machine m)⟩
  | .markTransmitted seq => ⟨s.machine.markTransmitted seq, s.log, s.num⟩

theorem Logged.next_step (config : SenderConfig) (bufSize : Nat) (s : Logged WIN MTU)
    (c : SenderCall) : (sender WIN MTU config bufSize).step s c (s.next c) := by
  cases c with
  | handle e => exact ⟨⟨.new, rfl⟩, rfl, rfl⟩
  | markTransmitted seq => rfl

/-- A sender of three slots and a four-byte buffer on station 0. -/
def smallConfig : SenderConfig := ⟨.ground 0, 10, 3, 13⟩

def smallSender : Logged 3 32 := ⟨.new smallConfig 4, [], fun _ => 0⟩

/-- A message for orbit 255 is read back as one for a ground station. -/
theorem intact_orbit_255 :
    ∃ s : Logged 3 32, (sender 3 32 smallConfig 4).Reachable s ∧
      ¬ Intact s.machine s.log s.num := by
  let c : SenderCall := .handle (.sendRequest (.satellite ⟨255, 7⟩) [1])
  refine ⟨smallSender.next c,
    .step c (.init rfl) trivial (smallSender.next_step smallConfig 4 c), fun h => ?_⟩
  have hread : (smallSender.next c).machine.getPayload 0 =
      some ⟨0, .unsegmented, .ground 7, [1], false⟩ := by decide
  obtain ⟨i, p, -, -, hp, he⟩ := h.queued 0 _ hread
  have hmem := List.mem_of_getElem? hp
  have hlog : (smallSender.next c).log =
      [⟨.satellite ⟨255, 7⟩, .unsegmented, [1], false, false⟩] := by
    decide
  rw [hlog, List.mem_singleton] at hmem
  rw [hmem] at he
  revert he
  decide

/-- Three messages through a four-byte buffer: the third is queued after the first was
acknowledged and the second was moved to the front. -/
def compactingCalls : List SenderCall :=
  [.handle (.sendRequest (.ground 1) [1, 2]), .handle (.sendRequest (.ground 2) [3, 4]),
    .handle (.ackReceived 0 0), .handle (.sendRequest (.ground 3) [5, 6])]

theorem intact_of_reaches_compacted :
    Intact (compactingCalls.foldl Logged.next smallSender).machine
      (compactingCalls.foldl Logged.next smallSender).log
      (compactingCalls.foldl Logged.next smallSender).num := by
  refine intact_of_reaches (System.Reaches.foldl
    (fun s a hok => ⟨hok, Logged.next_step smallConfig 4 s a⟩) (.init rfl) ?_)
  exact ⟨trivial, trivial, trivial, trivial, trivial⟩

end SenderMachine

end Srspp
end Leodos
