/-
The actions the sender emits.

The queue keeps the first `MAX_ACTIONS` of everything appended to it.  A send event
appends a `Transmit` for each packet it queues, an acknowledgement a `StopTimer` for
each slot it frees; the lemmas here tie the appended actions to the slots.
-/
import Leodos.Srspp.Sender.Integrity

namespace Leodos
namespace Srspp

open Spp

namespace SenderActions

theorem push_inner (q : SenderActions) (a : SenderAction) :
    (q.push a).inner = (q.inner ++ [a]).take MAX_ACTIONS := by
  have hb := q.bounded
  unfold push
  split
  · rename_i h
    have hlen : (q.inner ++ [a]).length ≤ MAX_ACTIONS := by
      rw [List.length_append]
      exact h
    rw [List.take_of_length_le hlen]
  · rename_i h
    rw [List.take_append_of_le_length (by omega), List.take_of_length_le hb]

theorem take_append_take {α : Type} (n : Nat) (l l' : List α) :
    (l.take n ++ l').take n = (l ++ l').take n := by
  rcases Nat.le_total n l.length with h | h
  · have hlen : (l.take n).length = n := by simpa using h
    rw [List.take_append_of_le_length (by omega), List.take_append_of_le_length h,
      List.take_of_length_le (by omega)]
  · rw [List.take_of_length_le h]

theorem pushAll_inner (q : SenderActions) (as : List SenderAction) :
    (q.pushAll as).inner = (q.inner ++ as).take MAX_ACTIONS := by
  induction as generalizing q with
  | nil => rw [List.append_nil, List.take_of_length_le q.bounded]; rfl
  | cons a as ih =>
    have h := ih (q.push a)
    rw [push_inner, take_append_take, List.append_assoc] at h
    exact h

/-- `q'` is `q` with `as` appended, as far as there was room. -/
def Appends (q : SenderActions) (as : List SenderAction) (q' : SenderActions) : Prop :=
  q'.inner = (q.inner ++ as).take MAX_ACTIONS

theorem Appends.refl (q : SenderActions) : Appends q [] q := by
  rw [Appends, List.append_nil, List.take_of_length_le q.bounded]

theorem Appends.trans {q₁ q₂ q₃ : SenderActions} {as bs : List SenderAction}
    (h₁ : Appends q₁ as q₂) (h₂ : Appends q₂ bs q₃) : Appends q₁ (as ++ bs) q₃ := by
  rw [Appends, h₂, h₁, take_append_take, List.append_assoc]

theorem Appends.mem {q q' : SenderActions} {as : List SenderAction} (h : Appends q as q')
    {a : SenderAction} (ha : a ∈ q'.inner) : a ∈ q.inner ∨ a ∈ as := by
  rw [h] at ha
  exact List.mem_append.1 (List.mem_of_mem_take ha)

theorem Appends.old {q q' : SenderActions} {as : List SenderAction} (h : Appends q as q')
    {a : SenderAction} (ha : a ∈ q.inner) : a ∈ q'.inner := by
  have hb := q.bounded
  rw [h]
  refine List.mem_of_mem_take (i := q.inner.length) ?_
  rw [List.take_take, Nat.min_eq_left hb, List.take_left]
  exact ha

theorem Appends.new {q q' : SenderActions} {as bs : List SenderAction}
    (h : Appends q (as ++ bs) q') (hroom : q.inner.length + as.length ≤ MAX_ACTIONS)
    {a : SenderAction} (ha : a ∈ as) : a ∈ q'.inner := by
  rw [h, ← List.append_assoc]
  refine List.mem_of_mem_take (i := q.inner.length + as.length) ?_
  rw [List.take_take, Nat.min_eq_left hroom, ← List.length_append, List.take_left]
  exact List.mem_append_right _ ha

end SenderActions

namespace SenderMachine

open SenderActions

variable {WIN MTU : Nat}

/-! ## Send events -/

/-- `n` counts from `seq` on. -/
def seqsFrom (seq : SequenceCount) : Nat → List SequenceCount
  | 0 => []
  | n + 1 => seq :: seqsFrom (seq + 1) n

theorem seqsFrom_length (seq : SequenceCount) (n : Nat) : (seqsFrom seq n).length = n := by
  induction n generalizing seq with
  | zero => rfl
  | succ n ih => simp [seqsFrom, ih]

/-- What a send event leaves in the slots: the slots in use keep their contents, and a
slot newly in use waits for transmission under one of the new counts. -/
theorem Queues.slots {m m' : SenderMachine WIN MTU} {a a' : SenderActions}
    {ps : List QueuedPacket} (h : Queues m a ps m' a') (i : Fin WIN) :
    ((m.slots i).Occupied ∧ ∃ off, m'.slots i = { m.slots i with offset := off }) ∨
      ¬ (m.slots i).Occupied ∧ (¬ (m'.slots i).Occupied ∨
        (m'.slots i).state = .pendingTransmit ∧ (m'.slots i).seq ∈ seqsFrom m.nextSeq ps.length ∧
          ∃ p ∈ ps, (m'.slots i).len = p.payload.length) := by
  induction h with
  | done m a =>
    by_cases hi : (m.slots i).Occupied
    · exact Or.inl ⟨hi, _, rfl⟩
    · exact Or.inr ⟨hi, Or.inl hi⟩
  | relocate hl _ ih =>
    have hr := compact_relocated hl
    obtain ⟨off, hoff⟩ := hr.slot i
    rw [hr.occupied_iff, hr.nextSeq, hoff] at ih
    rcases ih with ⟨hi, off', he⟩ | h
    · exact Or.inl ⟨hi, off', he⟩
    · exact Or.inr h
  | assign j p hj hfit _ ih =>
    by_cases hij : i = j
    · subst hij
      rw [assignPacket_slots, if_pos rfl] at ih
      refine Or.inr ⟨findSlot_empty hj, Or.inr ?_⟩
      rcases ih with ⟨-, off, he⟩ | ⟨hno, -⟩
      · rw [he]
        exact ⟨rfl, List.mem_cons_self .., p, List.mem_cons_self .., rfl⟩
      · exact absurd (by simp [PacketMeta.Occupied]) hno
    · rw [assignPacket_slots, if_neg hij] at ih
      rcases ih with ⟨hi, off, he⟩ | ⟨hno, h⟩
      · exact Or.inl ⟨hi, off, he⟩
      · refine Or.inr ⟨hno, h.imp_right ?_⟩
        rintro ⟨hst, hseq, q, hq, hlen⟩
        exact ⟨hst, List.mem_cons_of_mem _ hseq, q, List.mem_cons_of_mem _ hq, hlen⟩

theorem Queues.actions {m m' : SenderMachine WIN MTU} {a a' : SenderActions}
    {ps : List QueuedPacket} (h : Queues m a ps m' a') :
    a.Appends ((seqsFrom m.nextSeq ps.length).map fun s => .transmit s m.config.rtoTicks) a' := by
  induction h with
  | done => exact Appends.refl _
  | relocate hl _ ih =>
    have hr := compact_relocated hl
    rw [hr.nextSeq, hr.config] at ih
    exact ih
  | assign i p _ _ _ ih => exact Appends.trans (push_inner _ _) ih

/-! ## Acknowledgements -/

/-- The slots of `freed` are those that `m'` no longer uses, and a `StopTimer` was
appended for each. -/
structure Stops (freed : List (Fin WIN)) (m : SenderMachine WIN MTU) (a : SenderActions)
    (m' : SenderMachine WIN MTU) (a' : SenderActions) : Prop where
  frees : FreesOnly (fun _ => True) m m'
  nodup : freed.Nodup
  mem : ∀ i, i ∈ freed ↔ (m.slots i).Occupied ∧ ¬ (m'.slots i).Occupied
  appends : a.Appends (freed.map fun i => .stopTimer (m.slots i).seq) a'

theorem Stops.refl (m : SenderMachine WIN MTU) (a : SenderActions) : Stops [] m a m a where
  frees := FreesOnly.refl _ m
  nodup := List.nodup_nil
  mem i := by simp
  appends := Appends.refl a

theorem Stops.trans {f₁ f₂ : List (Fin WIN)} {m₁ m₂ m₃ : SenderMachine WIN MTU}
    {a₁ a₂ a₃ : SenderActions} (h₁ : Stops f₁ m₁ a₁ m₂ a₂) (h₂ : Stops f₂ m₂ a₂ m₃ a₃) :
    Stops (f₁ ++ f₂) m₁ a₁ m₃ a₃ where
  frees := h₁.frees.trans h₂.frees
  nodup := by
    refine List.nodup_append.2 ⟨h₁.nodup, h₂.nodup, ?_⟩
    rintro i hi j hj rfl
    exact ((h₁.mem i).1 hi).2 ((h₂.mem i).1 hj).1
  mem i := by
    rw [List.mem_append, h₁.mem, h₂.mem]
    have hback : ∀ {p : SequenceCount → Prop} {m m' : SenderMachine WIN MTU},
        FreesOnly p m m' → (m'.slots i).Occupied → (m.slots i).Occupied := by
      intro p m m' h hi
      have hk := h.kept hi
      rwa [hk] at hi
    constructor
    · rintro (⟨hi, hno⟩ | ⟨hi, hno⟩)
      · exact ⟨hi, fun h => hno (hback h₂.frees h)⟩
      · exact ⟨hback h₁.frees hi, hno⟩
    · rintro ⟨hi, hno⟩
      by_cases h : (m₂.slots i).Occupied
      · exact Or.inr ⟨h, hno⟩
      · exact Or.inl ⟨hi, h⟩
  appends := by
    have hsame : (f₂.map fun i => SenderAction.stopTimer (m₂.slots i).seq) =
        f₂.map fun i => .stopTimer (m₁.slots i).seq :=
      List.map_congr_left fun i hi => by rw [h₁.frees.kept ((h₂.mem i).1 hi).1]
    have h := h₁.appends.trans h₂.appends
    rwa [hsame, ← List.map_append] at h

theorem ackCumulative_stops (ack : SequenceCount) (m : SenderMachine WIN MTU)
    (a : SenderActions) :
    ∃ freed, Stops freed m a (ackCumulative ack m a).1 (ackCumulative ack m a).2.1 := by
  refine ⟨(List.finRange WIN).filter fun i =>
    (m.slots i).Occupied ∧ cumulativelyAcked ack (m.slots i).seq, ?_, ?_, fun i => ?_, ?_⟩
  · exact (ackCumulative_freesOnly ack m a).mono fun _ _ => trivial
  · exact (List.nodup_finRange WIN).filter _
  · simp only [List.mem_filter, List.mem_finRange, true_and, decide_eq_true_eq]
    constructor
    · intro h
      refine ⟨h.1, ?_⟩
      simp only [ackCumulative, if_pos h]
      exact freeSlot_occupied _
    · rintro ⟨hi, hno⟩
      refine ⟨hi, Classical.byContradiction fun hc => hno ?_⟩
      simp only [ackCumulative, if_neg (fun h : _ ∧ _ => hc h.2)]
      exact hi
  · exact pushAll_inner _ _

theorem ackBit_stops (ack : SequenceCount) (bitmap : BitVec 16)
    (acc : SenderMachine WIN MTU × SenderActions × Nat) (k : Nat) :
    ∃ freed, Stops freed acc.1 acc.2.1 (ackBit ack bitmap acc k).1
      (ackBit ack bitmap acc k).2.1 := by
  obtain ⟨m, a, n⟩ := acc
  simp only [ackBit]
  split
  · split
    · exact ⟨[], Stops.refl m a⟩
    · rename_i i hfind
      have hi := findSlot_some hfind
      simp only [Bool.decide_and, Bool.and_eq_true, decide_eq_true_eq] at hi
      refine ⟨[i], setSlot_free m hi.1 trivial, List.nodup_singleton _, fun j => ?_, push_inner _ _⟩
      rw [List.mem_singleton, setSlot_slots]
      by_cases hj : j = i
      · subst hj
        rw [if_pos rfl]
        exact ⟨fun _ => ⟨hi.1, freeSlot_occupied _⟩, fun _ => rfl⟩
      · rw [if_neg hj]
        exact ⟨fun h => absurd h hj, fun h => absurd h.1 h.2⟩
  · exact ⟨[], Stops.refl m a⟩

/-- An acknowledgement appends the `StopTimer`s of the freed slots, then at most a
`SpaceAvailable`. -/
theorem handleAck_stops (m : SenderMachine WIN MTU) (ack : SequenceCount) (bitmap : BitVec 16)
    (a : SenderActions) :
    ∃ freed : List (Fin WIN), ∃ tail : List SenderAction, freed.Nodup ∧
      (∀ i, i ∈ freed ↔
        (m.slots i).Occupied ∧ ¬ ((m.handleAck ack bitmap a).1.slots i).Occupied) ∧
      (∀ x ∈ tail, ∃ n, x = .spaceAvailable n) ∧
      a.Appends ((freed.map fun i => .stopTimer (m.slots i).seq) ++ tail)
        (m.handleAck ack bitmap a).2 := by
  have hbits : ∀ (ks : List Nat) (acc : SenderMachine WIN MTU × SenderActions × Nat),
      ∃ freed, Stops freed acc.1 acc.2.1 (ks.foldl (ackBit ack bitmap) acc).1
        (ks.foldl (ackBit ack bitmap) acc).2.1 := by
    intro ks
    induction ks with
    | nil => exact fun acc => ⟨[], Stops.refl _ _⟩
    | cons k ks ih =>
      intro acc
      obtain ⟨f₁, h₁⟩ := ackBit_stops ack bitmap acc k
      obtain ⟨f₂, h₂⟩ := ih (ackBit ack bitmap acc k)
      exact ⟨f₁ ++ f₂, h₁.trans h₂⟩
  obtain ⟨f₁, h₁⟩ := ackCumulative_stops ack m a
  obtain ⟨f₂, h₂⟩ := hbits (List.range 16) (ackCumulative ack m a)
  have h := h₁.trans h₂
  by_cases hfreed : ((List.range 16).foldl (ackBit ack bitmap) (ackCumulative ack m a)).2.2 > 0
  · refine ⟨f₁ ++ f₂, [.spaceAvailable (m.handleAck ack bitmap a).1.availableBytes], h.nodup,
      h.mem, by simp, ?_⟩
    have he : (m.handleAck ack bitmap a).2 =
        ((List.range 16).foldl (ackBit ack bitmap) (ackCumulative ack m a)).2.1.push
          (.spaceAvailable (m.handleAck ack bitmap a).1.availableBytes) := if_pos hfreed
    rw [he]
    exact h.appends.trans (push_inner _ _)
  · refine ⟨f₁ ++ f₂, [], h.nodup, h.mem, by simp, ?_⟩
    have he : (m.handleAck ack bitmap a).2 =
        ((List.range 16).foldl (ackBit ack bitmap) (ackCumulative ack m a)).2.1 := if_neg hfreed
    rw [he, List.append_nil]
    exact h.appends

/-! ## Timeouts -/

theorem handleTimeout_cases (m : SenderMachine WIN MTU) (seq : SequenceCount)
    (a : SenderActions) :
    (∀ i, ¬ ((m.slots i).state = .awaitingAck ∧ (m.slots i).seq = seq)) ∧
        (m.handleTimeout seq a).1.slots = m.slots ∧ (m.handleTimeout seq a).2 = a ∨
      ∃ i, (m.slots i).state = .awaitingAck ∧ (m.slots i).seq = seq ∧
        (m.config.maxRetransmits ≤ (m.slots i).retransmitCount ∧
            (m.handleTimeout seq a).1.slots =
              Function.update m.slots i (freeSlot (m.slots i)) ∧
            (∃ as, (∀ x ∈ as, x = .packetLost seq ∨ x = .messageLost) ∧
              a.Appends as (m.handleTimeout seq a).2) ∨
          (m.slots i).retransmitCount < m.config.maxRetransmits ∧
            (m.handleTimeout seq a).1.slots = Function.update m.slots i
              { m.slots i with
                state := .pendingTransmit
                retransmitCount := (m.slots i).retransmitCount + 1 } ∧
            a.Appends [.transmit seq m.config.rtoTicks] (m.handleTimeout seq a).2) := by
  cases hfind : m.findSlot fun x => x.state = .awaitingAck ∧ x.seq = seq with
  | none =>
    refine Or.inl ⟨fun i hi => ?_, by simp only [handleTimeout, hfind]; rfl,
      by simp only [handleTimeout, hfind]⟩
    have := findSlot_none hfind i
    simp [hi] at this
  | some i =>
    have hi := findSlot_some hfind
    simp only [Bool.decide_and, Bool.and_eq_true, decide_eq_true_eq] at hi
    refine Or.inr ⟨i, hi.1, hi.2, ?_⟩
    by_cases hmax : (m.slots i).retransmitCount ≥ m.config.maxRetransmits
    · refine Or.inl ⟨hmax, ?_, ?_⟩
      · simp only [handleTimeout, hfind, if_pos hmax]
        rfl
      · simp only [handleTimeout, hfind, if_pos hmax]
        split
        · exact ⟨[.packetLost seq, .messageLost], by simp,
            Appends.trans (push_inner _ _) (push_inner _ _)⟩
        · exact ⟨[.packetLost seq], by simp, push_inner _ _⟩
    · refine Or.inr ⟨Nat.lt_of_not_le hmax, ?_, ?_⟩
      · simp only [handleTimeout, hfind, if_neg hmax]
        rfl
      · simp only [handleTimeout, hfind, if_neg hmax]
        exact push_inner _ _

end SenderMachine

end Srspp
end Leodos
