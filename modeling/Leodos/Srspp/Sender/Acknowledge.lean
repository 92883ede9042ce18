/-
What an acknowledgement does to the sender's slots.

`handle_ack` frees slots and touches nothing else of a slot, of the buffer or of
the sequence counter.  `FreesOnly p` says so, with the sequence numbers that may
be freed, and composes along the fold over the bitmap.
-/
import Leodos.Srspp.Sender.Machine

namespace Leodos
namespace Srspp

open Spp

namespace SenderMachine

variable {WIN MTU : Nat}

/-- `m'` is `m` with some slots freed, all of them with a number in `p`. -/
structure FreesOnly (p : SequenceCount → Prop) (m m' : SenderMachine WIN MTU) : Prop where
  slot : ∀ i, m'.slots i = m.slots i ∨
    (m.slots i).Occupied ∧ p (m.slots i).seq ∧ m'.slots i = freeSlot (m.slots i)
  config : m'.config = m.config
  data : m'.data = m.data
  writePos : m'.writePos = m.writePos
  nextSeq : m'.nextSeq = m.nextSeq

@[simp] theorem freeSlot_occupied (x : PacketMeta) : ¬ (freeSlot x).Occupied := by
  simp [freeSlot, PacketMeta.Occupied]

theorem FreesOnly.refl (p : SequenceCount → Prop) (m : SenderMachine WIN MTU) :
    FreesOnly p m m :=
  ⟨fun _ => Or.inl rfl, rfl, rfl, rfl, rfl⟩

theorem FreesOnly.trans {p : SequenceCount → Prop} {m₁ m₂ m₃ : SenderMachine WIN MTU}
    (h₁ : FreesOnly p m₁ m₂) (h₂ : FreesOnly p m₂ m₃) : FreesOnly p m₁ m₃ where
  slot := by
    intro i
    rcases h₂.slot i with h | ⟨hocc, hp, h⟩
    · rw [h]
      exact h₁.slot i
    · rcases h₁.slot i with h' | ⟨-, -, h'⟩
      · rw [h'] at hocc hp h
        exact Or.inr ⟨hocc, hp, h⟩
      · rw [h'] at hocc
        exact absurd hocc (freeSlot_occupied _)
  config := h₂.config.trans h₁.config
  data := h₂.data.trans h₁.data
  writePos := h₂.writePos.trans h₁.writePos
  nextSeq := h₂.nextSeq.trans h₁.nextSeq

theorem FreesOnly.mono {p q : SequenceCount → Prop} {m m' : SenderMachine WIN MTU}
    (h : FreesOnly p m m') (hpq : ∀ s, p s → q s) : FreesOnly q m m' :=
  { h with
    slot := fun i => (h.slot i).imp id fun ⟨hocc, hp, he⟩ => ⟨hocc, hpq _ hp, he⟩ }

theorem FreesOnly.kept {p : SequenceCount → Prop} {m m' : SenderMachine WIN MTU}
    (h : FreesOnly p m m') {i : Fin WIN} (hi : (m'.slots i).Occupied) :
    m'.slots i = m.slots i := by
  rcases h.slot i with he | ⟨-, -, he⟩
  · exact he
  · rw [he] at hi
    exact absurd hi (freeSlot_occupied _)

theorem findSlot_some {m : SenderMachine WIN MTU} {p : PacketMeta → Bool} {i : Fin WIN}
    (h : m.findSlot p = some i) : p (m.slots i) = true := by
  simpa using List.find?_some h

theorem findSlot_none {m : SenderMachine WIN MTU} {p : PacketMeta → Bool}
    (h : m.findSlot p = none) (i : Fin WIN) : p (m.slots i) = false := by
  have := List.find?_eq_none.1 h i (List.mem_finRange i)
  simpa using this

theorem getPayload_slot {m : SenderMachine WIN MTU} {seq : SequenceCount} {x : PayloadInfo}
    (h : m.getPayload seq = some x) :
    ∃ i, (m.slots i).Occupied ∧ (m.slots i).seq = seq ∧
      x.payload = Memory.slice m.data (m.slots i).offset (m.slots i).len := by
  obtain ⟨i, hfind, rfl⟩ := Option.map_eq_some_iff.1 h
  have hi := findSlot_some hfind
  simp only [Bool.decide_and, Bool.and_eq_true, decide_eq_true_eq] at hi
  exact ⟨i, hi.1, hi.2, rfl⟩

@[simp] theorem setSlot_slots (m : SenderMachine WIN MTU) (i j : Fin WIN) (x : PacketMeta) :
    (m.setSlot i x).slots j = if j = i then x else m.slots j := by
  simp [setSlot, Function.update_apply]

theorem setSlot_free (m : SenderMachine WIN MTU) {i : Fin WIN} (hocc : (m.slots i).Occupied)
    {p : SequenceCount → Prop} (hp : p (m.slots i).seq) :
    FreesOnly p m (m.setSlot i (freeSlot (m.slots i))) where
  slot := by
    intro j
    rw [setSlot_slots]
    by_cases hj : j = i
    · subst hj
      rw [if_pos rfl]
      exact Or.inr ⟨hocc, hp, rfl⟩
    · rw [if_neg hj]
      exact Or.inl rfl
  config := rfl
  data := rfl
  writePos := rfl
  nextSeq := rfl

theorem updateSendBase_freesOnly (p : SequenceCount → Prop) (m : SenderMachine WIN MTU) :
    FreesOnly p m m.updateSendBase :=
  ⟨fun _ => Or.inl rfl, rfl, rfl, rfl, rfl⟩

theorem ackCumulative_freesOnly (ack : SequenceCount) (m : SenderMachine WIN MTU)
    (actions : SenderActions) :
    FreesOnly (fun s => cumulativelyAcked ack s = true) m (ackCumulative ack m actions).1 where
  slot := by
    intro i
    by_cases h : (m.slots i).Occupied ∧ cumulativelyAcked ack (m.slots i).seq
    · exact Or.inr ⟨h.1, h.2, if_pos h⟩
    · exact Or.inl (if_neg h)
  config := rfl
  data := rfl
  writePos := rfl
  nextSeq := rfl

/-- The sequence number that bit `k` of the selective bitmap stands for, as the
sender reads it. -/
def bitSeq (ack : SequenceCount) (k : Nat) : SequenceCount := ack + 1 + BitVec.ofNat 14 k

theorem ackBit_freesOnly (ack : SequenceCount) (bitmap : BitVec 16)
    (acc : SenderMachine WIN MTU × SenderActions × Nat) (k : Nat) :
    FreesOnly (fun s => bitmap.getLsbD k = true ∧ s = bitSeq ack k) acc.1
      (ackBit ack bitmap acc k).1 := by
  obtain ⟨m, actions, freed⟩ := acc
  simp only [ackBit]
  split
  · rename_i hbit
    split
    · exact FreesOnly.refl _ _
    · rename_i i hfind
      have hi := findSlot_some hfind
      simp only [Bool.decide_and, Bool.and_eq_true, decide_eq_true_eq] at hi
      exact setSlot_free m hi.1 ⟨hbit, hi.2⟩
  · exact FreesOnly.refl _ _

theorem ackBit_frees {ack : SequenceCount} {bitmap : BitVec 16}
    {acc : SenderMachine WIN MTU × SenderActions × Nat} {k : Nat}
    (hbit : bitmap.getLsbD k = true) {i : Fin WIN} (hi : (acc.1.slots i).Occupied)
    (hseq : (acc.1.slots i).seq = bitSeq ack k) :
    ∃ j, (acc.1.slots j).Occupied ∧ (acc.1.slots j).seq = bitSeq ack k ∧
      ¬ ((ackBit ack bitmap acc k).1.slots j).Occupied := by
  obtain ⟨m, actions, freed⟩ := acc
  simp only [ackBit, if_pos hbit]
  split
  · rename_i hfind
    have := findSlot_none hfind i
    simp only [Bool.decide_and, Bool.and_eq_false_iff, decide_eq_false_iff_not] at this
    rcases this with h | h
    · exact absurd hi h
    · exact absurd hseq h
  · rename_i j hfind
    have hj := findSlot_some hfind
    simp only [Bool.decide_and, Bool.and_eq_true, decide_eq_true_eq] at hj
    refine ⟨j, hj.1, hj.2, ?_⟩
    simp

/-- The numbers an acknowledgement frees, as the sender reads it. -/
def Acked (ack : SequenceCount) (bitmap : BitVec 16) (s : SequenceCount) : Prop :=
  cumulativelyAcked ack s = true ∨ ∃ k < 16, bitmap.getLsbD k = true ∧ s = bitSeq ack k

theorem ackBits_freesOnly (ack : SequenceCount) (bitmap : BitVec 16) (ks : List Nat)
    (hks : ∀ k ∈ ks, k < 16) (acc : SenderMachine WIN MTU × SenderActions × Nat) :
    FreesOnly (Acked ack bitmap) acc.1 (ks.foldl (ackBit ack bitmap) acc).1 := by
  induction ks generalizing acc with
  | nil => exact FreesOnly.refl _ _
  | cons k ks ih =>
    have hk : k < 16 := hks k (List.mem_cons_self ..)
    have h₁ := (ackBit_freesOnly ack bitmap acc k).mono (q := Acked ack bitmap)
      fun s hs => Or.inr ⟨k, hk, hs⟩
    have h₂ := ih (fun j hj => hks j (List.mem_cons_of_mem _ hj)) (ackBit ack bitmap acc k)
    exact h₁.trans h₂

theorem handleAck_freesOnly (m : SenderMachine WIN MTU) (ack : SequenceCount)
    (bitmap : BitVec 16) (actions : SenderActions) :
    FreesOnly (Acked ack bitmap) m (m.handleAck ack bitmap actions).1 := by
  have h₁ := (ackCumulative_freesOnly ack m actions).mono (q := Acked ack bitmap)
    fun s hs => Or.inl hs
  have h₂ := ackBits_freesOnly ack bitmap (List.range 16) (fun k hk => List.mem_range.1 hk)
    (ackCumulative ack m actions)
  exact (h₁.trans h₂).trans (updateSendBase_freesOnly _ _)

theorem handleAck_frees {m : SenderMachine WIN MTU} {ack : SequenceCount}
    {bitmap : BitVec 16} (actions : SenderActions) {k : Nat} (hk : k < 16)
    (hbit : bitmap.getLsbD k = true) {i : Fin WIN} (hi : (m.slots i).Occupied)
    (hseq : (m.slots i).seq = bitSeq ack k) :
    ∃ j, (m.slots j).Occupied ∧ (m.slots j).seq = (m.slots i).seq ∧
      ¬ ((m.handleAck ack bitmap actions).1.slots j).Occupied := by
  let acc₀ := ackCumulative ack m actions
  let acc₁ := (List.range k).foldl (ackBit ack bitmap) acc₀
  let acc₂ := ackBit ack bitmap acc₁ k
  have hsplit : List.range 16 = List.range k ++ k :: (List.range (15 - k)).map (· + (k + 1)) := by
    have h16 : 16 = k + (1 + (15 - k)) := by omega
    rw [show List.range 16 = List.range (k + (1 + (15 - k))) by rw [← h16], List.range_add,
      List.range_add]
    simp [Nat.add_comm, Nat.add_left_comm]
  have hbefore : FreesOnly (Acked ack bitmap) m acc₁.1 :=
    ((ackCumulative_freesOnly ack m actions).mono fun s hs => Or.inl hs).trans
      (ackBits_freesOnly ack bitmap (List.range k)
        (fun j hj => by
          have := List.mem_range.1 hj
          omega) acc₀)
  have hafter : FreesOnly (Acked ack bitmap) acc₂.1 (m.handleAck ack bitmap actions).1 := by
    have h := ackBits_freesOnly ack bitmap ((List.range (15 - k)).map (· + (k + 1)))
      (fun j hj => by
        obtain ⟨x, hx, rfl⟩ := List.mem_map.1 hj
        have := List.mem_range.1 hx
        omega) acc₂
    have hfold : (List.range 16).foldl (ackBit ack bitmap) acc₀ =
        ((List.range (15 - k)).map (· + (k + 1))).foldl (ackBit ack bitmap) acc₂ := by
      rw [hsplit, List.foldl_append, List.foldl_cons]
    rw [← hfold] at h
    exact h.trans (updateSendBase_freesOnly _ _)
  by_cases hocc : (acc₁.1.slots i).Occupied
  · have hseq₁ : (acc₁.1.slots i).seq = bitSeq ack k := by rw [hbefore.kept hocc, hseq]
    obtain ⟨j, hj, hjseq, hjfree⟩ := ackBit_frees hbit hocc hseq₁
    refine ⟨j, ?_, ?_, fun h => hjfree ?_⟩
    · rw [← hbefore.kept hj]
      exact hj
    · rw [hseq, ← hjseq, hbefore.kept hj]
    · rw [← hafter.kept h]
      exact h
  · refine ⟨i, hi, rfl, fun h => hocc ?_⟩
    have h₂ : acc₂.1.slots i = acc₁.1.slots i := by
      have hk₂ := hafter.kept h
      rw [hk₂] at h
      exact (ackBit_freesOnly ack bitmap acc₁ k).kept h
    rw [← h₂, ← hafter.kept h]
    exact h

end SenderMachine

end Srspp
end Leodos
