/-
The layout of the send buffer.

`Layout` says that the live slots own disjoint blocks of the written part of the
buffer.  `compact` slides the blocks down in place; `compact_relocated` says what it
leaves behind: every live slot is where it was with another offset, its payload
reads as before, and the written part is exactly the live bytes.
-/
import Mathlib.Data.List.Pairwise
import Leodos.Srspp.Sender.Machine

namespace Leodos
namespace Srspp

open Memory Spp

/-- Two blocks of a buffer that do not overlap.  An empty block sits at the edge of
any other. -/
def Separated (x y : PacketMeta) : Prop :=
  x.offset + x.len ≤ y.offset ∨ y.offset + y.len ≤ x.offset

theorem Separated.symm {x y : PacketMeta} (h : Separated x y) : Separated y x := Or.symm h

theorem Separated.disjoint {x y : PacketMeta} (h : Separated x y) (b : Nat) :
    ¬ ((x.offset ≤ b ∧ b < x.offset + x.len) ∧ y.offset ≤ b ∧ b < y.offset + y.len) := by
  rcases h with h | h <;> omega

namespace SenderMachine

variable {WIN MTU : Nat}

structure Layout (m : SenderMachine WIN MTU) : Prop where
  writePos_le : m.writePos ≤ m.data.length
  inside : ∀ i, (m.slots i).Occupied → (m.slots i).offset + (m.slots i).len ≤ m.writePos
  apart : ∀ i j, (m.slots i).Occupied → (m.slots j).Occupied → i ≠ j →
    Separated (m.slots i) (m.slots j)

def liveBytes (m : SenderMachine WIN MTU) : Nat :=
  (((List.finRange WIN).filter fun i => (m.slots i).Occupied).map fun i => (m.slots i).len).sum

/-- `m'` is `m` with the live payloads somewhere else in the buffer. -/
structure Relocated (m m' : SenderMachine WIN MTU) : Prop where
  slot : ∀ i, ∃ off, m'.slots i = { m.slots i with offset := off }
  payload : ∀ i, (m.slots i).Occupied →
    slice m'.data (m'.slots i).offset (m.slots i).len =
      slice m.data (m.slots i).offset (m.slots i).len
  config : m'.config = m.config
  nextSeq : m'.nextSeq = m.nextSeq
  size : m'.data.length = m.data.length

theorem Relocated.occupied_iff {m m' : SenderMachine WIN MTU} (h : Relocated m m')
    (i : Fin WIN) : (m'.slots i).Occupied ↔ (m.slots i).Occupied := by
  obtain ⟨off, hoff⟩ := h.slot i
  rw [hoff]
  exact Iff.rfl

/-! ## The live slots in order -/

theorem mem_insertByOffset (m : SenderMachine WIN MTU) (i j : Fin WIN) (l : List (Fin WIN)) :
    j ∈ m.insertByOffset i l ↔ j = i ∨ j ∈ l := by
  induction l with
  | nil => simp [insertByOffset]
  | cons k l ih =>
    unfold insertByOffset
    split
    · simp
    · simp only [List.mem_cons, ih]
      constructor <;> rintro (h | h | h) <;> simp [h]

theorem insertByOffset_perm (m : SenderMachine WIN MTU) (i : Fin WIN) (l : List (Fin WIN)) :
    (m.insertByOffset i l).Perm (i :: l) := by
  induction l with
  | nil => exact List.Perm.refl _
  | cons k l ih =>
    unfold insertByOffset
    split
    · exact List.Perm.refl _
    · exact (ih.cons k).trans (List.Perm.swap i k l)

theorem insertByOffset_sorted (m : SenderMachine WIN MTU) (i : Fin WIN) {l : List (Fin WIN)}
    (h : l.Pairwise fun a b => (m.slots a).offset ≤ (m.slots b).offset) :
    (m.insertByOffset i l).Pairwise fun a b => (m.slots a).offset ≤ (m.slots b).offset := by
  induction l with
  | nil => simp [insertByOffset]
  | cons k l ih =>
    rw [List.pairwise_cons] at h
    unfold insertByOffset
    split
    · rename_i hlt
      refine List.pairwise_cons.2 ⟨fun b hb => ?_, List.pairwise_cons.2 h⟩
      rcases List.mem_cons.1 hb with rfl | hb
      · omega
      · have := h.1 b hb
        omega
    · refine List.pairwise_cons.2 ⟨fun b hb => ?_, ih h.2⟩
      rcases (m.mem_insertByOffset i b l).1 hb with rfl | hb
      · omega
      · exact h.1 b hb

theorem liveByOffset_foldl (m : SenderMachine WIN MTU) (is acc : List (Fin WIN)) :
    (is.foldl (fun acc i => if (m.slots i).Occupied then m.insertByOffset i acc else acc)
      acc).Perm (is.filter (fun i => (m.slots i).Occupied) ++ acc) := by
  induction is generalizing acc with
  | nil => exact List.Perm.refl _
  | cons i is ih =>
    rw [List.foldl_cons]
    by_cases hi : (m.slots i).Occupied
    · rw [if_pos hi, List.filter_cons_of_pos (by simpa using hi)]
      refine (ih _).trans ?_
      exact ((insertByOffset_perm m i acc).append_left _).trans List.perm_middle
    · rw [if_neg hi, List.filter_cons_of_neg (by simpa using hi)]
      exact ih acc

theorem liveByOffset_perm (m : SenderMachine WIN MTU) :
    m.liveByOffset.Perm ((List.finRange WIN).filter fun i => (m.slots i).Occupied) := by
  simpa [liveByOffset] using liveByOffset_foldl m (List.finRange WIN) []

theorem mem_liveByOffset (m : SenderMachine WIN MTU) (i : Fin WIN) :
    i ∈ m.liveByOffset ↔ (m.slots i).Occupied := by
  rw [m.liveByOffset_perm.mem_iff]
  simp

theorem liveByOffset_nodup (m : SenderMachine WIN MTU) : m.liveByOffset.Nodup :=
  m.liveByOffset_perm.nodup_iff.2 ((List.nodup_finRange WIN).filter _)

theorem liveByOffset_sorted (m : SenderMachine WIN MTU) :
    m.liveByOffset.Pairwise fun a b => (m.slots a).offset ≤ (m.slots b).offset := by
  have h : ∀ is acc : List (Fin WIN),
      acc.Pairwise (fun a b => (m.slots a).offset ≤ (m.slots b).offset) →
      (is.foldl (fun acc i => if (m.slots i).Occupied then m.insertByOffset i acc else acc)
        acc).Pairwise fun a b => (m.slots a).offset ≤ (m.slots b).offset := by
    intro is
    induction is with
    | nil => exact fun _ h => h
    | cons i is ih =>
      intro acc hacc
      rw [List.foldl_cons]
      apply ih
      split
      · exact insertByOffset_sorted m i hacc
      · exact hacc
  exact h _ [] List.Pairwise.nil

/-! ## Sliding -/

@[simp] theorem moveSlot_slots (m : SenderMachine WIN MTU) (newPos : Nat) (i j : Fin WIN) :
    (m.moveSlot newPos i).slots j =
      if j = i then { m.slots i with offset := newPos } else m.slots j := by
  simp [moveSlot, Function.update_apply]

theorem moveSlot_data {m : SenderMachine WIN MTU} {newPos : Nat} {i : Fin WIN}
    (h : (m.slots i).offset + (m.slots i).len ≤ m.data.length) :
    (m.moveSlot newPos i).data =
      copyWithin m.data (m.slots i).offset (m.slots i).len newPos := by
  simp only [moveSlot]
  by_cases he : newPos = (m.slots i).offset
  · rw [if_neg (by simpa using he), he, copyWithin_same h]
  · rw [if_pos he]

/-- What sliding the slots of `l` down to `newPos` leaves behind. -/
structure Slid (l : List (Fin WIN)) (newPos : Nat) (m m' : SenderMachine WIN MTU) : Prop where
  config : m'.config = m.config
  nextSeq : m'.nextSeq = m.nextSeq
  size : m'.data.length = m.data.length
  writePos : m'.writePos = newPos + (l.map fun i => (m.slots i).len).sum
  other : ∀ i, i ∉ l → m'.slots i = m.slots i
  moved : ∀ i ∈ l, ∃ off, m'.slots i = { m.slots i with offset := off } ∧ newPos ≤ off ∧
    off + (m.slots i).len ≤ m'.writePos ∧
      slice m'.data off (m.slots i).len = slice m.data (m.slots i).offset (m.slots i).len
  below : ∀ off n, off + n ≤ newPos → slice m'.data off n = slice m.data off n
  bounded : ∀ top, newPos ≤ top → (∀ i ∈ l, (m.slots i).offset + (m.slots i).len ≤ top) →
    m'.writePos ≤ top
  apart : l.Pairwise fun i j => Separated (m'.slots i) (m'.slots j)

/-- Sliding sorted, separated blocks down never overwrites a block that is still to
be moved: a nonempty one starts at or behind `newPos`. -/
theorem slideDown_slid (l : List (Fin WIN)) (newPos : Nat) (m : SenderMachine WIN MTU)
    (hnodup : l.Nodup)
    (hsorted : l.Pairwise fun a b => (m.slots a).offset ≤ (m.slots b).offset)
    (hsep : ∀ i ∈ l, ∀ j ∈ l, i ≠ j → Separated (m.slots i) (m.slots j))
    (hin : ∀ i ∈ l, (m.slots i).offset + (m.slots i).len ≤ m.data.length)
    (hahead : ∀ i ∈ l, (m.slots i).len = 0 ∨ newPos ≤ (m.slots i).offset)
    (hnew : newPos ≤ m.data.length) : Slid l newPos m (slideDown l newPos m) := by
  induction l generalizing newPos m with
  | nil =>
    exact ⟨rfl, rfl, rfl, rfl, fun _ _ => rfl, by simp, fun _ _ _ => rfl, fun _ h _ => h,
      List.Pairwise.nil⟩
  | cons i l ih =>
    rw [List.nodup_cons] at hnodup
    rw [List.pairwise_cons] at hsorted
    have hi : i ∈ i :: l := List.mem_cons_self ..
    have htail : ∀ j ∈ l, j ∈ i :: l := fun j hj => List.mem_cons_of_mem _ hj
    have hne : ∀ j ∈ l, j ≠ i := fun j hj he => hnodup.1 (he ▸ hj)
    let m₁ := m.moveSlot newPos i
    have hslot : ∀ j ∈ l, m₁.slots j = m.slots j := fun j hj => by
      simp [m₁, hne j hj]
    have hself : m₁.slots i = { m.slots i with offset := newPos } := by simp [m₁]
    have hdata : m₁.data = copyWithin m.data (m.slots i).offset (m.slots i).len newPos :=
      moveSlot_data (hin i hi)
    have hsize : m₁.data.length = m.data.length := by rw [hdata, copyWithin_length]
    have hroom : newPos + (m.slots i).len ≤ m.data.length := by
      have h₁ := hin i hi
      rcases hahead i hi with h | h <;> omega
    -- a block still to be moved lies behind the block just moved, or is empty
    have hbehind : ∀ j ∈ l, (m.slots j).len = 0 ∨
        newPos + (m.slots i).len ≤ (m.slots j).offset := by
      intro j hj
      have h₁ := hahead i hi
      have h₂ := hahead j (htail j hj)
      have h₃ := hsorted.1 j hj
      rcases hsep i hi j (htail j hj) (Ne.symm (hne j hj)) with h | h <;> omega
    have hkeep : ∀ j ∈ l, slice m₁.data (m.slots j).offset (m.slots j).len =
        slice m.data (m.slots j).offset (m.slots j).len := by
      intro j hj
      rw [hdata]
      rcases hbehind j hj with h | h
      · rw [h, slice_zero, slice_zero]
      · exact slice_copyWithin_of_disjoint (hin i hi) (Or.inr h)
    have hrec := ih (newPos + (m.slots i).len) m₁ hnodup.2
      (hsorted.2.imp_of_mem fun ha hb h => by rwa [hslot _ ha, hslot _ hb])
      (fun j hj k hk hjk => by
        rw [hslot j hj, hslot k hk]
        exact hsep j (htail j hj) k (htail k hk) hjk)
      (fun j hj => by
        rw [hslot j hj, hsize]
        exact hin j (htail j hj))
      (fun j hj => by
        rw [hslot j hj]
        exact hbehind j hj)
      (by rw [hsize]; exact hroom)
    have hfinal : slideDown (i :: l) newPos m =
        slideDown l (newPos + (m.slots i).len) m₁ := rfl
    rw [hfinal]
    have hlens : (l.map fun j => (m₁.slots j).len) = l.map fun j => (m.slots j).len :=
      List.map_congr_left fun j hj => by rw [hslot j hj]
    have hend : newPos + (m.slots i).len ≤
        (slideDown l (newPos + (m.slots i).len) m₁).writePos := by
      rw [hrec.writePos]
      exact Nat.le_add_right _ _
    have hstay : (slideDown l (newPos + (m.slots i).len) m₁).slots i =
        { m.slots i with offset := newPos } := by
      rw [hrec.other i hnodup.1, hself]
    refine ⟨hrec.config, hrec.nextSeq, hrec.size.trans hsize, ?_, ?_, ?_, ?_, ?_, ?_⟩
    · rw [hrec.writePos, hlens, List.map_cons, List.sum_cons, Nat.add_assoc]
    · intro j hj
      simp only [List.mem_cons, not_or] at hj
      rw [hrec.other j hj.2]
      simp [m₁, hj.1]
    · intro j hj
      rcases List.mem_cons.1 hj with rfl | hj
      · refine ⟨newPos, hstay, Nat.le_refl _, hend, ?_⟩
        rw [hrec.below _ _ (Nat.le_refl _), hdata, slice_copyWithin_self (hin j hi) hroom]
      · obtain ⟨off, hoff, hlo, hhi, hslice⟩ := hrec.moved j hj
        rw [hslot j hj] at hoff hhi hslice
        exact ⟨off, hoff, by omega, hhi, by rw [hslice, hkeep j hj]⟩
    · intro off n h
      rw [hrec.below off n (by omega), hdata]
      exact slice_copyWithin_of_disjoint (hin i hi) (Or.inl h)
    · intro top htop hall
      refine hrec.bounded top ?_ fun j hj => ?_
      · have h₁ := hall i hi
        rcases hahead i hi with h | h <;> omega
      · rw [hslot j hj]
        exact hall j (htail j hj)
    · refine List.pairwise_cons.2 ⟨fun j hj => ?_, hrec.apart⟩
      obtain ⟨off, hoff, hlo, -, -⟩ := hrec.moved j hj
      rw [hstay, hoff]
      exact Or.inl hlo

/-! ## Compaction -/

theorem compact_slid {m : SenderMachine WIN MTU} (h : Layout m) :
    Slid m.liveByOffset 0 m m.compact := by
  have hocc : ∀ i ∈ m.liveByOffset, (m.slots i).Occupied := fun i hi =>
    (m.mem_liveByOffset i).1 hi
  refine slideDown_slid _ 0 m m.liveByOffset_nodup m.liveByOffset_sorted ?_ ?_ ?_
    (Nat.zero_le _)
  · exact fun i hi j hj hij => h.apart i j (hocc i hi) (hocc j hj) hij
  · exact fun i hi => Nat.le_trans (h.inside i (hocc i hi)) h.writePos_le
  · exact fun i _ => Or.inr (Nat.zero_le _)

theorem compact_relocated {m : SenderMachine WIN MTU} (h : Layout m) :
    Relocated m m.compact := by
  have hs := compact_slid h
  refine ⟨fun i => ?_, fun i hi => ?_, hs.config, hs.nextSeq, hs.size⟩
  · by_cases hi : i ∈ m.liveByOffset
    · obtain ⟨off, hoff, -⟩ := hs.moved i hi
      exact ⟨off, hoff⟩
    · exact ⟨(m.slots i).offset, hs.other i hi⟩
  · obtain ⟨off, hoff, -, -, hslice⟩ := hs.moved i ((m.mem_liveByOffset i).2 hi)
    rw [hoff]
    exact hslice

theorem compact_writePos {m : SenderMachine WIN MTU} (h : Layout m) :
    m.compact.writePos = m.liveBytes := by
  rw [(compact_slid h).writePos, Nat.zero_add, liveBytes]
  exact (m.liveByOffset_perm.map _).sum_nat

theorem liveBytes_le {m : SenderMachine WIN MTU} (h : Layout m) : m.liveBytes ≤ m.writePos := by
  rw [← compact_writePos h]
  exact (compact_slid h).bounded _ (Nat.zero_le _)
    fun i hi => h.inside i ((m.mem_liveByOffset i).1 hi)

theorem Layout.compact {m : SenderMachine WIN MTU} (h : Layout m) : Layout m.compact := by
  have hs := compact_slid h
  have hr := compact_relocated h
  have hlive : ∀ i, (m.compact.slots i).Occupied → i ∈ m.liveByOffset := fun i hi =>
    (m.mem_liveByOffset i).2 ((hr.occupied_iff i).1 hi)
  refine ⟨?_, fun i hi => ?_, fun i j hi hj hij => ?_⟩
  · rw [compact_writePos h, hr.size]
    exact Nat.le_trans (liveBytes_le h) h.writePos_le
  · obtain ⟨off, hoff, -, hhi, -⟩ := hs.moved i (hlive i hi)
    rw [hoff]
    exact hhi
  · have : Std.Symm fun i j => Separated (m.compact.slots i) (m.compact.slots j) :=
      ⟨fun _ _ h => h.symm⟩
    exact hs.apart.forall (hlive i hi) (hlive j hj) hij

theorem Layout.new (config : SenderConfig) (bufSize : Nat) :
    Layout (SenderMachine.new config bufSize : SenderMachine WIN MTU) where
  writePos_le := Nat.zero_le _
  inside _ hi := absurd rfl hi
  apart _ _ hi := absurd rfl hi

theorem Layout.assign {m : SenderMachine WIN MTU} (h : Layout m) {i : Fin WIN}
    {payload : Bytes} (hfit : payload.length ≤ m.availableBytes)
    (target : Isl.Address) (flags : SequenceFlag) (isSegmented isEos : Bool) :
    Layout (m.assign i target payload flags isSegmented isEos) := by
  have hpos := h.writePos_le
  unfold availableBytes at hfit
  refine ⟨?_, fun j hj => ?_, fun j k hj hk hjk => ?_⟩
  · simp only [SenderMachine.assign, write_length]
    omega
  · simp only [SenderMachine.assign, Function.update_apply] at hj ⊢
    split
    · exact Nat.le_refl _
    · rename_i hji
      rw [if_neg hji] at hj
      have := h.inside j hj
      omega
  · simp only [SenderMachine.assign, Function.update_apply] at hj hk ⊢
    by_cases hji : j = i
    · have hki : k ≠ i := fun e => hjk (hji.trans e.symm)
      rw [if_neg hki] at hk
      rw [if_pos hji, if_neg hki]
      exact Or.inr (h.inside k hk)
    · rw [if_neg hji] at hj
      rw [if_neg hji]
      by_cases hki : k = i
      · rw [if_pos hki]
        exact Or.inl (h.inside j hj)
      · rw [if_neg hki] at hk
        rw [if_neg hki]
        exact h.apart j k hj hk hjk

end SenderMachine

end Srspp
end Leodos
