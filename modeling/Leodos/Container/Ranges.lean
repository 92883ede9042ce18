/-
Sets of points as lists of half-open ranges.

A normal list has inhabited ranges in order with a gap between neighbours.  A set has at most
one normal list, the list of its maximal ranges.
-/
import Mathlib.Order.MinMax

namespace Leodos
namespace Ranges

variable {α : Type} [LinearOrder α]

/-- The point lies in one of the ranges. -/
def Covers (rs : List (α × α)) (b : α) : Prop := ∃ r ∈ rs, r.1 ≤ b ∧ b < r.2

structure Normal (rs : List (α × α)) : Prop where
  inhabited : ∀ r ∈ rs, r.1 < r.2
  gaps : rs.Pairwise fun a b => a.2 < b.1

/-- The ranges are the maximal ranges of a set. -/
structure MaximalRanges (rs : List (α × α)) (points : α → Prop) : Prop where
  normal : Normal rs
  covers_iff : ∀ b, Covers rs b ↔ points b

variable {rs : List (α × α)} {r : α × α} {b : α}

theorem not_covers_nil : ¬ Covers [] b := by
  intro h
  obtain ⟨r, hr, -⟩ := h
  cases hr

theorem covers_cons : Covers (r :: rs) b ↔ (r.1 ≤ b ∧ b < r.2) ∨ Covers rs b := by
  constructor
  · intro h
    obtain ⟨r', hr', hin⟩ := h
    obtain rfl | htail := List.mem_cons.1 hr'
    · exact Or.inl hin
    · exact Or.inr ⟨r', htail, hin⟩
  · intro h
    obtain hin | ⟨r', hr', hin⟩ := h
    · exact ⟨r, List.mem_cons_self, hin⟩
    · exact ⟨r', List.mem_cons_of_mem _ hr', hin⟩

theorem covers_perm {rs' : List (α × α)} (h : rs.Perm rs') : Covers rs b ↔ Covers rs' b := by
  constructor
  · intro hcovers
    obtain ⟨r, hr, hin⟩ := hcovers
    exact ⟨r, h.mem_iff.1 hr, hin⟩
  · intro hcovers
    obtain ⟨r, hr, hin⟩ := hcovers
    exact ⟨r, h.mem_iff.2 hr, hin⟩

theorem covers_union {s e s' e' : α} (hleft : s ≤ e') (hright : s' ≤ e) :
    (min s s' ≤ b ∧ b < max e e') ↔ (s ≤ b ∧ b < e) ∨ (s' ≤ b ∧ b < e') := by
  rw [min_le_iff, lt_max_iff]
  constructor
  · intro h
    obtain ⟨hs | hs', he | he'⟩ := h
    · exact Or.inl ⟨hs, he⟩
    · rcases lt_or_ge b e with he | he
      · exact Or.inl ⟨hs, he⟩
      · exact Or.inr ⟨le_trans hright he, he'⟩
    · rcases lt_or_ge b e' with he' | he'
      · exact Or.inr ⟨hs', he'⟩
      · exact Or.inl ⟨le_trans hleft he', he⟩
    · exact Or.inr ⟨hs', he'⟩
  · intro h
    obtain ⟨hs, he⟩ | ⟨hs', he'⟩ := h
    · exact ⟨Or.inl hs, Or.inl he⟩
    · exact ⟨Or.inr hs', Or.inr he'⟩

theorem Normal.nil : Normal ([] : List (α × α)) :=
  ⟨fun _ hr => absurd hr List.not_mem_nil, List.Pairwise.nil⟩

theorem Normal.tail (h : Normal (r :: rs)) : Normal rs :=
  ⟨fun r' hr' => h.inhabited r' (List.mem_cons_of_mem _ hr'), (List.pairwise_cons.1 h.gaps).2⟩

theorem Normal.head_lt (h : Normal (r :: rs)) : r.1 < r.2 := h.inhabited r List.mem_cons_self

theorem Normal.lt_of_covers (h : Normal (r :: rs)) (hb : Covers rs b) : r.2 < b := by
  obtain ⟨r', hr', hstart, -⟩ := hb
  exact lt_of_lt_of_le ((List.pairwise_cons.1 h.gaps).1 r' hr') hstart

theorem Normal.not_covers_end (h : Normal (r :: rs)) : ¬ Covers (r :: rs) r.2 := by
  intro hcovers
  obtain ⟨-, hlt⟩ | hrest := covers_cons.1 hcovers
  · exact lt_irrefl _ hlt
  · exact lt_irrefl _ (h.lt_of_covers hrest)

theorem Normal.le_of_covers (h : Normal (r :: rs)) (hb : Covers (r :: rs) b) : r.1 ≤ b := by
  obtain ⟨hle, -⟩ | hrest := covers_cons.1 hb
  · exact hle
  · exact le_of_lt (lt_trans h.head_lt (h.lt_of_covers hrest))

theorem covers_start (h : r.1 < r.2) : Covers (r :: rs) r.1 :=
  ⟨r, List.mem_cons_self, le_refl _, h⟩

theorem normal_of_apart (hinhabited : ∀ r ∈ rs, r.1 < r.2)
    (hsorted : rs.Pairwise fun a b => a.1 ≤ b.1)
    (happart : rs.Pairwise fun a b => a.2 < b.1 ∨ b.2 < a.1) : Normal rs := by
  refine ⟨hinhabited, ?_⟩
  have hboth := List.pairwise_and_iff.2 ⟨hsorted, happart⟩
  refine hboth.imp_of_mem ?_
  intro a b _ hb hab
  obtain ⟨hle, hbefore | hafter⟩ := hab
  · exact hbefore
  · exact absurd (lt_of_lt_of_le (lt_trans (hinhabited b hb) hafter) hle) (lt_irrefl _)

theorem Normal.end_le {r' : α × α} {rs' : List (α × α)} (h' : Normal (r' :: rs'))
    (hstart : r.1 = r'.1)
    (hsame : ∀ b, Covers (r :: rs) b → Covers (r' :: rs') b) : r.2 ≤ r'.2 := by
  rcases lt_or_ge r'.2 r.2 with hlt | hle
  · have hin : Covers (r :: rs) r'.2 :=
      ⟨r, List.mem_cons_self, by rw [hstart]; exact le_of_lt h'.head_lt, hlt⟩
    exact absurd (hsame _ hin) h'.not_covers_end
  · exact hle

theorem Normal.unique {rs' : List (α × α)} (h : Normal rs) (h' : Normal rs')
    (hsame : ∀ b, Covers rs b ↔ Covers rs' b) : rs = rs' := by
  induction rs generalizing rs' with
  | nil =>
    cases rs' with
    | nil => rfl
    | cons r' rs' => exact absurd ((hsame _).2 (covers_start h'.head_lt)) not_covers_nil
  | cons r rs ih =>
    cases rs' with
    | nil => exact absurd ((hsame _).1 (covers_start h.head_lt)) not_covers_nil
    | cons r' rs' =>
      have hstart : r.1 = r'.1 :=
        le_antisymm (h.le_of_covers ((hsame _).2 (covers_start h'.head_lt)))
          (h'.le_of_covers ((hsame _).1 (covers_start h.head_lt)))
      have hend : r.2 = r'.2 :=
        le_antisymm (h'.end_le hstart (fun b => (hsame b).1))
          (h.end_le hstart.symm (fun b => (hsame b).2))
      have hhead : r = r' := Prod.ext hstart hend
      subst hhead
      have htail : ∀ b, Covers rs b ↔ Covers rs' b := by
        intro b
        constructor
        · intro hb
          obtain ⟨-, hlt⟩ | hrest := covers_cons.1 ((hsame b).1 (covers_cons.2 (Or.inr hb)))
          · exact absurd (lt_trans hlt (h.lt_of_covers hb)) (lt_irrefl _)
          · exact hrest
        · intro hb
          obtain ⟨-, hlt⟩ | hrest := covers_cons.1 ((hsame b).2 (covers_cons.2 (Or.inr hb)))
          · exact absurd (lt_trans hlt (h'.lt_of_covers hb)) (lt_irrefl _)
          · exact hrest
      rw [ih h.tail h'.tail htail]

theorem MaximalRanges.unique {rs' : List (α × α)} {points : α → Prop} (h : MaximalRanges rs points)
    (h' : MaximalRanges rs' points) : rs = rs' :=
  h.normal.unique h'.normal fun b => (h.covers_iff b).trans (h'.covers_iff b).symm

end Ranges
end Leodos
