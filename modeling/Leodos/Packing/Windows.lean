/-
Items at ascending positions seen through windows that follow one another.

Every item takes up the same number of cells, and a window shows the first item that lies
whole in it.  So the windows show every item just when each item has a window to itself
(`hits_eq_iff`).
-/
import Mathlib.Data.List.Perm.Subperm

namespace Leodos
namespace Packing

/-- An item at `o` lies whole in the window of `len` cells from `start` on. -/
def inside (width start len o : Nat) : Bool := decide (start ≤ o ∧ o + width ≤ start + len)

theorem inside_iff {width start len o : Nat} :
    inside width start len o = true ↔ start ≤ o ∧ o + width ≤ start + len := decide_eq_true_iff

def firstIn (width : Nat) (offsets : List Nat) (window : Nat × Nat) : Option Nat :=
  offsets.find? (inside width window.1 window.2)

/-- Windows of the given lengths, the first one from `start` on. -/
def windows : Nat → List Nat → List (Nat × Nat)
  | _, [] => []
  | start, len :: lens => (start, len) :: windows (start + len) lens

theorem length_windows (start : Nat) (lens : List Nat) :
    (windows start lens).length = lens.length := by
  induction lens generalizing start with
  | nil => rfl
  | cons len lens ih => rw [windows, List.length_cons, List.length_cons, ih]

def hits (width : Nat) (offsets : List Nat) (start : Nat) (lens : List Nat) : List Nat :=
  (windows start lens).filterMap (firstIn width offsets)

/-- Each item has a window to itself. -/
def OneEach (width : Nat) (offsets : List Nat) (start : Nat) (lens : List Nat) : Prop :=
  ∀ o ∈ offsets, ∃ window ∈ windows start lens, inside width window.1 window.2 o = true ∧
    ∀ o' ∈ offsets, inside width window.1 window.2 o' = true → o' = o

instance (width : Nat) (offsets : List Nat) (start : Nat) (lens : List Nat) :
    Decidable (OneEach width offsets start lens) :=
  inferInstanceAs (Decidable (∀ o ∈ offsets, ∃ window ∈ windows start lens, _))

theorem le_of_mem_windows {start : Nat} {lens : List Nat} {window : Nat × Nat}
    (h : window ∈ windows start lens) : start ≤ window.1 := by
  induction lens generalizing start with
  | nil => exact absurd h List.not_mem_nil
  | cons len lens ih =>
    rcases List.mem_cons.1 h with rfl | h
    · exact Nat.le_refl start
    · exact Nat.le_trans (Nat.le_add_right start len) (ih h)

theorem window_unique {start : Nat} {lens : List Nat} {window window' : Nat × Nat} {x : Nat}
    (h : window ∈ windows start lens) (h' : window' ∈ windows start lens)
    (hx : window.1 ≤ x ∧ x < window.1 + window.2)
    (hx' : window'.1 ≤ x ∧ x < window'.1 + window'.2) : window = window' := by
  induction lens generalizing start with
  | nil => exact absurd h List.not_mem_nil
  | cons len lens ih =>
    rcases List.mem_cons.1 h with rfl | h
    · rcases List.mem_cons.1 h' with rfl | h'
      · rfl
      · have := le_of_mem_windows h'
        dsimp only at hx
        omega
    · rcases List.mem_cons.1 h' with rfl | h'
      · have := le_of_mem_windows h
        dsimp only at hx'
        omega
      · exact ih h h'

theorem cons_filter_sublist {offsets : List Nat} (hsorted : offsets.Pairwise (· < ·)) {o s m : Nat}
    (ho : o ∈ offsets) (hs : s ≤ o) (hm : o < m) :
    (o :: offsets.filter (m ≤ ·)).Sublist (offsets.filter (s ≤ ·)) := by
  obtain ⟨front, back, rfl⟩ := List.append_of_mem ho
  have hfront : front.filter (m ≤ ·) = [] := by
    rw [List.filter_eq_nil_iff]
    intro x hx
    have hlt : x < o := (List.pairwise_append.1 hsorted).2.2 x hx o List.mem_cons_self
    simp only [decide_eq_true_eq]
    omega
  rw [List.filter_append, List.filter_append, hfront, List.nil_append,
    List.filter_cons_of_neg (by simpa using hm), List.filter_cons_of_pos (by simpa using hs)]
  refine List.Sublist.trans (List.Sublist.cons_cons o ?_) (List.sublist_append_right _ _)
  exact List.monotone_filter_right back fun x hx => by
    simp only [decide_eq_true_eq] at hx ⊢
    omega

theorem hits_sublist_filter {width : Nat} (hwidth : 0 < width) {offsets : List Nat}
    (hsorted : offsets.Pairwise (· < ·)) (start : Nat) (lens : List Nat) :
    (hits width offsets start lens).Sublist (offsets.filter (start ≤ ·)) := by
  induction lens generalizing start with
  | nil => exact List.nil_sublist _
  | cons len lens ih =>
    have hrest := ih (start + len)
    rw [hits] at hrest
    rw [hits, windows, List.filterMap_cons]
    cases hfirst : firstIn width offsets (start, len) with
    | none =>
      refine hrest.trans (List.monotone_filter_right offsets fun x hx => ?_)
      simp only [decide_eq_true_eq] at hx ⊢
      omega
    | some o =>
      have hin := inside_iff.1 (List.find?_some hfirst)
      dsimp only at hin
      exact (List.Sublist.cons_cons o hrest).trans
        (cons_filter_sublist hsorted (List.mem_of_find?_eq_some hfirst) hin.1 (by omega))

theorem hits_sublist {width : Nat} (hwidth : 0 < width) {offsets : List Nat}
    (hsorted : offsets.Pairwise (· < ·)) (start : Nat) (lens : List Nat) :
    (hits width offsets start lens).Sublist offsets :=
  (hits_sublist_filter hwidth hsorted start lens).trans List.filter_sublist

theorem hits_eq_iff {width : Nat} (hwidth : 0 < width) {offsets : List Nat}
    (hsorted : offsets.Pairwise (· < ·)) (start : Nat) (lens : List Nat) :
    hits width offsets start lens = offsets ↔ OneEach width offsets start lens := by
  constructor
  · intro h
    have hshown : ∀ o ∈ offsets, ∃ window ∈ windows start lens,
        firstIn width offsets window = some o := by
      intro o ho
      rw [← h] at ho
      exact List.mem_filterMap.1 ho
    intro o ho
    obtain ⟨window, hwindow, hfirst⟩ := hshown o ho
    refine ⟨window, hwindow, List.find?_some hfirst, fun o' ho' hin' => ?_⟩
    obtain ⟨window', hwindow', hfirst'⟩ := hshown o' ho'
    have hin := inside_iff.1 (List.find?_some hfirst')
    rw [inside_iff] at hin'
    have hsame : window = window' :=
      window_unique hwindow hwindow' ⟨hin'.1, by omega⟩ ⟨hin.1, by omega⟩
    rw [hsame, hfirst'] at hfirst
    exact Option.some.inj hfirst
  · intro h
    have hsub := hits_sublist hwidth hsorted start lens
    have hall : offsets ⊆ hits width offsets start lens := by
      intro o ho
      obtain ⟨window, hwindow, hin, honly⟩ := h o ho
      refine List.mem_filterMap.2 ⟨window, hwindow, ?_⟩
      cases hfirst : firstIn width offsets window with
      | none => exact absurd hin (List.find?_eq_none.1 hfirst o ho)
      | some o' =>
        rw [honly o' (List.mem_of_find?_eq_some hfirst) (List.find?_some hfirst)]
    have hnodup : offsets.Nodup := hsorted.imp fun h => Nat.ne_of_lt h
    exact hsub.eq_of_length_le (List.subperm_of_subset hnodup hall).length_le

end Packing
end Leodos
