/-
Costs and indices of the assignment solvers, `plan/assignment/mod.rs`.

The solvers are generic in the cost type.  A cost type here is the set of integers that it
holds, and its sentinel.  An addition or a subtraction whose result it does not hold aborts, as
in a build with overflow checks.
-/
import Leodos.Assignment.Duality
import Leodos.Assignment.Loop
import Leodos.Assignment.Pairing
import Mathlib

namespace Leodos
namespace Spacecomp

/-- A type of costs, with `Bounded::MAX`. -/
structure CostType where
  holds : Int → Bool
  MAX : Int

namespace CostType

def i64 : CostType := ⟨fun x => decide (-2 ^ 63 ≤ x ∧ x ≤ 2 ^ 63 - 1), (2 ^ 63 - 1) / 2⟩

def u64 : CostType := ⟨fun x => decide (0 ≤ x ∧ x ≤ 2 ^ 64 - 1), (2 ^ 64 - 1) / 2⟩

def integers (C : CostType) : CostType := ⟨fun _ => true, C.MAX⟩

def checked (C : CostType) (x : Int) : Option Int := if C.holds x then some x else none

def add (C : CostType) (x y : Int) : Option Int := C.checked (x + y)

def sub (C : CostType) (x y : Int) : Option Int := C.checked (x - y)

@[simp] theorem checked_of_holds {C : CostType} {x : Int} (h : C.holds x = true) :
    C.checked x = some x := if_pos h

theorem add_of_holds {C : CostType} {x y : Int} (h : C.holds (x + y) = true) :
    C.add x y = some (x + y) := checked_of_holds h

theorem sub_of_holds {C : CostType} {x y : Int} (h : C.holds (x - y) = true) :
    C.sub x y = some (x - y) := checked_of_holds h

theorem mapM_checked {α : Type} {C : CostType} {f : α → Int} {xs : List α}
    (h : ∀ x ∈ xs, C.holds (f x) = true) :
    xs.mapM (fun x => C.checked (f x)) = some (xs.map f) := by
  induction xs with
  | nil => rfl
  | cons x xs ih =>
    rw [List.mapM_cons, checked_of_holds (h x List.mem_cons_self),
      ih fun y hy => h y (List.mem_cons_of_mem x hy)]
    rfl

end CostType

variable {N n : Nat}

theorem lawfulBEq_index {N : Nat} : LawfulBEq (Fin N) := inferInstance

/-- The indices that `0..n` runs over, in arrays of `N` entries. -/
def indices (hn : n ≤ N) : List (Fin N) := (List.finRange n).map (Fin.castLE hn)

@[simp] theorem mem_indices {hn : n ≤ N} {i : Fin N} : i ∈ indices hn ↔ i.val < n := by
  simp only [indices, List.mem_map, List.mem_finRange, true_and]
  constructor
  · intro ⟨k, hk⟩
    rw [← hk]
    exact k.isLt
  · intro h
    exact ⟨⟨i, h⟩, rfl⟩

theorem indices_nodup (hn : n ≤ N) : (indices hn).Nodup :=
  (List.nodup_finRange n).map (Fin.castLE_injective hn)

theorem not_mem_of_indices_eq {hn : n ≤ N} {before after : List (Fin N)} {x : Fin N}
    (h : indices hn = before ++ x :: after) : x ∉ before := by
  have hnodup := indices_nodup hn
  rw [h, List.nodup_append] at hnodup
  exact fun hx => hnodup.2.2 x hx x List.mem_cons_self rfl

theorem lt_of_indices_eq {hn : n ≤ N} {before after : List (Fin N)} {x : Fin N}
    (h : indices hn = before ++ x :: after) : x.val < n := by
  have hx : x ∈ indices hn := by simp [h]
  exact mem_indices.1 hx

/-- A loop over `0..n` that writes one cell after the other. -/
def fill {α : Type} (hn : n ≤ N) (f : Fin N → α) (a : Fin N → α) : Fin N → α :=
  (indices hn).foldl (fun a i => Function.update a i (f i)) a

@[simp] theorem fill_apply {α : Type} (hn : n ≤ N) (f a : Fin N → α) (i : Fin N) :
    fill hn f a i = if i.val < n then f i else a i := by
  simp [fill, Assignment.foldl_update]

/-- `Iterator::min`, and `C::default()` for no items. -/
def minimum (xs : List Int) : Int := xs.min?.getD 0

theorem minimum_mem {xs : List Int} (h : xs ≠ []) : minimum xs ∈ xs := by
  obtain ⟨x, hx⟩ := Option.ne_none_iff_exists'.1 (mt List.min?_eq_none_iff.1 h)
  rw [minimum, hx]
  exact List.min?_mem hx

theorem minimum_le {xs : List Int} {x : Int} (h : x ∈ xs) : minimum xs ≤ x := by
  obtain ⟨m, hm⟩ := Option.ne_none_iff_exists'.1
    (mt List.min?_eq_none_iff.1 (List.ne_nil_of_mem h))
  rw [minimum, hm]
  exact (List.min?_eq_some_iff.1 hm).2 x h

def findMin (C : CostType) (hn : n ≤ N) (marked : Fin N → Bool) (values : Fin N → Int) :
    Int × Option (Fin N) :=
  (indices hn).foldl (fun (least, bestNode) node =>
    if !marked node && decide (values node < least) then (values node, some node)
    else (least, bestNode)) (C.MAX, none)

theorem findMin_spec (C : CostType) (hn : n ≤ N) (marked : Fin N → Bool) (values : Fin N → Int) :
    (∀ j : Fin N, j.val < n → marked j = false → (findMin C hn marked values).1 ≤ values j) ∧
      (∀ j, (findMin C hn marked values).2 = some j → j.val < n ∧ marked j = false ∧
        values j = (findMin C hn marked values).1) ∧
      ((findMin C hn marked values).2 = none → (findMin C hn marked values).1 = C.MAX) := by
  have h := Assignment.foldl_of_inv
    (fun (least, bestNode) node =>
      if !marked node && decide (values node < least) then (values node, some node)
      else (least, bestNode))
    (fun before found =>
      (∀ j ∈ before, marked j = false → found.1 ≤ values j) ∧
        (∀ j, found.2 = some j → j.val < n ∧ marked j = false ∧ values j = found.1) ∧
        (found.2 = none → found.1 = C.MAX))
    (indices hn) (C.MAX, none) (by simp) fun before x after found hxs hinv => by
      have hx := lt_of_indices_eq hxs
      obtain ⟨hle, hbest, hnone⟩ := hinv
      by_cases hless : (!marked x && decide (values x < found.1)) = true
      · simp only [hless, if_true]
        simp only [Bool.and_eq_true, Bool.not_eq_true', decide_eq_true_eq] at hless
        refine ⟨fun j hj hmark => ?_, fun j hj => ?_, fun h => by cases h⟩
        · rcases List.mem_append.1 hj with hj | hj
          · have := hle j hj hmark
            omega
          · rw [List.mem_singleton.1 hj]
        · cases hj
          exact ⟨hx, hless.1, rfl⟩
      · simp only [if_neg hless]
        refine ⟨fun j hj hmark => ?_, hbest, hnone⟩
        rcases List.mem_append.1 hj with hj | hj
        · exact hle j hj hmark
        · rw [List.mem_singleton.1 hj] at hmark ⊢
          simp only [hmark, Bool.not_false, Bool.true_and, decide_eq_true_eq] at hless
          omega
  rw [findMin]
  exact ⟨fun j hj => h.1 j (mem_indices.2 hj), h.2⟩

/-- The costs of the `n` tasks and nodes, out of a matrix that has room for `N`. -/
def corner (hn : n ≤ N) (cost : Fin N → Fin N → Int) (i j : Fin n) : Int :=
  cost (i.castLE hn) (j.castLE hn)

/-- The result of a solver that gives every task its node of a permutation. -/
def assignmentOf (hn : n ≤ N) (σ : Equiv.Perm (Fin n)) : List (Option (Fin N)) :=
  (List.finRange n).map fun i => some ((σ i).castLE hn)

theorem inUse_iff (hn : n ≤ N) (i : Fin N) : i.val < n ↔ ∃ k, Fin.castLEEmb hn k = i :=
  ⟨fun h => ⟨⟨i, h⟩, rfl⟩, fun ⟨k, hk⟩ => hk ▸ k.isLt⟩

end Spacecomp
end Leodos
