/-
Walks that a decision at every node steers.

The decision at hop `k` may fail, name the next node or leave the walk with a result.
A decision that lowers a rank by one at every node but the last ends the walk after
exactly that many hops; a decision that never leaves a set of nodes never ends it.
-/

namespace Leodos
namespace Transition

/-- What a node does with the walker. -/
inductive Move (ν ω : Type) where
  | onward (node : ν)
  | leave (result : ω)
  deriving DecidableEq

/-- Where a walker is: at a node, or gone from the last one with a result. -/
inductive Place (ν ω : Type) where
  | at (node : ν)
  | left (result : ω) (node : ν)
  deriving DecidableEq

variable {ν ω : Type}

def Place.advance (decide : ν → Option (Move ν ω)) : Place ν ω → Option (Place ν ω)
  | .left result node => some (.left result node)
  | .at node =>
    match decide node with
    | none => none
    | some (.onward next) => some (.at next)
    | some (.leave result) => some (.left result node)

/-- The place after `hops` decisions, `none` once one of them failed. -/
def walk (decide : Nat → ν → Option (Move ν ω)) (source : ν) : Nat → Option (Place ν ω)
  | 0 => some (.at source)
  | hops + 1 => (walk decide source hops).bind (Place.advance (decide hops))

variable {decide : Nat → ν → Option (Move ν ω)} {source : ν}

theorem walk_to {k : Nat} {x y : ν} (h : walk decide source k = some (.at x))
    (hd : decide k x = some (.onward y)) : walk decide source (k + 1) = some (.at y) := by
  rw [walk, h, Option.bind_some, Place.advance, hd]

theorem walk_leave {k : Nat} {x : ν} {r : ω} (h : walk decide source k = some (.at x))
    (hd : decide k x = some (.leave r)) : walk decide source (k + 1) = some (.left r x) := by
  rw [walk, h, Option.bind_some, Place.advance, hd]

section Results

variable {ρ : Type}

/-- The same moves with another name for the result. -/
def Move.map (f : ω → ρ) : Move ν ω → Move ν ρ
  | .onward node => .onward node
  | .leave result => .leave (f result)

def Place.map (f : ω → ρ) : Place ν ω → Place ν ρ
  | .at node => .at node
  | .left result node => .left (f result) node

theorem Place.advance_map (f : ω → ρ) (decide : ν → Option (Move ν ω)) (place : Place ν ω) :
    (place.map f).advance (fun x => (decide x).map (Move.map f)) =
      (place.advance decide).map (Place.map f) := by
  cases place with
  | left result node => rfl
  | «at» node =>
    rw [Place.map, Place.advance, Place.advance]
    cases decide node with
    | none => rfl
    | some m => cases m <;> rfl

theorem walk_map (f : ω → ρ) (k : Nat) :
    walk (fun k x => (decide k x).map (Move.map f)) source k =
      (walk decide source k).map (Place.map f) := by
  induction k with
  | zero => rfl
  | succ k ih =>
    rw [walk, walk, ih]
    cases walk decide source k with
    | none => rfl
    | some place => exact Place.advance_map f (decide k) place

end Results

section Descent

variable {P : ν → Prop} {rank : ν → Nat} {result : ω}

/-- Decisions that lower `rank` by one while it is positive and leave at zero. -/
structure Descends (decide : Nat → ν → Option (Move ν ω)) (P : ν → Prop) (rank : ν → Nat)
    (result : ω) : Prop where
  down : ∀ k x, P x → rank x ≠ 0 → ∃ y, decide k x = some (.onward y) ∧ P y ∧ rank y + 1 = rank x
  out : ∀ k x, P x → rank x = 0 → decide k x = some (.leave result)

theorem Descends.walk_at (h : Descends decide P rank result) (hs : P source) {k : Nat}
    (hk : k ≤ rank source) :
    ∃ x, walk decide source k = some (.at x) ∧ P x ∧ rank x + k = rank source := by
  induction k with
  | zero => exact ⟨source, rfl, hs, rfl⟩
  | succ k ih =>
    obtain ⟨x, hw, hx, hr⟩ := ih (Nat.le_of_succ_le hk)
    obtain ⟨y, hd, hy, hlow⟩ := h.down k x hx (by omega)
    exact ⟨y, walk_to hw hd, hy, by omega⟩

theorem Descends.walk_left (h : Descends decide P rank result) (hs : P source) :
    ∃ x, walk decide source (rank source + 1) = some (.left result x) ∧ P x ∧ rank x = 0 := by
  obtain ⟨x, hw, hx, hr⟩ := h.walk_at hs (Nat.le_refl _)
  have hzero : rank x = 0 := by omega
  exact ⟨x, walk_leave hw (h.out _ x hx hzero), hx, hzero⟩

end Descent

/-- Decisions that keep the walker inside `P`, or fail. -/
def Confines (decide : Nat → ν → Option (Move ν ω)) (P : ν → Prop) : Prop :=
  ∀ k x m, P x → decide k x = some m → ∃ y, m = .onward y ∧ P y

theorem Confines.walk_at {P : ν → Prop} (h : Confines decide P) (hs : P source) {k : Nat}
    {place : Place ν ω} (hw : walk decide source k = some place) : ∃ x, place = .at x ∧ P x := by
  induction k generalizing place with
  | zero =>
    cases hw
    exact ⟨source, rfl, hs⟩
  | succ k ih =>
    rw [walk, Option.bind_eq_some_iff] at hw
    obtain ⟨prior, hprior, hadv⟩ := hw
    obtain ⟨x, rfl, hx⟩ := ih hprior
    cases hd : decide k x with
    | none =>
      rw [Place.advance, hd] at hadv
      cases hadv
    | some m =>
      obtain ⟨y, rfl, hy⟩ := h k x m hx hd
      rw [Place.advance, hd] at hadv
      cases hadv
      exact ⟨y, rfl, hy⟩

end Transition
end Leodos
