/-
One level of the integer wavelet transform, `compression/spectral.rs`.

Samples at odd places are replaced by their distance from a prediction that their neighbours
at even places make, and these are then corrected by the distances.  The inverse makes the
same predictions from the same values.  A sum that leaves the 32 bits panics in a build that
checks overflow and wraps in any other; in both the steps are undone.
-/
import Leodos.Memory.Columns
import Mathlib.Algebra.Group.Int.Defs

namespace Leodos
namespace Compression
namespace Iwt

open Memory

/-- The values of an `i32`. -/
def InRange (x : Int) : Prop := -2 ^ 31 ≤ x ∧ x < 2 ^ 31

instance (x : Int) : Decidable (InRange x) := inferInstanceAs (Decidable (_ ∧ _))

/-- A sum; none where the build checks overflow and the sum leaves the range. -/
def add (checks : Bool) (a b : Int32) : Option Int32 :=
  if checks = true ∧ ¬ InRange (a.toInt + b.toInt) then none else some (a + b)

def sub (checks : Bool) (a b : Int32) : Option Int32 :=
  if checks = true ∧ ¬ InRange (a.toInt - b.toInt) then none else some (a - b)

theorem toInt_add_of_inRange {a b : Int32} (h : InRange (a.toInt + b.toInt)) :
    (a + b).toInt = a.toInt + b.toInt := by
  rw [Int32.toInt_add]
  exact Int.bmod_eq_of_le h.1 h.2

theorem toInt_sub_of_inRange {a b : Int32} (h : InRange (a.toInt - b.toInt)) :
    (a - b).toInt = a.toInt - b.toInt := by
  rw [Int32.toInt_sub]
  exact Int.bmod_eq_of_le h.1 h.2

theorem inRange_toInt (a : Int32) : InRange a.toInt := ⟨a.le_toInt, a.toInt_lt⟩

variable {checks : Bool} {a b d : Int32}

theorem add_of_sub (h : sub checks a b = some d) : add checks d b = some a := by
  rw [sub] at h
  split at h
  · cases h
  · next hfits =>
    rw [← Option.some.inj h, add, if_neg, Int32.sub_add_cancel]
    intro hover
    have hin : InRange (a.toInt - b.toInt) := Classical.byContradiction fun hout =>
      hfits ⟨hover.1, hout⟩
    rw [toInt_sub_of_inRange hin, Int.sub_add_cancel] at hover
    exact hover.2 (inRange_toInt a)

theorem sub_of_add (h : add checks a b = some d) : sub checks d b = some a := by
  rw [add] at h
  split at h
  · cases h
  · next hfits =>
    rw [← Option.some.inj h, sub, if_neg, Int32.add_sub_cancel]
    intro hover
    have hin : InRange (a.toInt + b.toInt) := Classical.byContradiction fun hout =>
      hfits ⟨hover.1, hout⟩
    rw [toInt_add_of_inRange hin, Int.add_sub_cancel] at hover
    exact hover.2 (inRange_toInt a)

/-! ## Forward and back -/

section Level

variable (checks : Bool)

/-- The distance of sample `2 * k + 1` from its prediction. -/
def highAt (x : List Int32) (k : Nat) : Option Int32 := do
  let n := x.length
  let q := n / 2
  let isLast := k = q - 1 ∧ n % 2 = 0
  if isLast then sub checks (← x[2 * k + 1]?) (← x[2 * k]?)
  else sub checks (← x[2 * k + 1]?) ((← add checks (← x[2 * k]?) (← x[2 * k + 2]?)) / 2)

/-- What the sample at place `2 * k` of `n` is corrected by; `p` of them are at even places. -/
def updateAt (p n : Nat) (h : List Int32) (k : Nat) : Option Int32 := do
  if k = 0 then return (← add checks (← h[0]?) 1) / 2
  else if k = p - 1 ∧ n % 2 ≠ 0 then return (← add checks (← h[k - 1]?) 1) / 2
  else return (← add checks (← add checks (← h[k - 1]?) (← h[k]?)) 2) / 4

def lowAt (x h : List Int32) (k : Nat) : Option Int32 := do
  add checks (← x[2 * k]?) (← updateAt checks ((x.length + 1) / 2) x.length h k)

def iwtForwardSingle (x : List Int32) : Option (List Int32 × List Int32) :=
  let n := x.length
  if n ≤ 1 then some (x, [])
  else do
    let p := (n + 1) / 2
    let q := n / 2
    let h ← (List.range q).mapM (highAt checks x)
    let l ← (List.range p).mapM (lowAt checks x h)
    return (l, h)

/-- The sample at place `2 * k`. -/
def evenAt (l h : List Int32) (k : Nat) : Option Int32 := do
  sub checks (← l[k]?) (← updateAt checks l.length (l.length + h.length) h k)

/-- The sample at place `2 * k + 1`, from the samples `xs` at even places. -/
def oddAt (n : Nat) (h xs : List Int32) (k : Nat) : Option Int32 := do
  let isLast := k = h.length - 1 ∧ n % 2 = 0
  if isLast then add checks (← h[k]?) (← xs[k]?)
  else add checks (← h[k]?) ((← add checks (← xs[k]?) (← xs[k + 1]?)) / 2)

/-- The samples at even places and those at odd places in turn. -/
def interleave : List Int32 → List Int32 → List Int32
  | x :: xs, y :: ys => x :: y :: interleave xs ys
  | xs, [] => xs
  | [], _ => []

def iwtInverseSingle (l h : List Int32) : Option (List Int32) :=
  let n := l.length + h.length
  if n ≤ 1 then some l
  else do
    let xs ← (List.range l.length).mapM (evenAt checks l h)
    let ys ← (List.range h.length).mapM (oddAt checks n h xs)
    return interleave xs ys

end Level

/-! ## One level is undone -/

def evens : List Int32 → List Int32
  | x :: _ :: rest => x :: evens rest
  | [x] => [x]
  | [] => []

def odds : List Int32 → List Int32
  | _ :: y :: rest => y :: odds rest
  | [_] => []
  | [] => []

theorem interleave_evens_odds : ∀ x : List Int32, interleave (evens x) (odds x) = x
  | [] => rfl
  | [_] => rfl
  | x :: y :: rest => by rw [evens, odds, interleave, interleave_evens_odds rest]

theorem length_evens : ∀ x : List Int32, (evens x).length = (x.length + 1) / 2
  | [] => rfl
  | [_] => by simp [evens]
  | x :: y :: rest => by
    rw [evens, List.length_cons, length_evens rest, List.length_cons, List.length_cons]
    omega

theorem length_odds : ∀ x : List Int32, (odds x).length = x.length / 2
  | [] => rfl
  | [_] => by simp [odds]
  | x :: y :: rest => by
    rw [odds, List.length_cons, length_odds rest, List.length_cons, List.length_cons]
    omega

theorem getElem?_evens : ∀ (x : List Int32) (k : Nat), (evens x)[k]? = x[2 * k]?
  | [], _ => rfl
  | [_], 0 => rfl
  | [_], _ + 1 => rfl
  | _ :: _ :: _, 0 => rfl
  | _ :: _ :: rest, k + 1 => getElem?_evens rest k

theorem getElem?_odds : ∀ (x : List Int32) (k : Nat), (odds x)[k]? = x[2 * k + 1]?
  | [], _ => rfl
  | [_], 0 => rfl
  | [_], _ + 1 => rfl
  | _ :: _ :: _, 0 => rfl
  | _ :: _ :: rest, k + 1 => getElem?_odds rest k

theorem iwtForwardSingle_length {x l h : List Int32}
    (hf : iwtForwardSingle checks x = some (l, h)) :
    l.length = (x.length + 1) / 2 ∧ h.length = x.length / 2 := by
  rw [iwtForwardSingle] at hf
  split at hf
  · next hshort =>
    cases hf
    rw [List.length_nil]
    omega
  · obtain ⟨h', hh, hf⟩ := Option.bind_eq_some_iff.1 hf
    obtain ⟨l', hl, hf⟩ := Option.bind_eq_some_iff.1 hf
    cases hf
    exact ⟨(mapM_range_eq_some.1 hl).1, (mapM_range_eq_some.1 hh).1⟩

theorem oddAt_of_highAt {x h : List Int32} (hh : h.length = x.length / 2) {k : Nat}
    (hhigh : highAt checks x k = h[k]?) (hk : k < h.length) :
    oddAt checks x.length h (evens x) k = x[2 * k + 1]? := by
  obtain ⟨d, hd⟩ : ∃ d, h[k]? = some d := ⟨_, List.getElem?_eq_getElem hk⟩
  rw [hd, highAt] at hhigh
  rw [oddAt, getElem?_evens, getElem?_evens, hd, hh]
  by_cases hlast : k = x.length / 2 - 1 ∧ x.length % 2 = 0
  · rw [if_pos hlast] at hhigh ⊢
    obtain ⟨y, hy, hhigh⟩ := Option.bind_eq_some_iff.1 hhigh
    obtain ⟨e, he, hhigh⟩ := Option.bind_eq_some_iff.1 hhigh
    rw [he, hy]
    exact add_of_sub hhigh
  · rw [if_neg hlast] at hhigh ⊢
    obtain ⟨y, hy, hhigh⟩ := Option.bind_eq_some_iff.1 hhigh
    obtain ⟨e, he, hhigh⟩ := Option.bind_eq_some_iff.1 hhigh
    obtain ⟨e', he', hhigh⟩ := Option.bind_eq_some_iff.1 hhigh
    obtain ⟨s, hs, hhigh⟩ := Option.bind_eq_some_iff.1 hhigh
    rw [show 2 * (k + 1) = 2 * k + 2 from rfl, he, he', hy]
    show (add checks e e').bind (fun s => add checks d (s / 2)) = some y
    rw [hs]
    exact add_of_sub hhigh

theorem iwtInverseSingle_forward {x l h : List Int32}
    (hf : iwtForwardSingle checks x = some (l, h)) : iwtInverseSingle checks l h = some x := by
  obtain ⟨hl, hh⟩ := iwtForwardSingle_length hf
  have hn : l.length + h.length = x.length := by omega
  rw [iwtForwardSingle] at hf
  rw [iwtInverseSingle, hn]
  dsimp only at hf ⊢
  by_cases hshort : x.length ≤ 1
  · rw [if_pos hshort] at hf ⊢
    cases hf
    rfl
  · rw [if_neg hshort] at hf ⊢
    obtain ⟨h', hhigh, hf⟩ := Option.bind_eq_some_iff.1 hf
    obtain ⟨l', hlow, hf⟩ := Option.bind_eq_some_iff.1 hf
    cases hf
    have hevens : (List.range l.length).mapM (evenAt checks l h) = some (evens x) := by
      refine mapM_range_eq_some.2 ⟨by rw [length_evens, hl], fun k hk => ?_⟩
      obtain ⟨v, hv⟩ : ∃ v, l[k]? = some v := ⟨_, List.getElem?_eq_getElem hk⟩
      have hlow' := (mapM_range_eq_some.1 hlow).2 k (by omega)
      rw [hv, lowAt] at hlow'
      obtain ⟨e, he, hlow'⟩ := Option.bind_eq_some_iff.1 hlow'
      obtain ⟨u, hu, hlow'⟩ := Option.bind_eq_some_iff.1 hlow'
      rw [evenAt, hv, hn, hl, hu, getElem?_evens, he]
      exact sub_of_add hlow'
    have hodds : (List.range h.length).mapM (oddAt checks x.length h (evens x)) =
        some (odds x) := by
      refine mapM_range_eq_some.2 ⟨by rw [length_odds, hh], fun k hk => ?_⟩
      rw [getElem?_odds]
      exact oddAt_of_highAt hh ((mapM_range_eq_some.1 hhigh).2 k (by omega)) hk
    rw [hevens]
    show ((List.range h.length).mapM (oddAt checks x.length h (evens x))).bind
      (fun ys => some (interleave (evens x) ys)) = some x
    rw [hodds, Option.bind_some, interleave_evens_odds]

end Iwt
end Compression
end Leodos
