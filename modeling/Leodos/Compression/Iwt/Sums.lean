/-
The sums of a run that wraps.

A build that checks overflow computes what a wrapping build computes until it meets a sum out
of range.  So it comes to an end exactly when none of the sums of the wrapping run is out of
range.
-/
import Leodos.Compression.Iwt.Range

namespace Leodos
namespace Compression
namespace Iwt

open Memory

/-! ## The sums, as integers -/

def highSums (x : List Int32) (k : Nat) : List Int :=
  let n := x.length
  let q := n / 2
  let isLast := k = q - 1 ∧ n % 2 = 0
  let s := x.getD (2 * k) 0 + x.getD (2 * k + 2) 0
  if isLast then [(x.getD (2 * k + 1) 0).toInt - (x.getD (2 * k) 0).toInt]
  else [(x.getD (2 * k) 0).toInt + (x.getD (2 * k + 2) 0).toInt,
    (x.getD (2 * k + 1) 0).toInt - (s / 2).toInt]

def updateSums (p n : Nat) (h : List Int32) (k : Nat) : List Int :=
  let s := h.getD (k - 1) 0 + h.getD k 0
  if k = 0 then [(h.getD 0 0).toInt + 1]
  else if k = p - 1 ∧ n % 2 ≠ 0 then [(h.getD (k - 1) 0).toInt + 1]
  else [(h.getD (k - 1) 0).toInt + (h.getD k 0).toInt, s.toInt + 2]

def lowSums (x h : List Int32) (k : Nat) : List Int :=
  let p := (x.length + 1) / 2
  let u := (updateAt false p x.length h k).getD 0
  updateSums p x.length h k ++ [(x.getD (2 * k) 0).toInt + u.toInt]

def singleSums (x : List Int32) : List Int :=
  let n := x.length
  if n ≤ 1 then []
  else
    let h := ((List.range (n / 2)).mapM (highAt false x)).getD []
    (List.range (n / 2)).flatMap (highSums x) ++ (List.range ((n + 1) / 2)).flatMap (lowSums x h)

def levelSums : Nat → List Int32 → Nat → List Int
  | 0, _, _ => []
  | levels + 1, output, currentLen =>
    if currentLen ≤ 1 then []
    else
      singleSums (output.take currentLen) ++
        levelSums levels ((forwardLevel false output currentLen).getD []) ((currentLen + 1) / 2)

def columnSums (input : List Int32) : List Int := levelSums IWT_LEVELS input input.length

/-! ## Runs that check -/

/-- No sum leaves the range. -/
def Within (sums : List Int) : Prop := ∀ s ∈ sums, InRange s

instance (sums : List Int) : Decidable (Within sums) :=
  inferInstanceAs (Decidable (∀ s ∈ sums, InRange s))

theorem within_append {ss ts : List Int} : Within (ss ++ ts) ↔ Within ss ∧ Within ts :=
  List.forall_mem_append

theorem within_pair {s t : Int} : Within [s, t] ↔ InRange s ∧ InRange t := by
  simp [Within]

theorem within_single {s : Int} : Within [s] ↔ InRange s := by
  simp [Within]

theorem add_true (a b : Int32) :
    add true a b = if InRange (a.toInt + b.toInt) then add false a b else none := by
  by_cases h : InRange (a.toInt + b.toInt) <;> simp [add, h]

theorem sub_true (a b : Int32) :
    sub true a b = if InRange (a.toInt - b.toInt) then sub false a b else none := by
  by_cases h : InRange (a.toInt - b.toInt) <;> simp [sub, h]

theorem add_false (a b : Int32) : add false a b = some (a + b) := rfl

theorem sub_false (a b : Int32) : sub false a b = some (a - b) := rfl

/-- A step whose guard is `p`, and behind it one whose guard is `q`. -/
theorem guarded_bind {α β : Type} {p q : Prop} [Decidable p] [Decidable q] {o : Option α}
    {f g : α → Option β} (hq : ∀ v, o = some v → f v = if q then g v else none) :
    (if p then o else none).bind f = if p ∧ q then o.bind g else none := by
  by_cases hp : p
  · cases o with
    | none => simp
    | some v => rw [if_pos hp, Option.bind_some, Option.bind_some, hq v rfl]; simp [hp]
  · simp [hp]

theorem getElem?_eq_getD {x : List Int32} {i : Nat} (hi : i < x.length) :
    x[i]? = some (x.getD i 0) := by
  rw [List.getD_eq_getElem?_getD, List.getElem?_eq_getElem hi, Option.getD_some]

variable {x h : List Int32} {k : Nat}

theorem highAt_true (hk : k < x.length / 2) :
    highAt true x k = if Within (highSums x k) then highAt false x k else none := by
  have hodd := getElem?_eq_getD (x := x) (i := 2 * k + 1) (by omega)
  have heven := getElem?_eq_getD (x := x) (i := 2 * k) (by omega)
  rw [highAt, highAt, highSums, hodd, heven]
  by_cases hlast : k = x.length / 2 - 1 ∧ x.length % 2 = 0
  · simp only [if_pos hlast, within_single]
    exact sub_true _ _
  · have hnext := getElem?_eq_getD (x := x) (i := 2 * k + 2) (by omega)
    simp only [if_neg hlast, hnext, within_pair]
    show (add true _ _).bind (fun s => sub true _ (s / 2)) =
      if _ then (add false _ _).bind (fun s => sub false _ (s / 2)) else none
    rw [add_true]
    refine guarded_bind fun s hs => ?_
    rw [← Option.some.inj hs]
    exact sub_true _ _

theorem updateAt_true {p n : Nat} (hfirst : 0 < h.length) (hprev : k - 1 < h.length)
    (hnext : k ≠ 0 → ¬ (k = p - 1 ∧ n % 2 ≠ 0) → k < h.length) :
    updateAt true p n h k =
      if Within (updateSums p n h k) then updateAt false p n h k else none := by
  have h₀ := getElem?_eq_getD hfirst
  have h₁ := getElem?_eq_getD hprev
  rw [updateAt, updateAt, updateSums, h₀, h₁]
  have hend : ∀ d : Int32, (add true d 1).bind (fun s => some (s / 2)) =
      if InRange (d.toInt + 1) then (add false d 1).bind fun s => some (s / 2) else none := by
    intro d
    rw [add_true, show (1 : Int32).toInt = 1 from rfl]
    by_cases hs : InRange (d.toInt + 1) <;> simp [hs]
  by_cases hzero : k = 0
  · simp only [if_pos hzero, within_single]
    exact hend _
  · by_cases hlast : k = p - 1 ∧ n % 2 ≠ 0
    · simp only [if_neg hzero, if_pos hlast, within_single]
      exact hend _
    · have h₂ := getElem?_eq_getD (hnext hzero hlast)
      simp only [if_neg hzero, if_neg hlast, h₂, within_pair]
      show (add true _ _).bind (fun s => (add true s 2).bind fun t => some (t / 4)) =
        if _ then (add false _ _).bind (fun s => (add false s 2).bind fun t => some (t / 4))
          else none
      rw [add_true]
      refine guarded_bind fun s hs => ?_
      rw [← Option.some.inj hs, add_true, show (2 : Int32).toInt = 2 from rfl]
      by_cases ht : InRange ((h.getD (k - 1) 0 + h.getD k 0).toInt + 2)
      · rw [if_pos ht, if_pos ht]
      · rw [if_neg ht, if_neg ht, Option.bind_none]

theorem updateAt_false {p n : Nat} (hfirst : 0 < h.length) (hprev : k - 1 < h.length)
    (hnext : k ≠ 0 → ¬ (k = p - 1 ∧ n % 2 ≠ 0) → k < h.length) :
    ∃ u, updateAt false p n h k = some u := by
  have h₀ := getElem?_eq_getD hfirst
  have h₁ := getElem?_eq_getD hprev
  rw [updateAt, h₀, h₁]
  by_cases hzero : k = 0
  · exact ⟨_, if_pos hzero⟩
  · by_cases hlast : k = p - 1 ∧ n % 2 ≠ 0
    · exact ⟨_, by rw [if_neg hzero, if_pos hlast]; rfl⟩
    · exact ⟨_, by rw [if_neg hzero, if_neg hlast, getElem?_eq_getD (hnext hzero hlast)]; rfl⟩

theorem lowAt_true (hlen : 2 ≤ x.length) (hh : h.length = x.length / 2)
    (hk : k < (x.length + 1) / 2) :
    lowAt true x h k = if Within (lowSums x h k) then lowAt false x h k else none := by
  have heven := getElem?_eq_getD (x := x) (i := 2 * k) (by omega)
  have hprev : k - 1 < h.length := by omega
  have hnext : k ≠ 0 → ¬ (k = (x.length + 1) / 2 - 1 ∧ x.length % 2 ≠ 0) → k < h.length := by
    omega
  obtain ⟨u, hu⟩ := updateAt_false (by omega) hprev hnext
  simp only [lowAt, lowSums, heven, within_append, within_single, hu, Option.getD_some]
  show (updateAt true _ _ h k).bind (fun u => add true _ u) =
    if _ then (some u).bind (fun u => add false _ u) else none
  rw [updateAt_true (by omega) hprev hnext, hu]
  refine guarded_bind fun v hv => ?_
  rw [← Option.some.inj hv]
  exact add_true _ _

theorem mapM_guarded {f g : Nat → Option Int32} {sums : Nat → List Int} {ks : List Nat}
    (hall : ∀ k ∈ ks, f k = if Within (sums k) then g k else none) :
    ks.mapM f = if Within (ks.flatMap sums) then ks.mapM g else none := by
  induction ks with
  | nil => rfl
  | cons k ks ih =>
    rw [List.mapM_cons, List.mapM_cons, hall k List.mem_cons_self,
      ih fun k' hk' => hall k' (List.mem_cons_of_mem _ hk'), List.flatMap_cons]
    simp only [within_append]
    refine guarded_bind fun v _ => ?_
    by_cases hrest : Within (ks.flatMap sums) <;> simp [hrest]

theorem iwtForwardSingle_true :
    iwtForwardSingle true x =
      if Within (singleSums x) then iwtForwardSingle false x else none := by
  rw [iwtForwardSingle, iwtForwardSingle, singleSums]
  by_cases hshort : x.length ≤ 1
  · simp [hshort, Within]
  · obtain ⟨h, hh⟩ := mapM_range_isSome (f := highAt false x) (n := x.length / 2) fun k hk => by
      have hsmall : Small false 0 x := fun hc => by cases hc
      obtain ⟨d, hd, -⟩ := hsmall.highAt (by decide) hk
      exact ⟨d, hd⟩
    have hlen := (mapM_range_eq_some.1 hh).1
    simp only [if_neg hshort, hh, Option.getD_some, within_append]
    show ((List.range (x.length / 2)).mapM (highAt true x)).bind _ = _
    rw [mapM_guarded fun k hk => highAt_true (List.mem_range.1 hk), hh]
    refine guarded_bind fun h' hh' => ?_
    rw [← Option.some.inj hh']
    show ((List.range ((x.length + 1) / 2)).mapM (lowAt true x h)).bind _ = _
    rw [mapM_guarded fun k hk => lowAt_true (by omega) hlen (List.mem_range.1 hk)]
    by_cases hlow : Within ((List.range ((x.length + 1) / 2)).flatMap (lowSums x h))
    · rw [if_pos hlow, if_pos hlow]
      rfl
    · rw [if_neg hlow, if_neg hlow]
      rfl

theorem forwardLevel_true (output : List Int32) (n : Nat) :
    forwardLevel true output n =
      if Within (singleSums (output.take n)) then forwardLevel false output n else none := by
  rw [forwardLevel, forwardLevel, iwtForwardSingle_true]
  split
  · simp
  · by_cases hw : Within (singleSums (output.take n)) <;> simp [hw]

theorem forwardLoop_true (levels : Nat) (output : List Int32) (n : Nat) :
    forwardLoop true levels output n =
      if Within (levelSums levels output n) then forwardLoop false levels output n else none := by
  induction levels generalizing output n with
  | zero => rfl
  | succ levels ih =>
    rw [forwardLoop, forwardLoop, levelSums]
    by_cases hshort : n ≤ 1
    · simp [hshort, Within]
    · simp only [if_neg hshort, within_append]
      show (forwardLevel true output n).bind _ = _
      rw [forwardLevel_true]
      refine guarded_bind fun next hnext => ?_
      rw [ih, hnext, Option.getD_some]

theorem iwtForward5_true (input : List Int32) :
    iwtForward5 true input =
      if Within (columnSums input) then iwtForward5 false input else none :=
  forwardLoop_true _ _ _

end Iwt
end Compression
end Leodos
