/-
The integer wavelet transform of `compression/ccsds122.rs`, in place.

A row or a column is changed in two loops, the samples at odd places from those at even places
and then the other way round, and its halves are sorted apart.  Two dimensions are the rows and
then the columns, and three levels go on with the front quarter.  `none` stands for a panic.
-/
import Leodos.Compression.Iwt.Image

namespace Leodos
namespace Compression
namespace Ccsds122

open Memory
open Iwt (add sub add_of_sub sub_of_add add_eq sub_eq InRange)

def STRIP_HEIGHT : Nat := 8

def DWT_LEVELS : Nat := 3

/-- The capacity of the copy of one half. -/
def MAX_HALF : Nat := 8192

def MAX_COL : Nat := 8192

section Code

variable (checks : Bool)

/-- The sample behind the one at `2 * i + 1`, or the one before it at the end. -/
def rightOf (n : Nat) (data : List Int32) (i : Nat) : Option Int32 :=
  if 2 * i + 2 < n then data[2 * i + 2]? else data[2 * i]?

def leftOf (data : List Int32) (i : Nat) : Option Int32 :=
  if 0 < i then data[2 * (i - 1) + 1]? else data[1]?

/-- What sample `2 * i + 1` of `n` is predicted to be. -/
def prediction (n : Nat) (data : List Int32) (i : Nat) : Option Int32 := do
  let left ← data[2 * i]?
  let right ← rightOf n data i
  return (← add checks left right) / 2

/-- What sample `2 * i` is corrected by. -/
def correction (data : List Int32) (i : Nat) : Option Int32 := do
  let dLeft ← leftOf data i
  let dRight ← data[2 * i + 1]?
  return (← add checks (← add checks dLeft dRight) 2) / 4

def deinterleave (data : List Int32) (n : Nat) : Option (List Int32) :=
  let half := n / 2
  if half ≤ 1 then some data
  else if MAX_HALF < half then none
  else do
    let temp ← readColumn half (fun i => 2 * i + 1) data
    let data ← (List.range' 1 (half - 1)).foldlM (moveCell (fun i => 2 * i) (fun i => i)) data
    writeColumn half (fun i => half + i) temp data

def interleave (data : List Int32) (n : Nat) : Option (List Int32) :=
  let half := n / 2
  if half ≤ 1 then some data
  else if MAX_HALF < half then none
  else do
    let temp ← readColumn half (fun i => half + i) data
    let data ← (List.range' 1 (half - 1)).reverse.foldlM
      (moveCell (fun i => i) (fun i => 2 * i)) data
    writeColumn half (fun i => 2 * i + 1) temp data

def dwt53Forward1d (data : List Int32) (n : Nat) : Option (List Int32) :=
  if n < 2 then some data
  else do
    let data ← liftCells (sub checks) (fun i => 2 * i + 1) (prediction checks n) (n / 2) data
    let data ← liftCells (add checks) (fun i => 2 * i) (correction checks) (n / 2) data
    deinterleave data n

def dwt53Inverse1d (data : List Int32) (n : Nat) : Option (List Int32) :=
  if n < 2 then some data
  else do
    let data ← interleave data n
    let data ← liftCells (sub checks) (fun i => 2 * i) (correction checks) (n / 2) data
    liftCells (add checks) (fun i => 2 * i + 1) (prediction checks n) (n / 2) data

/-- A column is transformed in a copy of its own. -/
def inColumn (f : List Int32 → Nat → Option (List Int32)) (h : Nat) (col : List Int32) :
    Option (List Int32) :=
  if MAX_COL < h then none else f col h

/-- The place of sample `x` of row `y`. -/
def rowPlace (stride y x : Nat) : Nat := y * stride + x

def columnPlace (stride x y : Nat) : Nat := y * stride + x

def dwt53Forward2d (coeffs : List Int32) (stride w h : Nat) : Option (List Int32) := do
  let coeffs ← mapColumns w (fun row => dwt53Forward1d checks row w) (rowPlace stride)
    (List.range h) coeffs
  mapColumns h (inColumn (dwt53Forward1d checks) h) (columnPlace stride) (List.range w) coeffs

def dwt53Inverse2d (coeffs : List Int32) (stride w h : Nat) : Option (List Int32) := do
  let coeffs ← mapColumns h (inColumn (dwt53Inverse1d checks) h) (columnPlace stride)
    (List.range w) coeffs
  mapColumns w (fun row => dwt53Inverse1d checks row w) (rowPlace stride) (List.range h) coeffs

def forwardLevels (stride : Nat) : Nat → List Int32 → Nat → Nat → Option (List Int32)
  | 0, coeffs, _, _ => some coeffs
  | levels + 1, coeffs, cw, ch => do
    let coeffs ← dwt53Forward2d checks coeffs stride cw ch
    forwardLevels stride levels coeffs (cw / 2) (ch / 2)

def dwtForward3level (coeffs : List Int32) (stride w h : Nat) : Option (List Int32) :=
  forwardLevels checks stride DWT_LEVELS coeffs w h

/-- The inverse computes the sizes anew, from halves that are rounded down. -/
def sizes : Nat → Nat → Nat → List (Nat × Nat)
  | 0, _, _ => []
  | levels + 1, cw, ch => (cw / 2 * 2, ch / 2 * 2) :: sizes levels (cw / 2) (ch / 2)

def dwtInverse3level (coeffs : List Int32) (stride w h : Nat) : Option (List Int32) :=
  (sizes DWT_LEVELS w h).reverse.foldlM
    (fun coeffs size => dwt53Inverse2d checks coeffs stride size.1 size.2) coeffs

end Code

variable {checks : Bool} {data out : List Int32} {n : Nat}

/-! ## One dimension -/

theorem liftable_prediction (n : Nat) :
    Liftable (fun i => 2 * i + 1) (prediction checks n) (n / 2) where
  inj k _ k' _ he := by omega
  reads b b' hsame k _ := by
    have heven : ∀ j, b'[2 * j]? = b[2 * j]? := fun j => hsame _ fun i _ => by omega
    have hright : rightOf n b' k = rightOf n b k := by
      rw [rightOf, rightOf, show 2 * k + 2 = 2 * (k + 1) from rfl, heven (k + 1), heven k]
    rw [prediction, prediction, heven k, hright]

theorem liftable_correction (n : Nat) : Liftable (fun i => 2 * i) (correction checks) (n / 2) where
  inj k _ k' _ he := by omega
  reads b b' hsame k _ := by
    have hodd : ∀ j, b'[2 * j + 1]? = b[2 * j + 1]? := fun j => hsame _ fun i _ => by omega
    have hleft : leftOf b' k = leftOf b k := by
      rw [leftOf, leftOf, hodd (k - 1), show b'[1]? = b[1]? from hodd 0]
    rw [correction, correction, hodd k, hleft]

/-- The samples of both halves, sorted apart. -/
structure Sorted (data out : List Int32) (half : Nat) : Prop where
  length : out.length = data.length
  low : ∀ i < half, out[i]? = data[2 * i]?
  high : ∀ i < half, out[half + i]? = data[2 * i + 1]?
  rest : ∀ i, 2 * half ≤ i → out[i]? = data[i]?

theorem Sorted.unique_data {data' : List Int32} {half : Nat} (h : Sorted data out half)
    (h' : Sorted data' out half) : data = data' := by
  apply List.ext_getElem?
  intro i
  by_cases hi : 2 * half ≤ i
  · rw [← h.rest i hi, h'.rest i hi]
  · obtain ⟨j, hj⟩ : ∃ j, i = 2 * j ∨ i = 2 * j + 1 := ⟨i / 2, by omega⟩
    rcases hj with hj | hj
    · rw [hj, ← h.low j (by omega), h'.low j (by omega)]
    · rw [hj, ← h.high j (by omega), h'.high j (by omega)]

theorem sorted_of_le_one {half : Nat} (h : half ≤ 1) : Sorted data data half where
  length := rfl
  low i hi := by rw [show i = 0 by omega]
  high i hi := by rw [show half = 1 by omega, show i = 0 by omega]
  rest _ _ := rfl

theorem deinterleave_eq (hn : n ≤ data.length) (hhalf : n / 2 ≤ MAX_HALF) :
    ∃ out, deinterleave data n = some out ∧ Sorted data out (n / 2) := by
  by_cases hshort : n / 2 ≤ 1
  · exact ⟨data, if_pos hshort, sorted_of_le_one hshort⟩
  · obtain ⟨temp, htemp⟩ := readColumn_isSome
      (show ∀ i < n / 2, 2 * i + 1 < data.length from fun i hi => by omega)
    obtain ⟨hlen, hget⟩ := mapM_range_eq_some.1 htemp
    obtain ⟨mid, hmid, hmidLen, hmoved, hkept⟩ := moveCells_eq (b := data)
      (fun i => 2 * i) (fun i => i) (List.range' 1 (n / 2 - 1))
      ((List.pairwise_lt_range' ..).imp fun hlt => by omega)
      fun k hk => by
        rw [List.mem_range'_1] at hk
        omega
    obtain ⟨out, hout, houtLen, hdone, hrest⟩ := writeColumn_eq hlen
      (show ∀ i < n / 2, n / 2 + i < mid.length from fun i hi => by omega)
        fun i _ j _ he => by omega
    refine ⟨out, ?_, by rw [houtLen, hmidLen], fun i hi => ?_, fun i hi => ?_, fun i hi => ?_⟩
    · simp only [deinterleave, if_neg hshort, if_neg (Nat.not_lt.2 hhalf), htemp, hmid,
        Option.bind_eq_bind, Option.bind_some, hout]
    · rw [hrest i fun z _ => by omega]
      by_cases hzero : i = 0
      · rw [hzero, hkept 0 fun k hk => by rw [List.mem_range'_1] at hk; omega]
      · exact hmoved i (List.mem_range'_1.2 (by omega))
    · rw [hdone i hi, hget i hi]
    · rw [hrest i fun z hz => by omega, hkept i fun k hk => by
        rw [List.mem_range'_1] at hk
        omega]

theorem interleave_eq (hn : n ≤ out.length) (hhalf : n / 2 ≤ MAX_HALF) :
    ∃ data, interleave out n = some data ∧ Sorted data out (n / 2) := by
  by_cases hshort : n / 2 ≤ 1
  · exact ⟨out, if_pos hshort, sorted_of_le_one hshort⟩
  · obtain ⟨temp, htemp⟩ := readColumn_isSome
      (show ∀ i < n / 2, n / 2 + i < out.length from fun i hi => by omega)
    obtain ⟨hlen, hget⟩ := mapM_range_eq_some.1 htemp
    obtain ⟨mid, hmid, hmidLen, hmoved, hkept⟩ := moveCells_eq (b := out)
      (fun i => i) (fun i => 2 * i) (List.range' 1 (n / 2 - 1)).reverse
      (List.pairwise_reverse.2 ((List.pairwise_lt_range' ..).imp fun hlt => by omega))
      fun k hk => by
        rw [List.mem_reverse, List.mem_range'_1] at hk
        omega
    obtain ⟨data, hdata, hdataLen, hdone, hrest⟩ := writeColumn_eq hlen
      (show ∀ i < n / 2, 2 * i + 1 < mid.length from fun i hi => by omega)
        fun i _ j _ he => by omega
    refine ⟨data, ?_, by rw [hdataLen, hmidLen], fun i hi => ?_, fun i hi => ?_, fun i hi => ?_⟩
    · simp only [interleave, if_neg hshort, if_neg (Nat.not_lt.2 hhalf), htemp, hmid,
        Option.bind_eq_bind, Option.bind_some, hdata]
    · rw [hrest (2 * i) fun z _ => by omega]
      by_cases hzero : i = 0
      · rw [hzero, hkept (2 * 0) fun k hk => by
          rw [List.mem_reverse, List.mem_range'_1] at hk
          omega]
      · exact (hmoved i (List.mem_reverse.2 (List.mem_range'_1.2 (by omega)))).symm
    · rw [hdone i hi, hget i hi]
    · rw [hrest i fun z hz => by omega, hkept i fun k hk => by
        rw [List.mem_reverse, List.mem_range'_1] at hk
        omega]

theorem deinterleave_sorted (hn : n ≤ data.length) (h : deinterleave data n = some out) :
    n / 2 ≤ MAX_HALF ∧ Sorted data out (n / 2) := by
  have hhalf : n / 2 ≤ MAX_HALF := by
    by_contra hwide
    rw [deinterleave, if_neg (by unfold MAX_HALF at hwide; omega), if_pos (by omega)] at h
    cases h
  obtain ⟨out', hout', hsorted⟩ := deinterleave_eq hn hhalf
  rw [h] at hout'
  rw [Option.some.inj hout']
  exact ⟨hhalf, hsorted⟩

theorem interleave_deinterleave (hn : n ≤ data.length) (h : deinterleave data n = some out) :
    interleave out n = some data := by
  obtain ⟨hhalf, hsorted⟩ := deinterleave_sorted hn h
  obtain ⟨data', hdata', hsorted'⟩ := interleave_eq
    (show n ≤ out.length by rw [hsorted.length]; exact hn) hhalf
  rw [hdata', hsorted.unique_data hsorted']

theorem length_deinterleave (h : deinterleave data n = some out) : out.length = data.length := by
  unfold deinterleave at h
  dsimp only at h
  split at h
  · rw [Option.some.inj h]
  · split at h
    · cases h
    · obtain ⟨temp, -, h⟩ := Option.bind_eq_some_iff.1 h
      obtain ⟨mid, hmid, h⟩ := Option.bind_eq_some_iff.1 h
      rw [length_writeColumn h, length_moveCells hmid]

theorem length_interleave (h : interleave data n = some out) : out.length = data.length := by
  unfold interleave at h
  dsimp only at h
  split at h
  · rw [Option.some.inj h]
  · split at h
    · cases h
    · obtain ⟨temp, -, h⟩ := Option.bind_eq_some_iff.1 h
      obtain ⟨mid, hmid, h⟩ := Option.bind_eq_some_iff.1 h
      rw [length_writeColumn h, length_moveCells hmid]

theorem dwt53Forward1d_eq (hn : 2 ≤ n) (h : dwt53Forward1d checks data n = some out) :
    ∃ high mid, liftCells (sub checks) (fun i => 2 * i + 1) (prediction checks n) (n / 2) data =
        some high ∧
      liftCells (add checks) (fun i => 2 * i) (correction checks) (n / 2) high = some mid ∧
      deinterleave mid n = some out := by
  rw [dwt53Forward1d, if_neg (Nat.not_lt.2 hn)] at h
  obtain ⟨high, hhigh, h⟩ := Option.bind_eq_some_iff.1 h
  obtain ⟨mid, hmid, h⟩ := Option.bind_eq_some_iff.1 h
  exact ⟨high, mid, hhigh, hmid, h⟩

theorem length_dwt53Forward1d (h : dwt53Forward1d checks data n = some out) :
    out.length = data.length := by
  by_cases hn : n < 2
  · rw [dwt53Forward1d, if_pos hn] at h
    rw [Option.some.inj h]
  · obtain ⟨high, mid, hhigh, hmid, hout⟩ := dwt53Forward1d_eq (Nat.not_lt.1 hn) h
    rw [length_deinterleave hout, ((liftable_correction n).lifted (Nat.le_refl _) hmid).length,
      ((liftable_prediction n).lifted (Nat.le_refl _) hhigh).length]

theorem length_dwt53Inverse1d (h : dwt53Inverse1d checks data n = some out) :
    out.length = data.length := by
  by_cases hn : n < 2
  · rw [dwt53Inverse1d, if_pos hn] at h
    rw [Option.some.inj h]
  · rw [dwt53Inverse1d, if_neg hn] at h
    obtain ⟨mid, hmid, h⟩ := Option.bind_eq_some_iff.1 h
    obtain ⟨low, hlow, h⟩ := Option.bind_eq_some_iff.1 h
    rw [((liftable_prediction n).lifted (Nat.le_refl _) h).length,
      ((liftable_correction n).lifted (Nat.le_refl _) hlow).length, length_interleave hmid]

theorem dwt53Inverse1d_forward (hn : n ≤ data.length)
    (h : dwt53Forward1d checks data n = some out) : dwt53Inverse1d checks out n = some data := by
  by_cases hshort : n < 2
  · rw [dwt53Forward1d, if_pos hshort] at h
    rw [dwt53Inverse1d, if_pos hshort, Option.some.inj h]
  · obtain ⟨high, mid, hhigh, hmid, hout⟩ := dwt53Forward1d_eq (Nat.not_lt.1 hshort) h
    have hlen : n ≤ mid.length := by
      rw [((liftable_correction n).lifted (Nat.le_refl _) hmid).length,
        ((liftable_prediction n).lifted (Nat.le_refl _) hhigh).length]
      exact hn
    have hlow : liftCells (sub checks) (fun i => 2 * i) (correction checks) (n / 2) mid =
        some high :=
      (liftable_correction n).liftCells_undo (fun _ _ _ hy => sub_of_add hy) hmid
    have hback : liftCells (add checks) (fun i => 2 * i + 1) (prediction checks n) (n / 2) high =
        some data :=
      (liftable_prediction n).liftCells_undo (fun _ _ _ hy => add_of_sub hy) hhigh
    rw [dwt53Inverse1d, if_neg hshort, interleave_deinterleave hlen hout]
    show (liftCells _ _ _ _ mid).bind _ = _
    rw [hlow]
    exact hback

/-! ## Two dimensions and three levels -/

theorem apart_rows {stride w h size : Nat} (hw : w ≤ stride) (hsize : h * stride ≤ size) :
    Apart w (rowPlace stride) (List.range h) size where
  lt y hy x hx := by
    have hcell : y * stride + x < h * stride := Iwt.mul_add_lt (List.mem_range.1 hy) (by omega)
    show y * stride + x < size
    omega
  inj y _ y' _ x hx x' hx' he := by
    have hcell : y * stride + x = y' * stride + x' := he
    exact Iwt.mul_add_inj (by omega) (by omega) hcell
  nodup := List.nodup_range

theorem apart_columns {stride w h size : Nat} (hw : w ≤ stride) (hsize : h * stride ≤ size) :
    Apart h (columnPlace stride) (List.range w) size where
  lt x hx y hy := by
    have hlt := List.mem_range.1 hx
    have hcell : y * stride + x < h * stride := Iwt.mul_add_lt hy (by omega)
    show y * stride + x < size
    omega
  inj x hx x' hx' y _ y' _ he := by
    have hlt := List.mem_range.1 hx
    have hlt' := List.mem_range.1 hx'
    have hcell : y * stride + x = y' * stride + x' := he
    obtain ⟨hrow, hcolumn⟩ := Iwt.mul_add_inj (by omega) (by omega) hcell
    exact ⟨hcolumn, hrow⟩
  nodup := List.nodup_range

theorem inColumn_eq {f : List Int32 → Nat → Option (List Int32)} {h : Nat}
    (hrun : inColumn f h data = some out) : h ≤ MAX_COL ∧ f data h = some out := by
  rw [inColumn] at hrun
  split at hrun
  · cases hrun
  · next hfits => exact ⟨Nat.not_lt.1 hfits, hrun⟩

section TwoDimensions

variable {coeffs out : List Int32} {stride w h : Nat}

theorem dwt53Forward2d_eq (hrun : dwt53Forward2d checks coeffs stride w h = some out) :
    ∃ mid, mapColumns w (fun row => dwt53Forward1d checks row w) (rowPlace stride) (List.range h)
        coeffs = some mid ∧
      mapColumns h (inColumn (dwt53Forward1d checks) h) (columnPlace stride) (List.range w) mid =
        some out :=
  Option.bind_eq_some_iff.1 hrun

theorem length_dwt53Forward2d (hrun : dwt53Forward2d checks coeffs stride w h = some out) :
    out.length = coeffs.length := by
  obtain ⟨mid, hmid, hout⟩ := dwt53Forward2d_eq hrun
  rw [length_mapColumns hout, length_mapColumns hmid]

theorem dwt53Inverse2d_forward (hw : w ≤ stride) (hsize : h * stride ≤ coeffs.length)
    (hrun : dwt53Forward2d checks coeffs stride w h = some out) :
    dwt53Inverse2d checks out stride w h = some coeffs := by
  obtain ⟨mid, hmid, hout⟩ := dwt53Forward2d_eq hrun
  have hmidLen := length_mapColumns hmid
  have hcolumns : mapColumns h (inColumn (dwt53Inverse1d checks) h) (columnPlace stride)
      (List.range w) out = some mid := by
    refine Apart.mapColumns_undo (apart_columns hw (by rw [hmidLen]; exact hsize))
      (fun _ _ hcol => length_dwt53Forward1d (inColumn_eq hcol).2)
      (fun _ _ hcol => length_dwt53Inverse1d (inColumn_eq hcol).2)
      (fun x _ col out hread hcol => ?_) hout
    obtain ⟨hfits, hcol⟩ := inColumn_eq hcol
    rw [inColumn, if_neg (Nat.not_lt.2 hfits)]
    exact dwt53Inverse1d_forward (Nat.le_of_eq (mapM_range_eq_some.1 hread).1.symm) hcol
  have hrows : mapColumns w (fun row => dwt53Inverse1d checks row w) (rowPlace stride)
      (List.range h) mid = some coeffs :=
    Apart.mapColumns_undo (apart_rows hw hsize) (fun _ _ => length_dwt53Forward1d)
      (fun _ _ => length_dwt53Inverse1d)
      (fun y _ row out hread hrow =>
        dwt53Inverse1d_forward (Nat.le_of_eq (mapM_range_eq_some.1 hread).1.symm) hrow) hmid
  rw [dwt53Inverse2d, hcolumns]
  exact hrows

theorem length_forwardLevels {levels : Nat}
    (hrun : forwardLevels checks stride levels coeffs w h = some out) :
    out.length = coeffs.length := by
  induction levels generalizing coeffs w h with
  | zero =>
    cases hrun
    rfl
  | succ levels ih =>
    obtain ⟨mid, hmid, hrest⟩ := Option.bind_eq_some_iff.1 hrun
    rw [ih hrest, length_dwt53Forward2d hmid]

theorem length_dwtInverse3level (hrun : dwtInverse3level checks coeffs stride w h = some out) :
    out.length = coeffs.length :=
  length_of_foldlM (fun _ _ _ hlevel => by
    obtain ⟨mid, hmid, hout⟩ := Option.bind_eq_some_iff.1 hlevel
    rw [length_mapColumns hout, length_mapColumns hmid]) hrun

theorem forwardLevels_undo {levels : Nat} (hw : w ≤ stride) (hsize : h * stride ≤ coeffs.length)
    (hevenW : 2 ^ levels ∣ w) (hevenH : 2 ^ levels ∣ h)
    (hrun : forwardLevels checks stride levels coeffs w h = some out) :
    (sizes levels w h).reverse.foldlM
      (fun coeffs size => dwt53Inverse2d checks coeffs stride size.1 size.2) out = some coeffs := by
  induction levels generalizing coeffs w h with
  | zero =>
    cases hrun
    rfl
  | succ levels ih =>
    obtain ⟨mid, hmid, hrest⟩ := Option.bind_eq_some_iff.1 hrun
    rw [Nat.pow_succ'] at hevenW hevenH
    have hw2 : w / 2 * 2 = w := Nat.div_mul_cancel (Dvd.dvd.trans (Nat.dvd_mul_right 2 _) hevenW)
    have hh2 : h / 2 * 2 = h := Nat.div_mul_cancel (Dvd.dvd.trans (Nat.dvd_mul_right 2 _) hevenH)
    have hhalf : h / 2 * stride ≤ h * stride := Nat.mul_le_mul_right _ (Nat.div_le_self h 2)
    have hback := ih (by omega) (by rw [length_dwt53Forward2d hmid]; omega)
      (Nat.dvd_div_of_mul_dvd hevenW) (Nat.dvd_div_of_mul_dvd hevenH) hrest
    rw [sizes, List.reverse_cons, List.foldlM_append, hback, hw2, hh2]
    rw [Option.bind_eq_bind, Option.bind_some, List.foldlM_cons,
      dwt53Inverse2d_forward hw hsize hmid]
    rfl

end TwoDimensions

/-! ## Room

Each pass over the rows or the columns at most doubles the samples, so three levels make them at
most 64 times as large. -/

def Bounded (A : Nat) (x : List Int32) : Prop := ∀ (i : Nat) (v : Int32), x[i]? = some v →
  v.toInt.natAbs ≤ A

theorem Bounded.mono {A B : Nat} {x : List Int32} (h : Bounded A x) (hAB : A ≤ B) : Bounded B x :=
  fun i v hv => Nat.le_trans (h i v hv) hAB

theorem natAbs_half (a : Int32) : (a / 2).toInt.natAbs = a.toInt.natAbs / 2 := by
  rw [Int32.toInt_div_of_ne_right a 2 (by decide)]
  exact Int.natAbs_tdiv a.toInt 2

theorem natAbs_quarter (a : Int32) : (a / 4).toInt.natAbs = a.toInt.natAbs / 4 := by
  rw [Int32.toInt_div_of_ne_right a 4 (by decide)]
  exact Int.natAbs_tdiv a.toInt 4

theorem add_bounded (checks : Bool) {a b : Int32} {A B : Nat} (ha : a.toInt.natAbs ≤ A)
    (hb : b.toInt.natAbs ≤ B) (hAB : A + B < 2 ^ 31) :
    ∃ d, add checks a b = some d ∧ d.toInt.natAbs ≤ A + B := by
  have hin : InRange (a.toInt + b.toInt) := by
    unfold InRange
    omega
  refine ⟨a + b, if_neg fun hover => hover.2 hin, ?_⟩
  rw [Iwt.toInt_add_of_inRange hin]
  omega

theorem sub_bounded (checks : Bool) {a b : Int32} {A B : Nat} (ha : a.toInt.natAbs ≤ A)
    (hb : b.toInt.natAbs ≤ B) (hAB : A + B < 2 ^ 31) :
    ∃ d, sub checks a b = some d ∧ d.toInt.natAbs ≤ A + B := by
  have hin : InRange (a.toInt - b.toInt) := by
    unfold InRange
    omega
  refine ⟨a - b, if_neg fun hover => hover.2 hin, ?_⟩
  rw [Iwt.toInt_sub_of_inRange hin]
  omega

section OneDimension

variable {A : Nat}

theorem Bounded.getElem? (h : Bounded A data) {i : Nat} (hi : i < data.length) :
    ∃ v, data[i]? = some v ∧ v.toInt.natAbs ≤ A :=
  ⟨data.get ⟨i, hi⟩, List.getElem?_eq_getElem hi, h i _ (List.getElem?_eq_getElem hi)⟩

theorem prediction_bounded (checks : Bool) (h : Bounded A data) (hA : A < 2 ^ 28)
    (hn : n ≤ data.length) {i : Nat} (hi : i < n / 2) :
    ∃ c, prediction checks n data i = some c ∧ c.toInt.natAbs ≤ A := by
  obtain ⟨left, hleft, hleftA⟩ := h.getElem? (i := 2 * i) (by omega)
  obtain ⟨right, hright, hrightA⟩ : ∃ right, rightOf n data i = some right ∧
      right.toInt.natAbs ≤ A := by
    rw [rightOf]
    split
    · exact h.getElem? (by omega)
    · exact ⟨left, hleft, hleftA⟩
  obtain ⟨s, hs, hsA⟩ := add_bounded checks hleftA hrightA (by omega)
  refine ⟨s / 2, ?_, ?_⟩
  · simp only [prediction, hleft, hright, hs, Option.bind_eq_bind, Option.bind_some,
      Option.pure_def]
  · rw [natAbs_half]
    omega

theorem correction_bounded (checks : Bool) (h : ∀ i < n / 2, ∃ v, data[2 * i + 1]? = some v ∧
    v.toInt.natAbs ≤ 2 * A) (hA : A < 2 ^ 28) {i : Nat} (hi : i < n / 2) :
    ∃ c, correction checks data i = some c ∧ c.toInt.natAbs ≤ A := by
  obtain ⟨dRight, hright, hrightA⟩ := h i hi
  obtain ⟨dLeft, hleft, hleftA⟩ : ∃ dLeft, leftOf data i = some dLeft ∧
      dLeft.toInt.natAbs ≤ 2 * A := by
    rw [leftOf]
    split
    · exact h (i - 1) (by omega)
    · exact h 0 (by omega)
  obtain ⟨s, hs, hsA⟩ := add_bounded checks hleftA hrightA (by omega)
  have htwo : (2 : Int32).toInt.natAbs ≤ 2 := Nat.le_refl 2
  obtain ⟨t, ht, htA⟩ := add_bounded checks hsA htwo (by omega)
  refine ⟨t / 4, ?_, ?_⟩
  · simp only [correction, hright, hleft, hs, ht, Option.bind_eq_bind, Option.bind_some,
      Option.pure_def]
  · rw [natAbs_quarter]
    omega

theorem Sorted.bounded {half : Nat} (h : Sorted data out half) (hdata : Bounded A data) :
    Bounded A out := by
  intro i v hv
  by_cases hi : 2 * half ≤ i
  · rw [h.rest i hi] at hv
    exact hdata i v hv
  · by_cases hlow : i < half
    · rw [h.low i hlow] at hv
      exact hdata _ v hv
    · rw [show i = half + (i - half) by omega, h.high _ (by omega)] at hv
      exact hdata _ v hv

theorem dwt53Forward1d_bounded (h : Bounded A data) (hA : A < 2 ^ 28) (hn : n ≤ data.length)
    (hhalf : n / 2 ≤ MAX_HALF) :
    ∃ out, dwt53Forward1d checks data n = some out ∧ Bounded (2 * A) out := by
  by_cases hshort : n < 2
  · exact ⟨data, if_pos hshort, h.mono (by omega)⟩
  · have hpredict : ∀ i < n / 2, ∃ x c y, data[2 * i + 1]? = some x ∧
        prediction checks n data i = some c ∧ sub checks x c = some y := by
      intro i hi
      obtain ⟨x, hx, hxA⟩ := h.getElem? (i := 2 * i + 1) (by omega)
      obtain ⟨c, hc, hcA⟩ := prediction_bounded checks h hA hn hi
      obtain ⟨y, hy, -⟩ := sub_bounded checks hxA hcA (by omega)
      exact ⟨x, c, y, hx, hc, hy⟩
    obtain ⟨high, hhigh, hlifted⟩ := (liftable_prediction n).exists_lifted hpredict
    have hodd : ∀ i < n / 2, ∃ v, high[2 * i + 1]? = some v ∧ v.toInt.natAbs ≤ 2 * A := by
      intro i hi
      obtain ⟨x, c, y, hx, hc, hy, hcell⟩ := hlifted.cell i hi
      obtain ⟨c', hc', hcA⟩ := prediction_bounded checks h hA hn hi
      rw [hc] at hc'
      obtain ⟨y', hy', hyA⟩ := sub_bounded checks (h _ x hx)
        ((Option.some.inj hc') ▸ hcA) (by omega)
      rw [hy] at hy'
      rw [← Option.some.inj hy'] at hyA
      exact ⟨y, hcell, by omega⟩
    have hcorrect : ∀ i < n / 2, ∃ x c y, high[2 * i]? = some x ∧
        correction checks high i = some c ∧ add checks x c = some y ∧ y.toInt.natAbs ≤ 2 * A := by
      intro i hi
      obtain ⟨x, hx, hxA⟩ := h.getElem? (i := 2 * i) (by omega)
      obtain ⟨c, hc, hcA⟩ := correction_bounded checks hodd hA hi
      obtain ⟨y, hy, hyA⟩ := add_bounded checks hxA hcA (by omega)
      rw [← hlifted.rest (2 * i) fun k _ => by omega] at hx
      exact ⟨x, c, y, hx, hc, hy, by omega⟩
    obtain ⟨mid, hmid, hlifted'⟩ := (liftable_correction n).exists_lifted fun i hi => by
      obtain ⟨x, c, y, hx, hc, hy, -⟩ := hcorrect i hi
      exact ⟨x, c, y, hx, hc, hy⟩
    have hsmall : Bounded (2 * A) mid := by
      intro i v hv
      by_cases heven : ∀ k < n / 2, i ≠ 2 * k
      · rw [hlifted'.rest i heven] at hv
        by_cases hother : ∀ k < n / 2, i ≠ 2 * k + 1
        · rw [hlifted.rest i hother] at hv
          exact Nat.le_trans (h i v hv) (by omega)
        · simp only [not_forall, Classical.not_not] at hother
          obtain ⟨k, hk, hik⟩ := hother
          obtain ⟨v', hv', hvA⟩ := hodd k hk
          rw [hik, hv'] at hv
          exact Option.some.inj hv ▸ hvA
      · simp only [not_forall, Classical.not_not] at heven
        obtain ⟨k, hk, hik⟩ := heven
        obtain ⟨x, c, y, hx, hc, hy, hyA⟩ := hcorrect k hk
        obtain ⟨x', c', y', hx', hc', hy', hcell⟩ := hlifted'.cell k hk
        rw [hx] at hx'
        rw [hc] at hc'
        rw [← Option.some.inj hx', ← Option.some.inj hc', hy] at hy'
        rw [hik, hcell, ← Option.some.inj hy'] at hv
        exact Option.some.inj hv ▸ hyA
    have hlen : n ≤ mid.length := by
      rw [hlifted'.length, hlifted.length]
      exact hn
    obtain ⟨out, hout, hsorted⟩ := deinterleave_eq hlen hhalf
    refine ⟨out, ?_, hsorted.bounded hsmall⟩
    rw [dwt53Forward1d, if_neg hshort, hhigh]
    show (liftCells _ _ _ _ high).bind _ = _
    rw [hmid]
    exact hout

end OneDimension

section Levels

variable {coeffs : List Int32} {stride w h A : Nat}

theorem mapColumns_bounded {rows B : Nat} {f : List Int32 → Option (List Int32)}
    {place : Nat → Nat → Nat} {keys : List Nat} (hapart : Apart rows place keys coeffs.length)
    (hlength : ∀ col out, f col = some out → out.length = col.length)
    (hf : ∀ col, col.length = rows → Bounded A col → ∃ out, f col = some out ∧ Bounded B out)
    (hAB : A ≤ B) (hcoeffs : Bounded A coeffs) :
    ∃ out, mapColumns rows f place keys coeffs = some out ∧ Bounded B out := by
  have hcolumn : ∀ key ∈ keys, ∃ out, (readColumn rows (place key) coeffs).bind f = some out ∧
      Bounded B out := by
    intro key hkey
    obtain ⟨col, hcol⟩ := readColumn_isSome (hapart.lt key hkey)
    obtain ⟨hlen, hget⟩ := mapM_range_eq_some.1 hcol
    rw [hcol]
    refine hf col hlen fun z v hv => ?_
    have hz := (List.getElem?_eq_some_iff.1 hv).1
    exact hcoeffs (place key z) v (by rw [hget z (by omega), hv])
  obtain ⟨out, hout, hmapped⟩ := hapart.mapColumns hlength fun key hkey => by
    obtain ⟨out, hout, -⟩ := hcolumn key hkey
    exact ⟨out, hout⟩
  refine ⟨out, hout, fun i v hv => ?_⟩
  by_cases hi : ∀ key ∈ keys, ∀ z < rows, i ≠ place key z
  · rw [hmapped.rest i hi] at hv
    exact Nat.le_trans (hcoeffs i v hv) hAB
  · simp only [not_forall, Classical.not_not] at hi
    obtain ⟨key, hkey, z, hz, hiz⟩ := hi
    obtain ⟨col, hcol, hsmall⟩ := hcolumn key hkey
    rw [hmapped.column key hkey] at hcol
    rw [hiz, getElem?_of_readColumn hcol hz] at hv
    exact hsmall z v hv

theorem dwt53Forward2d_bounded (checks : Bool) (hw : w ≤ stride)
    (hsize : h * stride ≤ coeffs.length)
    (hwide : w ≤ 2 * MAX_HALF) (hhigh : h ≤ MAX_COL) (hA : A < 2 ^ 27)
    (hcoeffs : Bounded A coeffs) :
    ∃ out, dwt53Forward2d checks coeffs stride w h = some out ∧ Bounded (4 * A) out := by
  obtain ⟨mid, hmid, hmidA⟩ := mapColumns_bounded (apart_rows hw hsize)
    (fun _ _ hrow => length_dwt53Forward1d hrow)
    (fun row hrow hsmall => dwt53Forward1d_bounded hsmall (by omega) (Nat.le_of_eq hrow.symm)
      (by omega)) (B := 2 * A) (by omega) hcoeffs
  obtain ⟨out, hout, houtA⟩ := mapColumns_bounded (f := inColumn (dwt53Forward1d checks) h)
    (apart_columns hw (by rw [length_mapColumns hmid]; exact hsize))
    (fun _ _ hcol => length_dwt53Forward1d (inColumn_eq hcol).2)
    (fun col hcol hsmall => by
      rw [inColumn, if_neg (Nat.not_lt.2 hhigh)]
      exact dwt53Forward1d_bounded hsmall (by omega) (Nat.le_of_eq hcol.symm)
        (by unfold MAX_COL at hhigh; unfold MAX_HALF; omega)) (B := 2 * (2 * A)) (by omega) hmidA
  exact ⟨out, by rw [dwt53Forward2d, hmid]; exact hout, houtA.mono (by omega)⟩

theorem forwardLevels_bounded (checks : Bool) (levels : Nat) (hw : w ≤ stride)
    (hsize : h * stride ≤ coeffs.length)
    (hwide : w ≤ 2 * MAX_HALF) (hhigh : h ≤ MAX_COL) (hA : A * 4 ^ levels < 2 ^ 29)
    (hcoeffs : Bounded A coeffs) :
    ∃ out, forwardLevels checks stride levels coeffs w h = some out ∧
      Bounded (A * 4 ^ levels) out := by
  induction levels generalizing coeffs w h A with
  | zero => exact ⟨coeffs, rfl, by rwa [Nat.pow_zero, Nat.mul_one]⟩
  | succ levels ih =>
    have hpow : A * 4 ^ (levels + 1) = 4 * A * 4 ^ levels := by
      rw [Nat.pow_succ, Nat.mul_comm 4 A, Nat.mul_assoc, Nat.mul_comm 4]
    have hone : 4 * A * 1 ≤ 4 * A * 4 ^ levels := Nat.mul_le_mul_left _ (Nat.pow_pos (by decide))
    rw [hpow] at hA ⊢
    obtain ⟨mid, hmid, hmidA⟩ := dwt53Forward2d_bounded checks hw hsize hwide hhigh
      (by omega) hcoeffs
    have hhalf : h / 2 * stride ≤ h * stride := Nat.mul_le_mul_right _ (Nat.div_le_self h 2)
    obtain ⟨out, hout, houtA⟩ := ih (w := w / 2) (h := h / 2) (by omega)
      (by rw [length_dwt53Forward2d hmid]; omega) (by omega) (by omega) hA hmidA
    exact ⟨out, by rw [forwardLevels, hmid]; exact hout, houtA⟩

/-! ## Results -/

/-- The transform loses nothing, whether sums are checked or wrap around, and whatever the image
holds: where the forward transform returns, the inverse one gives the image back. -/
theorem dwtInverse3level_forward {out : List Int32} (checks : Bool) (hw : w ≤ stride)
    (hsize : h * stride ≤ coeffs.length) (hwide : STRIP_HEIGHT ∣ w) (hhigh : STRIP_HEIGHT ∣ h)
    (hrun : dwtForward3level checks coeffs stride w h = some out) :
    out.length = coeffs.length ∧ dwtInverse3level checks out stride w h = some coeffs :=
  ⟨length_forwardLevels hrun, forwardLevels_undo hw hsize hwide hhigh hrun⟩

/-- Neighbours differ in value and in sign. -/
def coarse : List Int32 := (List.range 64).map fun i => Int32.ofInt (i * i * 7 % 509 - 254)

theorem dwtInverse3level_forward_block : ∃ out,
    dwtForward3level true coarse 8 8 8 = some out ∧
      (out.length = coarse.length ∧ dwtInverse3level true out 8 8 8 = some coarse) := by
  have hall : ∀ v ∈ coarse, v.toInt.natAbs ≤ 254 := List.forall_mem_map.2 (by decide)
  obtain ⟨out, hout, -⟩ := forwardLevels_bounded true DWT_LEVELS (w := 8) (h := 8)
    (Nat.le_refl 8) (by decide) (by decide) (by decide) (by decide)
    fun i v hv => hall v (List.mem_of_getElem? hv)
  exact ⟨out, hout, dwtInverse3level_forward true (Nat.le_refl 8) (by decide) (by decide)
    (by decide) hout⟩

end Levels

end Ccsds122
end Compression
end Leodos
