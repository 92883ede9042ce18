/-
The tiles of a frame and what the receiver gets of them.

Along either axis a tile has its own stretch of the frame and a border on both sides,
as far as the frame goes (`Span`).  The receiver takes the border before the stretch
for the whole of both borders, unless the tile lies closer to the edge than that.
-/
import Leodos.Analysis.Frame

namespace Leodos
namespace Analysis

open Memory

/-! ## One axis -/

/-- Tile `i` of an axis. -/
structure Span where
  origin : Nat
  inner : Nat
  start : Nat
  stop : Nat

def spanCount (size tileSize : Nat) : Nat := (size + tileSize - 1) / tileSize

def span (size tileSize overlap i : Nat) : Span where
  origin := i * tileSize
  inner := min tileSize (size - i * tileSize)
  start := i * tileSize - overlap
  stop := min (i * tileSize + min tileSize (size - i * tileSize) + overlap) size

namespace Span

def before (s : Span) : Nat := s.origin - s.start

def guessed (s : Span) : Nat := min (s.stop - s.start - s.inner) s.origin

/-- A stretch of a frame of `size` pixels with its borders. -/
structure Inside (s : Span) (size tileSize overlap : Nat) : Prop where
  start_le : s.start ≤ s.origin
  inner_pos : 0 < s.inner
  inner_le : s.origin + s.inner ≤ s.stop
  stop_le : s.stop ≤ size
  width_le : s.stop - s.start ≤ tileSize + 2 * overlap

end Span

section Axis

variable {size tileSize overlap i : Nat}

theorem origin_lt (hT : 0 < tileSize) (hi : i < spanCount size tileSize) :
    i * tileSize < size := by
  have hle := (Nat.le_div_iff_mul_le hT).1 (Nat.succ_le_of_lt hi)
  rw [Nat.succ_mul] at hle
  omega

theorem lt_spanCount (hT : 0 < tileSize) (hi : i * tileSize < size) :
    i < spanCount size tileSize := by
  refine (Nat.le_div_iff_mul_le hT).2 ?_
  rw [Nat.succ_mul]
  omega

theorem inside_span (hT : 0 < tileSize) (hi : i < spanCount size tileSize) :
    (span size tileSize overlap i).Inside size tileSize overlap := by
  have ho := origin_lt hT hi
  constructor <;> simp only [span] <;> omega

theorem mem_span_iff (overlap i : Nat) (hT : 0 < tileSize) {v : Nat} (hv : v < size) :
    ((span size tileSize overlap i).origin ≤ v ∧
      v < (span size tileSize overlap i).origin + (span size tileSize overlap i).inner) ↔
        i = v / tileSize := by
  have hmod := Nat.mod_lt v hT
  have hdiv := Nat.div_add_mod v tileSize
  rw [Nat.mul_comm] at hdiv
  simp only [span]
  constructor
  · rintro ⟨hlo, hhi⟩
    refine (Nat.div_eq_of_lt_le hlo ?_).symm
    rw [Nat.succ_mul]
    omega
  · rintro rfl
    omega

theorem guessed_eq_iff (hT : 0 < tileSize) (hi : i < spanCount size tileSize) :
    (span size tileSize overlap i).guessed = (span size tileSize overlap i).before ↔
      i * tileSize + tileSize ≥ size ∨ i * tileSize ≤ overlap ∨ overlap = 0 := by
  have ho := origin_lt hT hi
  simp only [Span.guessed, Span.before, span]
  generalize i * tileSize = p at ho ⊢
  by_cases hlast : size ≤ p + tileSize
  · have hinner : min tileSize (size - p) = size - p := Nat.min_eq_right (by omega)
    have hstop : min (p + (size - p) + overlap) size = size := Nat.min_eq_right (by omega)
    have hguess : size - (p - overlap) - (size - p) = p - (p - overlap) := by omega
    rw [hinner, hstop, hguess]
    exact iff_of_true (Nat.min_eq_left (Nat.sub_le _ _)) (.inl hlast)
  · have hinner : min tileSize (size - p) = tileSize := Nat.min_eq_left (by omega)
    rw [hinner]
    by_cases hnear : p ≤ overlap
    · have hstart : p - overlap = 0 := Nat.sub_eq_zero_of_le hnear
      rw [hstart]
      omega
    · have hbefore : p - (p - overlap) = overlap := by omega
      rw [hbefore]
      omega

theorem forall_guessed_eq_iff (hT : 0 < tileSize) :
    (∀ i < spanCount size tileSize,
      (span size tileSize overlap i).guessed = (span size tileSize overlap i).before) ↔
        overlap = 0 ∨ (spanCount size tileSize - 2) * tileSize ≤ overlap := by
  constructor
  · intro h
    by_cases hfew : spanCount size tileSize ≤ 2
    · rw [Nat.sub_eq_zero_of_le hfew, Nat.zero_mul]
      exact Or.inr (Nat.zero_le overlap)
    · have hi : spanCount size tileSize - 2 < spanCount size tileSize := by omega
      have hnext := origin_lt hT (show spanCount size tileSize - 2 + 1 < spanCount size tileSize by
        omega)
      rw [Nat.succ_mul] at hnext
      have hguess := (guessed_eq_iff hT hi).1 (h _ hi)
      omega
  · intro h i hi
    rw [guessed_eq_iff hT hi]
    by_cases hlast : i * tileSize + tileSize ≥ size
    · exact Or.inl hlast
    · have hnext : i + 1 < spanCount size tileSize := by
        refine lt_spanCount hT ?_
        rw [Nat.succ_mul]
        omega
      have hle := Nat.mul_le_mul_right tileSize (show i ≤ spanCount size tileSize - 2 by omega)
      omega

end Axis

/-! ## The tiles of a frame -/

def crossing (sx sy : Span) : OverlapTile where
  x := sx.start
  y := sy.start
  width := sx.stop - sx.start
  height := sy.stop - sy.start
  innerX := sx.before
  innerY := sy.before
  innerW := sx.inner
  innerH := sy.inner
  frameX := sx.origin
  frameY := sy.origin

theorem checkedSub_of_le {a b : Nat} (h : b ≤ a) : checkedSub a b = some (a - b) := if_pos h

theorem TileIter.geometry_eq (it : TileIter) {col row : Nat} (hT : 0 < it.tileSize)
    (hcol : col < spanCount it.frameWidth it.tileSize)
    (hrow : row < spanCount it.frameHeight it.tileSize) :
    it.geometry col row =
      some (crossing (span it.frameWidth it.tileSize it.overlap col)
        (span it.frameHeight it.tileSize it.overlap row)) := by
  have hx : (span it.frameWidth it.tileSize it.overlap col).Inside _ _ _ := inside_span hT hcol
  have hy : (span it.frameHeight it.tileSize it.overlap row).Inside _ _ _ := inside_span hT hrow
  have hox := Nat.le_of_lt (origin_lt hT hcol)
  have hoy := Nat.le_of_lt (origin_lt hT hrow)
  have hwidth := Nat.le_trans hx.start_le (Nat.le_trans (Nat.le_add_right _ _) hx.inner_le)
  have hheight := Nat.le_trans hy.start_le (Nat.le_trans (Nat.le_add_right _ _) hy.inner_le)
  have hbx := hx.start_le
  have hby := hy.start_le
  simp only [span] at hwidth hheight hbx hby
  simp only [TileIter.geometry, checkedSub_of_le hox, checkedSub_of_le hoy,
    checkedSub_of_le hwidth, checkedSub_of_le hheight, checkedSub_of_le hbx, checkedSub_of_le hby,
    Option.bind_eq_bind, Option.bind_some]
  rfl

section Frame

variable (f : Frame) (tileSize overlap : Nat)

def Frame.cols : Nat := spanCount f.width tileSize

def Frame.rows : Nat := spanCount f.height tileSize

def Frame.spanX (col : Nat) : Span := span f.width tileSize overlap col

def Frame.spanY (row : Nat) : Span := span f.height tileSize overlap row

/-- The tile in column `col` and row `row`. -/
def Frame.tileAt (col row : Nat) : DualBandTile where
  geo := crossing (f.spanX tileSize overlap col) (f.spanY tileSize overlap row)
  mwir := f.mwir
  lwir := f.lwir
  frameWidth := f.width
  nadirLat := 0
  nadirLon := 0
  gsd := 0
  timestampS := 0

/-- The iterator in front of tile `index`. -/
def Frame.iterAt (index : Nat) : TileIter where
  mwir := f.mwir
  lwir := f.lwir
  frameWidth := f.width
  frameHeight := f.height
  tileSize := tileSize
  overlap := overlap
  nadirLat := 0
  nadirLon := 0
  gsd := 0
  timestampS := 0
  cols := f.cols tileSize
  total := f.cols tileSize * f.rows tileSize
  index := index

def Frame.tileList : List DualBandTile :=
  (List.range (f.cols tileSize * f.rows tileSize)).map fun index =>
    f.tileAt tileSize overlap (index % f.cols tileSize) (index / f.cols tileSize)

variable {f tileSize overlap}

theorem Frame.tiles_eq (hT : 0 < tileSize) :
    f.tiles tileSize overlap = some (f.iterAt tileSize overlap 0) :=
  if_neg (Nat.ne_of_gt hT)

theorem Frame.index_lt {index : Nat} (h : index < f.cols tileSize * f.rows tileSize) :
    index % f.cols tileSize < f.cols tileSize ∧ index / f.cols tileSize < f.rows tileSize := by
  have hpos : 0 < f.cols tileSize := Nat.pos_of_ne_zero fun hz => by
    rw [hz, Nat.zero_mul] at h
    exact Nat.not_lt_zero _ h
  exact ⟨Nat.mod_lt _ hpos, Nat.div_lt_of_lt_mul h⟩

theorem Frame.next_iterAt (hT : 0 < tileSize) {index : Nat}
    (h : index < f.cols tileSize * f.rows tileSize) :
    (f.iterAt tileSize overlap index).next =
      some (some (f.tileAt tileSize overlap (index % f.cols tileSize) (index / f.cols tileSize)),
        f.iterAt tileSize overlap (index + 1)) := by
  obtain ⟨hcol, hrow⟩ := Frame.index_lt h
  have hgeo := (f.iterAt tileSize overlap index).geometry_eq hT hcol hrow
  have hgo : ¬ (f.iterAt tileSize overlap index).index ≥
      (f.iterAt tileSize overlap index).total := Nat.not_le_of_lt h
  unfold TileIter.next
  rw [if_neg hgo]
  show Option.map _ ((f.iterAt tileSize overlap index).geometry (index % f.cols tileSize)
    (index / f.cols tileSize)) = _
  rw [hgeo]
  rfl

/-- The iterator yields the tiles from `index` on and then nothing. -/
theorem Frame.collect_iterAt (hT : 0 < tileSize) (k index : Nat)
    (h : index + k = f.cols tileSize * f.rows tileSize) :
    TileIter.collect (k + 1) (f.iterAt tileSize overlap index) =
      some ((List.range' index k).map fun index =>
        f.tileAt tileSize overlap (index % f.cols tileSize) (index / f.cols tileSize)) := by
  induction k generalizing index with
  | zero =>
    have hend : (f.iterAt tileSize overlap index).next =
        some (none, f.iterAt tileSize overlap index) := if_pos (Nat.le_of_eq h.symm)
    rw [TileIter.collect, hend]
    rfl
  | succ k ih =>
    rw [TileIter.collect, Frame.next_iterAt hT (by omega)]
    simp only [ih (index + 1) (by omega), Option.map_some, List.range'_succ, List.map_cons]

theorem Frame.collect_tiles (hT : 0 < tileSize) {it : TileIter}
    (hit : f.tiles tileSize overlap = some it) :
    it.collect (it.total + 1) = some (f.tileList tileSize overlap) := by
  rw [Frame.tiles_eq hT] at hit
  obtain rfl := Option.some.inj hit
  rw [Frame.tileList, List.range_eq_range']
  exact Frame.collect_iterAt hT _ 0 (Nat.zero_add _)

end Frame

end Analysis
end Leodos
