/-
Fire detection on a received tile, `thermal.rs`, down to its indices.

`Floats` stands for the floating-point operations; whatever they compute, the indices and the
sums of sizes are the same.  `none` is a panic.  What the detection finds is what it finds with
the temperature test as a black box.
-/
import Leodos.Analysis.Coverage
import Mathlib.Data.Rat.Init

namespace Leodos
namespace Analysis
namespace Thermal

open Memory

/-- The operations on `f32` and `f64`, on bit patterns. -/
structure Floats where
  lit32 : ℚ → Pixel
  lt32 : Pixel → Pixel → Bool
  le32 : Pixel → Pixel → Bool
  add32 : Pixel → Pixel → Pixel
  sub32 : Pixel → Pixel → Pixel
  mul32 : Pixel → Pixel → Pixel
  div32 : Pixel → Pixel → Pixel
  max32 : Pixel → Pixel → Pixel
  min32 : Pixel → Pixel → Pixel
  sqrt32 : Pixel → Pixel
  lit64 : ℚ → BitVec 64
  ofNat64 : Nat → BitVec 64
  add64 : BitVec 64 → BitVec 64 → BitVec 64
  sub64 : BitVec 64 → BitVec 64 → BitVec 64
  mul64 : BitVec 64 → BitVec 64 → BitVec 64
  div64 : BitVec 64 → BitVec 64 → BitVec 64
  max64 : BitVec 64 → BitVec 64 → BitVec 64
  widen : Pixel → BitVec 64
  narrow : BitVec 64 → Pixel
  deriving Inhabited

structure FireThresholds where
  t4Abs : Pixel
  dt4Threshold : Pixel
  dt4T11Threshold : Pixel
  t4T11Abs : Pixel
  minBgCount : Nat
  bgRadius : Nat
  bgMaxT4 : Pixel
  deriving Inhabited

structure Background where
  meanT4 : Pixel
  stdT4 : Pixel
  meanDt : Pixel
  stdDt : Pixel
  count : Nat

/-- The sums over the window around a pixel. -/
structure Sums where
  sumT4 : BitVec 64
  sumT4Sq : BitVec 64
  sumDt : BitVec 64
  sumDtSq : BitVec 64
  n : Nat

/-- What a hotspot holds beside its place and its temperatures. -/
structure Findings where
  dt4 : Pixel
  dt4T11 : Pixel
  frp : Pixel
  confidence : Pixel

def usizeAdd (a b : Nat) : Option Nat := if a + b < 2 ^ 64 then some (a + b) else none

section Detection

variable (fl : Floats) (thresholds : FireThresholds) (t4 t11 : List Pixel) (width height : Nat)

/-- One pixel of the window around `(cx, cy)`. -/
def scan (cx cy : Nat) (s : Sums) (p : Nat × Nat) : Option Sums :=
  if p.1 = cx ∧ p.2 = cy then some s
  else do
    let idx := p.2 * width + p.1
    let v4 ← t4[idx]?
    if fl.lt32 thresholds.bgMaxT4 v4 || fl.le32 v4 (fl.lit32 0) then some s
    else
      let dt := fl.sub32 v4 (← t11[idx]?)
      some
        { sumT4 := fl.add64 s.sumT4 (fl.widen v4)
          sumT4Sq := fl.add64 s.sumT4Sq (fl.mul64 (fl.widen v4) (fl.widen v4))
          sumDt := fl.add64 s.sumDt (fl.widen dt)
          sumDtSq := fl.add64 s.sumDtSq (fl.mul64 (fl.widen dt) (fl.widen dt))
          n := s.n + 1 }

def window (x0 x1 y0 y1 : Nat) : List (Nat × Nat) :=
  (List.range' y0 (y1 - y0)).flatMap fun y => (List.range' x0 (x1 - x0)).map fun x => (x, y)

def summarise (s : Sums) : Background :=
  if s.n = 0 then ⟨fl.lit32 0, fl.lit32 0, fl.lit32 0, fl.lit32 0, 0⟩
  else
    let nf := fl.ofNat64 s.n
    let meanT4 := fl.div64 s.sumT4 nf
    let varT4 := fl.sub64 (fl.div64 s.sumT4Sq nf) (fl.mul64 meanT4 meanT4)
    let meanDt := fl.div64 s.sumDt nf
    let varDt := fl.sub64 (fl.div64 s.sumDtSq nf) (fl.mul64 meanDt meanDt)
    { meanT4 := fl.narrow meanT4
      stdT4 := fl.sqrt32 (fl.narrow (fl.max64 varT4 (fl.lit64 0)))
      meanDt := fl.narrow meanDt
      stdDt := fl.sqrt32 (fl.narrow (fl.max64 varDt (fl.lit64 0)))
      count := s.n }

def computeBackground (cx cy : Nat) : Option Background := do
  let r := thresholds.bgRadius
  let y0 := cy - r
  let y1 := min (← usizeAdd (← usizeAdd cy r) 1) height
  let x0 := cx - r
  let x1 := min (← usizeAdd (← usizeAdd cx r) 1) width
  let zero := fl.lit64 0
  let sums ← (window x0 x1 y0 y1).foldlM (scan fl thresholds t4 t11 width cx cy)
    ⟨zero, zero, zero, zero, 0⟩
  return summarise fl sums

def estimateFrp (t4Fire t4Bg : Pixel) : Pixel :=
  let dt := fl.sub32 t4Fire t4Bg
  fl.max32 (fl.mul32 (fl.mul32 dt dt) (fl.lit32 (1 / 1000000))) (fl.lit32 0)

/-- The pixel passes the absolute tests. -/
def isCandidate (v4 v11 : Pixel) : Bool :=
  !fl.lt32 v4 thresholds.t4Abs && !fl.lt32 (fl.sub32 v4 v11) thresholds.t4T11Abs

def judge (v4 v11 : Pixel) (bg : Background) : Option Findings :=
  let dt := fl.sub32 v4 v11
  let frp := estimateFrp fl v4 bg.meanT4
  if thresholds.minBgCount ≤ bg.count then
    let dt4 := fl.sub32 v4 bg.meanT4
    let dt4T11 := fl.sub32 dt bg.meanDt
    let t4Pass := fl.lt32 (fl.max32 thresholds.dt4Threshold (fl.mul32 (fl.lit32 3) bg.stdT4)) dt4
    let dtPass :=
      fl.lt32 (fl.max32 thresholds.dt4T11Threshold (fl.mul32 (fl.lit32 3) bg.stdDt)) dt4T11
    if !t4Pass || !dtPass then none
    else
      let conf := fl.div32
        (fl.add32 (fl.min32 (fl.div32 dt4 (fl.lit32 50)) (fl.lit32 1))
          (fl.min32 (fl.div32 dt4T11 (fl.lit32 30)) (fl.lit32 1))) (fl.lit32 2)
      some ⟨dt4, dt4T11, frp, conf⟩
  else some ⟨fl.sub32 v4 thresholds.t4Abs, dt, frp, fl.lit32 (3 / 10)⟩

/-- What the tests find at a pixel with the temperatures `v4` and `v11`. -/
def findingsAt (v4 v11 : Pixel) (x y : Nat) : Option (Option Findings) :=
  if isCandidate fl thresholds v4 v11 then
    (computeBackground fl thresholds t4 t11 width height x y).map (judge fl thresholds v4 v11)
  else some none

def hotspotAt (p : Nat × Nat) : Option (Option (Hotspot Findings)) := do
  let idx := p.2 * width + p.1
  let v4 ← t4[idx]?
  let v11 ← t11[idx]?
  let found ← findingsAt fl thresholds t4 t11 width height v4 v11 p.1 p.2
  return found.map fun rest => ⟨.ofNat p.1, .ofNat p.2, v4, v11, rest⟩

def detectFireRaw : Option (List (Hotspot Findings)) :=
  ((placesOf width height).mapM (hotspotAt fl thresholds t4 t11 width height)).map
    (·.filterMap id)

end Detection

def test (fl : Floats) (thresholds : FireThresholds) (t4 t11 : List Pixel)
    (width height x y : Nat) : Option Findings := do
  let v4 ← t4[y * width + x]?
  let v11 ← t11[y * width + x]?
  (findingsAt fl thresholds t4 t11 width height v4 v11 x y).join

/-- The hotspots of a tile with their frame coordinates, from which the location is computed. -/
def detectFire (fl : Floats) (thresholds : FireThresholds) (tile : TileMessage) :
    Option (List ((UInt16 × UInt16) × Hotspot Findings)) := do
  let found ← detectFireRaw fl thresholds tile.mwir tile.lwir tile.header.width.toNat
    tile.header.height.toNat
  let reports ← found.mapM fun hs => (tile.toFrameCoords hs.x hs.y).map fun coords =>
    coords.map (·, hs)
  return reports.filterMap id

/-! ## Loops that return -/

theorem edge_bind {α : Type} (at' r : Nat) (rest : Nat → Option α) :
    ((usizeAdd at' r).bind fun sum => (usizeAdd sum 1).bind rest) =
      if at' + r + 1 < 2 ^ 64 then rest (at' + r + 1) else none := by
  unfold usizeAdd
  by_cases h : at' + r + 1 < 2 ^ 64
  · rw [if_pos (Nat.lt_of_succ_lt h), Option.bind_some, if_pos h, Option.bind_some, if_pos h]
  · rw [if_neg h]
    by_cases h' : at' + r < 2 ^ 64
    · rw [if_pos h', Option.bind_some, if_neg h, Option.bind_none]
    · rw [if_neg h', Option.bind_none]

theorem foldlM_isSome {σ α : Type} {f : σ → α → Option σ} {l : List α}
    (h : ∀ s, ∀ a ∈ l, (f s a).isSome = true) (s : σ) : (l.foldlM f s).isSome = true := by
  induction l generalizing s with
  | nil => rfl
  | cons a l ih =>
    rw [List.foldlM_cons, Option.bind_eq_bind, Option.isSome_bind]
    have hstep := h s a List.mem_cons_self
    rw [Option.isSome_iff_exists] at hstep
    cases hstep with
    | intro s' hs' =>
      rw [hs', Option.any_some]
      exact ih (fun s a ha => h s a (List.mem_cons_of_mem _ ha)) s'

theorem mapM_isSome {α β : Type} {f : α → Option β} {l : List α} :
    (l.mapM f).isSome = true ↔ ∀ a ∈ l, (f a).isSome = true := by
  induction l with
  | nil => simp
  | cons a l ih =>
    rw [List.forall_mem_cons, ← ih, List.mapM_cons]
    cases f a with
    | none => simp
    | some b => cases l.mapM f <;> simp

/-! ## The detection on bands of the right size -/

section Bands

variable {fl : Floats} {thresholds : FireThresholds} {t4 t11 : List Pixel} {width height : Nat}

theorem index_lt {x y : Nat} (hx : x < width) (hy : y < height) :
    y * width + x < height * width := by
  have hrow := Nat.mul_le_mul_right width (Nat.succ_le_of_lt hy)
  rw [Nat.succ_mul] at hrow
  omega

theorem exists_pixel {band : List Pixel} (hlen : band.length = height * width) {x y : Nat}
    (hx : x < width) (hy : y < height) : ∃ v, band[y * width + x]? = some v :=
  ⟨_, List.getElem?_eq_getElem (hlen.symm ▸ index_lt hx hy)⟩

theorem mem_window {x0 x1 y0 y1 : Nat} {p : Nat × Nat} (hp : p ∈ window x0 x1 y0 y1) :
    p.1 < x1 ∧ p.2 < y1 := by
  simp only [window, List.mem_flatMap, List.mem_map, List.mem_range'_1] at hp
  obtain ⟨y, hy, x, hx, hxy⟩ := hp
  rw [← hxy]
  exact ⟨by omega, by omega⟩

variable (h4 : t4.length = height * width) (h11 : t11.length = height * width)

include h4 h11

theorem scan_isSome (cx cy : Nat) (s : Sums) {p : Nat × Nat} (hx : p.1 < width)
    (hy : p.2 < height) :
    (scan fl thresholds t4 t11 width cx cy s p).isSome = true := by
  obtain ⟨v4, hv4⟩ := exists_pixel h4 hx hy
  obtain ⟨v11, hv11⟩ := exists_pixel h11 hx hy
  unfold scan
  by_cases hc : p.1 = cx ∧ p.2 = cy
  · rw [if_pos hc]
    rfl
  · rw [if_neg hc]
    simp only [hv4, hv11, Option.bind_eq_bind, Option.bind_some]
    split <;> rfl

/-- The sums `cx + r + 1` and `cy + r + 1` are the only thing that can fail. -/
theorem computeBackground_isSome (cx cy : Nat) :
    (computeBackground fl thresholds t4 t11 width height cx cy).isSome = true ↔
      cx + thresholds.bgRadius + 1 < 2 ^ 64 ∧ cy + thresholds.bgRadius + 1 < 2 ^ 64 := by
  have hsums := foldlM_isSome (f := scan fl thresholds t4 t11 width cx cy)
    (l := window (cx - thresholds.bgRadius) (min (cx + thresholds.bgRadius + 1) width)
      (cy - thresholds.bgRadius) (min (cy + thresholds.bgRadius + 1) height))
    (fun s p hp => scan_isSome h4 h11 cx cy s
      (Nat.lt_of_lt_of_le (mem_window hp).1 (Nat.min_le_right _ _))
      (Nat.lt_of_lt_of_le (mem_window hp).2 (Nat.min_le_right _ _)))
    ⟨fl.lit64 0, fl.lit64 0, fl.lit64 0, fl.lit64 0, 0⟩
  rw [Option.isSome_iff_exists] at hsums
  obtain ⟨sums, hsums⟩ := hsums
  simp only [computeBackground, Option.bind_eq_bind, edge_bind, hsums]
  by_cases hy : cy + thresholds.bgRadius + 1 < 2 ^ 64
  · by_cases hx : cx + thresholds.bgRadius + 1 < 2 ^ 64
    · simp only [hx, hy, if_true, Option.bind_some, Option.pure_def, Option.isSome_some, and_self]
    · simp only [hx, hy, if_true, if_false, Option.isSome_none, false_and, Bool.false_eq_true]
  · simp only [hy, if_false, Option.isSome_none, and_false, Bool.false_eq_true]

theorem findingsAt_isSome (v4 v11 : Pixel) (x y : Nat) :
    (findingsAt fl thresholds t4 t11 width height v4 v11 x y).isSome = true ↔
      (isCandidate fl thresholds v4 v11 = true →
        x + thresholds.bgRadius + 1 < 2 ^ 64 ∧ y + thresholds.bgRadius + 1 < 2 ^ 64) := by
  have hbg : (computeBackground fl thresholds t4 t11 width height x y).isSome = true ↔ _ :=
    computeBackground_isSome h4 h11 x y
  rw [findingsAt, ← hbg]
  by_cases hc : isCandidate fl thresholds v4 v11 = true
  · rw [if_pos hc, Option.isSome_map]
    simp only [hc, true_imp_iff]
  · rw [if_neg hc]
    simp [hc]

/-- No sum overflows around the pixels that pass the absolute tests. -/
def RadiusFits (fl : Floats) (thresholds : FireThresholds) (t4 t11 : List Pixel)
    (width height : Nat) : Prop :=
  ∀ x < width, ∀ y < height, ∀ v4 v11 : Pixel, t4[y * width + x]? = some v4 →
    t11[y * width + x]? = some v11 → isCandidate fl thresholds v4 v11 = true →
      x + thresholds.bgRadius + 1 < 2 ^ 64 ∧ y + thresholds.bgRadius + 1 < 2 ^ 64

theorem detectFireRaw_isSome :
    (detectFireRaw fl thresholds t4 t11 width height).isSome = true ↔
      RadiusFits fl thresholds t4 t11 width height := by
  have hat : ∀ x < width, ∀ y < height, ∀ v4 v11 : Pixel, t4[y * width + x]? = some v4 →
      t11[y * width + x]? = some v11 →
        (hotspotAt fl thresholds t4 t11 width height (x, y)).isSome =
          (findingsAt fl thresholds t4 t11 width height v4 v11 x y).isSome := by
    intro x hx y hy v4 v11 hv4 hv11
    simp only [hotspotAt, hv4, hv11, Option.bind_eq_bind, Option.bind_some, Option.isSome_bind,
      Option.pure_def, Option.isSome_some]
    cases findingsAt fl thresholds t4 t11 width height v4 v11 x y <;> rfl
  rw [detectFireRaw, Option.isSome_map, mapM_isSome]
  constructor
  · intro h x hx y hy v4 v11 hv4 hv11
    have hp := h (x, y) (mem_placesOf.2 ⟨hx, hy⟩)
    rw [hat x hx y hy v4 v11 hv4 hv11] at hp
    exact (findingsAt_isSome h4 h11 v4 v11 x y).1 hp
  · intro h p hp
    have hin := mem_placesOf.1 hp
    obtain ⟨v4, hv4⟩ := exists_pixel h4 hin.1 hin.2
    obtain ⟨v11, hv11⟩ := exists_pixel h11 hin.1 hin.2
    rw [hat p.1 hin.1 p.2 hin.2 v4 v11 hv4 hv11]
    exact (findingsAt_isSome h4 h11 v4 v11 p.1 p.2).2 (h p.1 hin.1 p.2 hin.2 v4 v11 hv4 hv11)

theorem detectFireRaw_eq (hfits : RadiusFits fl thresholds t4 t11 width height) :
    detectFireRaw fl thresholds t4 t11 width height =
      Analysis.detectFireRaw (test fl thresholds) t4 t11 width height := by
  have hat : ∀ p ∈ placesOf width height, hotspotAt fl thresholds t4 t11 width height p =
      some (foundAt (test fl thresholds) t4 t11 width height p) := by
    intro p hp
    have hin := mem_placesOf.1 hp
    obtain ⟨v4, hv4⟩ := exists_pixel h4 hin.1 hin.2
    obtain ⟨v11, hv11⟩ := exists_pixel h11 hin.1 hin.2
    have hsome := (findingsAt_isSome h4 h11 v4 v11 p.1 p.2).2
      (hfits p.1 hin.1 p.2 hin.2 v4 v11 hv4 hv11)
    rw [Option.isSome_iff_exists] at hsome
    obtain ⟨found, hfound⟩ := hsome
    simp only [hotspotAt, foundAt, test, hv4, hv11, hfound, Option.bind_eq_bind, Option.bind_some,
      Option.pure_def, Option.join_some]
  rw [detectFireRaw, mapM_some hat, Analysis.detectFireRaw_eq _ h4 h11, Option.map_some,
    List.filterMap_map]
  rfl

end Bands

/-! ## The geometry of a header -/

section Geometry

/-- The inner part lies in the tile, and in a frame of 16-bit coordinates. -/
def Geometry (h : TileHeader) : Prop :=
  h.width.toNat = 0 ∨ h.height.toNat = 0 ∨
    (h.innerW.toNat ≤ h.width.toNat ∧ h.innerH.toNat ≤ h.height.toNat ∧
      (h.innerW.toNat = 0 ∨ h.innerH.toNat = 0 ∨
        (h.frameX.toNat + h.innerW.toNat ≤ UInt16.size ∧
          h.frameY.toNat + h.innerH.toNat ≤ UInt16.size)))

theorem add16_isSome {a b : UInt16} :
    (add16 a b).isSome = true ↔ a.toNat + b.toNat < UInt16.size := by
  unfold add16
  split <;> simp [*]

theorem sub16_isSome {a b : UInt16} : (sub16 a b).isSome = true ↔ b.toNat ≤ a.toNat := by
  unfold sub16
  split <;> simp_all [UInt16.le_iff_toNat_le]

theorem overlap_isSome {frame size inner : UInt16} :
    (TileMessage.overlap frame size inner).isSome = true ↔ inner.toNat ≤ size.toNat := by
  rw [TileMessage.overlap, Option.isSome_map, sub16_isSome]

variable {m : TileMessage}

theorem inner_le_of_isSome {x y : UInt16} (h : (m.toFrameCoords x y).isSome = true) :
    m.header.innerW.toNat ≤ m.header.width.toNat ∧
      m.header.innerH.toNat ≤ m.header.height.toNat := by
  unfold TileMessage.toFrameCoords at h
  have hx : m.overlapX.isSome = true := Option.isSome_of_isSome_bind h
  rw [Option.isSome_iff_exists] at hx
  obtain ⟨ox, hox⟩ := hx
  rw [hox, Option.bind_eq_bind, Option.bind_some] at h
  have hy : m.overlapY.isSome = true := Option.isSome_of_isSome_bind h
  exact ⟨overlap_isSome.1 (Option.isSome_of_eq_some hox), overlap_isSome.1 hy⟩

theorem toFrameCoords_isSome {gx gy : Nat}
    (hgx : gx = min (m.header.width.toNat - m.header.innerW.toNat) m.header.frameX.toNat)
    (hgy : gy = min (m.header.height.toNat - m.header.innerH.toNat) m.header.frameY.toNat)
    (hwidth : m.header.innerW.toNat ≤ m.header.width.toNat)
    (hheight : m.header.innerH.toNat ≤ m.header.height.toNat) (x y : UInt16) :
    (m.toFrameCoords x y).isSome = true ↔
      (gx ≤ x.toNat ∧ x.toNat < gx + m.header.innerW.toNat →
        gy ≤ y.toNat ∧ y.toNat < gy + m.header.innerH.toNat →
          m.header.frameX.toNat + (x.toNat - gx) < UInt16.size ∧
            m.header.frameY.toNat + (y.toNat - gy) < UInt16.size) := by
  have hsize : UInt16.size = 65536 := rfl
  have hx16 := m.header.width.toNat_lt
  have hy16 := m.header.height.toNat_lt
  have hox : (UInt16.ofNat gx).toNat = gx := UInt16.toNat_ofNat_of_lt' (by omega)
  have hoy : (UInt16.ofNat gy).toNat = gy := UInt16.toNat_ofNat_of_lt' (by omega)
  simp only [TileMessage.toFrameCoords, TileMessage.overlapX, TileMessage.overlapY,
    TileMessage.overlap_eq hwidth, TileMessage.overlap_eq hheight, ← hgx, ← hgy,
    Option.bind_eq_bind, Option.bind_some]
  rw [TileMessage.within_eq (by omega), Option.bind_some, hox]
  by_cases hx : gx ≤ x.toNat ∧ x.toNat < gx + m.header.innerW.toNat
  case neg => simp [hx]
  rw [decide_eq_true hx, TileMessage.within_eq (by omega), hoy]
  by_cases hy : gy ≤ y.toNat ∧ y.toNat < gy + m.header.innerH.toNat
  case neg => simp [hy]
  have hdx : (UInt16.ofNat (x.toNat - gx)).toNat = x.toNat - gx :=
    UInt16.toNat_ofNat_of_lt' (by omega)
  have hdy : (UInt16.ofNat (y.toNat - gy)).toNat = y.toNat - gy :=
    UInt16.toNat_ofNat_of_lt' (by omega)
  have hsx : sub16 x (.ofNat gx) = some (.ofNat (x.toNat - gx)) := by
    rw [sub16_eq (by omega), hox]
  have hsy : sub16 y (.ofNat gy) = some (.ofNat (y.toNat - gy)) := by
    rw [sub16_eq (by omega), hoy]
  have hfx : (add16 m.header.frameX (.ofNat (x.toNat - gx))).isSome = true ↔
      m.header.frameX.toNat + (x.toNat - gx) < UInt16.size := by rw [add16_isSome, hdx]
  have hfy : (add16 m.header.frameY (.ofNat (y.toNat - gy))).isSome = true ↔
      m.header.frameY.toNat + (y.toNat - gy) < UInt16.size := by rw [add16_isSome, hdy]
  rw [decide_eq_true hy, ← hfx, ← hfy]
  simp only [Option.bind_some, hsx, hsy, hx, hy, and_self, true_imp_iff]
  cases add16 m.header.frameX (.ofNat (x.toNat - gx)) with
  | none => simp
  | some fx => cases add16 m.header.frameY (.ofNat (y.toNat - gy)) <;> simp

theorem last_inside {g w width frame : Nat} (hg : g = min (width - w) frame) (hw : w ≤ width)
    (hpos : 0 < w) :
    g + w - 1 < width ∧ (g ≤ g + w - 1 ∧ g + w - 1 < g + w) ∧ g + w - 1 - g = w - 1 := by
  have hle : g + w ≤ width := Nat.add_le_of_le_sub hw (hg ▸ Nat.min_le_left _ _)
  omega

theorem fits_of_last {f w size : Nat} (h : f + (w - 1) < size) : f + w ≤ size := by
  omega

/-- The receiver's arithmetic succeeds on every pixel of the tile exactly when the header's
geometry is sound. -/
theorem toFrameCoords_isSome_iff :
    (∀ x y : UInt16, x < m.header.width → y < m.header.height →
      (m.toFrameCoords x y).isSome = true) ↔ Geometry m.header := by
  have hsize : UInt16.size = 65536 := rfl
  have hw16 := m.header.width.toNat_lt
  have hh16 := m.header.height.toNat_lt
  simp only [UInt16.lt_iff_toNat_lt]
  constructor
  · intro h
    by_cases hempty : m.header.width.toNat = 0 ∨ m.header.height.toNat = 0
    · exact hempty.elim .inl fun hh => .inr (.inl hh)
    have hzero : (0 : UInt16).toNat = 0 := rfl
    obtain ⟨hwidth, hheight⟩ := inner_le_of_isSome (h 0 0 (by omega) (by omega))
    refine .inr (.inr ⟨hwidth, hheight, ?_⟩)
    by_cases hinner : m.header.innerW.toNat = 0 ∨ m.header.innerH.toNat = 0
    · exact hinner.elim .inl fun hh => .inr (.inl hh)
    -- the last pixel of the inner part has the largest coordinates
    obtain ⟨gx, hgx⟩ : ∃ gx, gx =
        min (m.header.width.toNat - m.header.innerW.toNat) m.header.frameX.toNat := ⟨_, rfl⟩
    obtain ⟨gy, hgy⟩ : ∃ gy, gy =
        min (m.header.height.toNat - m.header.innerH.toNat) m.header.frameY.toNat := ⟨_, rfl⟩
    rw [not_or] at hinner
    obtain ⟨hltx, hinx, hoffx⟩ := last_inside hgx hwidth (Nat.pos_of_ne_zero hinner.1)
    obtain ⟨hlty, hiny, hoffy⟩ := last_inside hgy hheight (Nat.pos_of_ne_zero hinner.2)
    have hx : (UInt16.ofNat (gx + m.header.innerW.toNat - 1)).toNat =
        gx + m.header.innerW.toNat - 1 := UInt16.toNat_ofNat_of_lt' (Nat.lt_trans hltx hw16)
    have hy : (UInt16.ofNat (gy + m.header.innerH.toNat - 1)).toNat =
        gy + m.header.innerH.toNat - 1 := UInt16.toNat_ofNat_of_lt' (Nat.lt_trans hlty hh16)
    have hlast := (toFrameCoords_isSome hgx hgy hwidth hheight _ _).1
      (h (.ofNat (gx + m.header.innerW.toNat - 1)) (.ofNat (gy + m.header.innerH.toNat - 1))
        (by rwa [hx]) (by rwa [hy]))
    rw [hx, hy, hoffx, hoffy] at hlast
    have hfits := hlast hinx hiny
    exact .inr (.inr ⟨fits_of_last hfits.1, fits_of_last hfits.2⟩)
  · intro hg x y hx hy
    cases hg with
    | inl hw => omega
    | inr hg =>
    cases hg with
    | inl hh => omega
    | inr hg =>
    obtain ⟨hwidth, hheight, hframe⟩ := hg
    rw [toFrameCoords_isSome rfl rfl hwidth hheight]
    intro hinx hiny
    omega

end Geometry

/-! ## A received tile -/

section Received

def bandBytes (h : TileHeader) : Nat := h.width.toNat * h.height.toNat * 4

def read (header : TileHeader) (data : Bytes) : TileMessage where
  header
  mwir := pixels (slice data TileHeader.size (bandBytes header))
  lwir := pixels (slice data (TileHeader.size + bandBytes header) (bandBytes header))

/-- The mapper survives what it received: it answers, and its tile can be placed and searched. -/
def Survives (fl : Floats) (thresholds : FireThresholds) (aligned : Bool) (data : Bytes) : Prop :=
  ∃ answer, TileMessage.fromBytes aligned data = some answer ∧ ∀ tile, answer = some tile →
    (∀ x y : UInt16, x < tile.header.width → y < tile.header.height →
      (tile.toFrameCoords x y).isSome = true) ∧
    (detectFire fl thresholds tile).isSome = true

/-- The data holds the bands that its header announces, the geometry of an aligned one is sound,
and the windows around its candidates have bounds. -/
def Sound (fl : Floats) (thresholds : FireThresholds) (aligned : Bool) (data : Bytes) : Prop :=
  ∀ header, TileHeader.readFromPrefix data = some header →
    TileHeader.size + bandBytes header ≤ data.length ∧
      (aligned = true → TileHeader.size + 2 * bandBytes header ≤ data.length ∧ Geometry header ∧
        RadiusFits fl thresholds (read header data).mwir (read header data).lwir
          header.width.toNat header.height.toNat)

variable {fl : Floats} {thresholds : FireThresholds} {aligned : Bool} {data : Bytes}
  {header : TileHeader}

theorem length_pixels (bytes : Bytes) : (pixels bytes).length = bytes.length / 4 := by
  induction bytes using pixels.induct with
  | case1 a b c d rest ih =>
    rw [pixels, List.length_cons, ih]
    simp only [List.length_cons]
    omega
  | case2 bytes hshort =>
    have hlt : bytes.length < 4 := by
      by_contra hge
      match bytes with
      | [] | [_] | [_, _] | [_, _, _] => exact hge (by simp)
      | a :: b :: c :: d :: rest => exact hshort a b c d rest rfl
    rw [pixels, List.length_nil, Nat.div_eq_of_lt hlt]
    exact hshort

theorem length_band {off : Nat} (h : off + bandBytes header ≤ data.length) :
    (pixels (slice data off (bandBytes header))).length =
      header.height.toNat * header.width.toNat := by
  rw [length_pixels, slice_length h, bandBytes, Nat.mul_div_cancel _ (by omega), Nat.mul_comm]

theorem fromBytes_eq_ite (hread : TileHeader.readFromPrefix data = some header) :
    TileMessage.fromBytes aligned data =
      if data.length < TileHeader.size + bandBytes header then none
      else if aligned = true then
        if data.length < TileHeader.size + 2 * bandBytes header then none
        else some (some (read header data))
      else some none := by
  have hdouble : TileHeader.size + bandBytes header + bandBytes header =
      TileHeader.size + 2 * bandBytes header := by omega
  have hwhole : bandBytes header % 4 = 0 := Nat.mul_mod_left _ 4
  have hbytes : header.width.toNat * header.height.toNat * 4 = bandBytes header := rfl
  simp only [TileMessage.fromBytes, hread, hbytes, hdouble]
  by_cases h₁ : data.length < TileHeader.size + bandBytes header
  · rw [if_pos h₁, if_pos h₁]
  rw [if_neg h₁, if_neg h₁]
  have hmwir : (slice data TileHeader.size (bandBytes header)).length % 4 = 0 := by
    rw [slice_length (by omega), hwhole]
  cases aligned with
  | false => simp [TileMessage.refFromBytes]
  | true =>
    simp only [TileMessage.refFromBytes, hmwir, and_self, if_true]
    by_cases h₂ : data.length < TileHeader.size + 2 * bandBytes header
    · rw [if_pos h₂, if_pos h₂]
    have hlwir : (slice data (TileHeader.size + bandBytes header) (bandBytes header)).length % 4 =
        0 := by
      rw [slice_length (by omega), hwhole]
    simp only [if_neg h₂, hlwir]
    rfl

theorem hotspot_inside {tile : TileMessage} {found : List (Hotspot Findings)}
    (h4 : tile.mwir.length = tile.header.height.toNat * tile.header.width.toNat)
    (h11 : tile.lwir.length = tile.header.height.toNat * tile.header.width.toNat)
    (hfits : RadiusFits fl thresholds tile.mwir tile.lwir tile.header.width.toNat
      tile.header.height.toNat)
    (hfound : detectFireRaw fl thresholds tile.mwir tile.lwir tile.header.width.toNat
      tile.header.height.toNat = some found) :
    ∀ hs ∈ found, hs.x < tile.header.width ∧ hs.y < tile.header.height := by
  rw [detectFireRaw_eq h4 h11 hfits, Analysis.detectFireRaw_eq _ h4 h11,
    Option.some.injEq] at hfound
  have hsize : UInt16.size = 65536 := rfl
  intro hs hmem
  rw [← hfound, List.mem_filterMap] at hmem
  obtain ⟨p, hp, hplace⟩ := hmem
  have hin := mem_placesOf.1 hp
  have hw := tile.header.width.toNat_lt
  have hh := tile.header.height.toNat_lt
  obtain ⟨hx, hy⟩ := foundAt_place hplace
  rw [hx, hy, UInt16.lt_iff_toNat_lt, UInt16.lt_iff_toNat_lt,
    UInt16.toNat_ofNat_of_lt' (by omega), UInt16.toNat_ofNat_of_lt' (by omega)]
  exact hin

theorem detectFire_isSome {tile : TileMessage}
    (h4 : tile.mwir.length = tile.header.height.toNat * tile.header.width.toNat)
    (h11 : tile.lwir.length = tile.header.height.toNat * tile.header.width.toNat)
    (hgeometry : Geometry tile.header) :
    (detectFire fl thresholds tile).isSome = true ↔
      RadiusFits fl thresholds tile.mwir tile.lwir tile.header.width.toNat
        tile.header.height.toNat := by
  rw [← detectFireRaw_isSome h4 h11]
  constructor
  · intro h
    exact Option.isSome_of_isSome_bind h
  · intro h
    have hfits := (detectFireRaw_isSome h4 h11).1 h
    rw [Option.isSome_iff_exists] at h
    obtain ⟨found, hfound⟩ := h
    have hinside := hotspot_inside h4 h11 hfits hfound
    have hplaced := toFrameCoords_isSome_iff.2 hgeometry
    have hreports : (found.mapM fun hs => (tile.toFrameCoords hs.x hs.y).map fun coords =>
        coords.map (·, hs)).isSome = true := by
      rw [mapM_isSome]
      intro hs hmem
      rw [Option.isSome_map]
      exact hplaced hs.x hs.y (hinside hs hmem).1 (hinside hs hmem).2
    simp only [detectFire, hfound, Option.bind_eq_bind, Option.bind_some, Option.isSome_bind]
    rw [Option.isSome_iff_exists] at hreports
    obtain ⟨reports, hreports⟩ := hreports
    simp only [hreports, Option.any_some, Option.pure_def, Option.isSome_some]

/-- A mapper survives exactly the tiles that are sound. -/
theorem survives_iff_sound (fl : Floats) (thresholds : FireThresholds) (aligned : Bool)
    (data : Bytes) :
    Survives fl thresholds aligned data ↔ Sound fl thresholds aligned data := by
  cases hread : TileHeader.readFromPrefix data with
  | none =>
    constructor
    · intro _ header hheader
      rw [hread] at hheader
      cases hheader
    · intro _
      refine ⟨none, ?_, fun tile htile => by cases htile⟩
      simp only [TileMessage.fromBytes, hread]
  | some header =>
    have hsound : Sound fl thresholds aligned data ↔
        TileHeader.size + bandBytes header ≤ data.length ∧
          (aligned = true → TileHeader.size + 2 * bandBytes header ≤ data.length ∧
            Geometry header ∧ RadiusFits fl thresholds (read header data).mwir
              (read header data).lwir header.width.toNat header.height.toNat) := by
      simp only [Sound, hread, Option.some.injEq, forall_eq']
    rw [hsound, Survives, fromBytes_eq_ite hread]
    by_cases h₁ : data.length < TileHeader.size + bandBytes header
    · simp [h₁, Nat.not_le_of_lt h₁]
    cases aligned with
    | false => simp [h₁, Nat.le_of_not_lt h₁]
    | true =>
    by_cases h₂ : data.length < TileHeader.size + 2 * bandBytes header
    · simp [h₁, h₂, Nat.not_le_of_lt h₂]
    have hmwir : TileHeader.size + bandBytes header ≤ data.length := by omega
    have hlwir : TileHeader.size + bandBytes header + bandBytes header ≤ data.length := by omega
    have hplaced : (∀ x y : UInt16, x < (read header data).header.width →
        y < (read header data).header.height →
          ((read header data).toFrameCoords x y).isSome = true) ↔ Geometry header :=
      toFrameCoords_isSome_iff
    have hfire : Geometry header → ((detectFire fl thresholds (read header data)).isSome = true ↔
        RadiusFits fl thresholds (read header data).mwir (read header data).lwir
          header.width.toNat header.height.toNat) :=
      @detectFire_isSome fl thresholds (read header data) (length_band hmwir) (length_band hlwir)
    simp only [if_neg h₁, if_neg h₂, if_true, Option.some.injEq, exists_eq_left', forall_eq',
      hplaced, hmwir, Nat.le_of_not_lt h₂, true_and, true_imp_iff]
    exact and_congr_right hfire

def onePixel : TileHeader := ⟨0, 0, 1, 1, 1, 1, 0, 0, 0, 0⟩

/-- A tile of one pixel whose inner part is two pixels wide. -/
def wideInner : TileHeader := ⟨0, 0, 1, 1, 2, 1, 0, 0, 0, 0⟩

/-- A header without its pixels panics in the parser, and a whole tile in the placement. -/
theorem not_survives :
    (∀ fl thresholds aligned, ¬ Survives fl thresholds aligned (onePixel.asBytes ++ [])) ∧
      ∀ fl thresholds, ¬ Survives fl thresholds true (wideInner.asBytes ++ List.replicate 8 0) := by
  constructor
  · intro fl thresholds aligned h
    obtain ⟨answer, hanswer, -⟩ := h
    rw [fromBytes_eq_ite (readFromPrefix_asBytes onePixel []),
      if_pos (by simp [length_asBytes, onePixel, bandBytes])] at hanswer
    cases hanswer
  · intro fl thresholds h
    obtain ⟨answer, hanswer, hplaced⟩ := h
    rw [fromBytes_eq_ite (readFromPrefix_asBytes wideInner (List.replicate 8 0)),
      if_neg (by simp [length_asBytes, wideInner, bandBytes]), if_pos rfl,
      if_neg (by simp [length_asBytes, wideInner, bandBytes])] at hanswer
    have hfirst := (hplaced _ (Option.some.inj hanswer).symm).1 0 0 (by decide) (by decide)
    have hwide := (inner_le_of_isSome hfirst).1
    exact absurd hwide (by decide)

end Received

end Thermal
end Analysis
end Leodos
