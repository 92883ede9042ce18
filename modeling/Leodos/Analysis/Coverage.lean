/-
Where the receiver places the pixels of its tiles.

Each pixel of the frame is placed by one tile only, whatever the overlap.  It is the
pixel that the tile holds there when the receiver guesses the borders right, and that
fails for a tile with neighbours on both sides that begins farther from the edge than
the overlap.
-/
import Leodos.Analysis.Tiles
import Leodos.Analysis.Wire
import Mathlib.Data.List.Nodup
import Mathlib.Logic.ExistsUnique

namespace Leodos
namespace Analysis

open Memory

/-! ## A frame on its way -/

def Frame.produced (f : Frame) (tileSize overlap : Nat) : Option (List DualBandTile) :=
  match f.tiles tileSize overlap with
  | none => none
  | some it => it.collect (it.total + 1)

/-- A tile through a buffer of the sender, aligned at the receiver. -/
def DualBandTile.send (buf : Bytes) (t : DualBandTile) : Option TileMessage :=
  match t.writeTo buf with
  | none => none
  | some (buf, n) => (TileMessage.fromBytes true (buf.take n)).join

def Frame.sent (f : Frame) (tileSize overlap : Nat) (buf : Bytes) :
    Option (List (DualBandTile × TileMessage)) :=
  match f.produced tileSize overlap with
  | none => none
  | some tiles => tiles.mapM fun t => (t.send buf).map (t, ·)

def OverlapTile.IsInner (geo : OverlapTile) (x y : UInt16) : Prop :=
  (geo.innerX ≤ x.toNat ∧ x.toNat < geo.innerX + geo.innerW) ∧
    geo.innerY ≤ y.toNat ∧ y.toNat < geo.innerY + geo.innerH

instance (geo : OverlapTile) (x y : UInt16) : Decidable (geo.IsInner x y) :=
  inferInstanceAs (Decidable (_ ∧ _))

def OverlapTile.place (geo : OverlapTile) (x y : UInt16) : UInt16 × UInt16 :=
  (.ofNat (geo.x + x.toNat), .ofNat (geo.y + y.toNat))

def OverlapTile.hotspots {β : Type} (geo : OverlapTile) (found : List (Hotspot β)) :
    List ((UInt16 × UInt16) × Hotspot β) :=
  (found.filter fun hs => geo.IsInner hs.x hs.y).map fun hs => (geo.place hs.x hs.y, hs)

/-- The message holds the pixels of the frame under the tile. -/
structure Holds (f : Frame) (t : DualBandTile) (m : TileMessage) (x y : UInt16) : Prop where
  column : t.geo.x + x.toNat < f.width
  row : t.geo.y + y.toNat < f.height
  mwir : m.mwir[y.toNat * m.header.width.toNat + x.toNat]? =
    f.mwir[(t.geo.y + y.toNat) * f.width + (t.geo.x + x.toNat)]?
  lwir : m.lwir[y.toNat * m.header.width.toNat + x.toNat]? =
    f.lwir[(t.geo.y + y.toNat) * f.width + (t.geo.x + x.toNat)]?

/-- Every pixel of the frame has one tile and keeps its coordinates. -/
structure Located (f : Frame) (sent : List (DualBandTile × TileMessage)) : Prop where
  once : ∀ fx fy : UInt16, fx.toNat < f.width → fy.toNat < f.height →
    ∃! k : Nat × UInt16 × UInt16, ∃ s, sent[k.1]? = some s ∧
      s.2.toFrameCoords k.2.1 k.2.2 = some (some (fx, fy))
  holds : ∀ s ∈ sent, ∀ x y : UInt16, x < s.2.header.width → y < s.2.header.height →
    Holds f s.1 s.2 x y
  /-- No arithmetic of the receiver overflows, and the answer is the true place. -/
  placed : ∀ s ∈ sent, ∀ x y : UInt16, s.2.toFrameCoords x y =
    some (if s.1.geo.IsInner x y then some (s.1.geo.place x y) else none)
  hotspots : ∀ {β : Type} (test : List Pixel → List Pixel → Nat → Nat → Nat → Nat → Option β),
    ∀ s ∈ sent, ∃ found,
      detectFireRaw test s.2.mwir s.2.lwir s.2.header.width.toNat s.2.header.height.toNat =
        some found ∧ detectFire test s.2 = some (s.1.geo.hotspots found)
  reportedOnce :
    ∀ {β : Type} (test : List Pixel → List Pixel → Nat → Nat → Nat → Nat → Option β),
      ((sent.flatMap fun s => (detectFire test s.2).getD []).map Prod.fst).Nodup

/-! ## The receiver's arithmetic -/

section Words

variable {a b : UInt16}

theorem add16_eq (h : a.toNat + b.toNat < UInt16.size) :
    add16 a b = some (.ofNat (a.toNat + b.toNat)) := by
  rw [add16, if_pos h, UInt16.ofNat_add, UInt16.ofNat_toNat, UInt16.ofNat_toNat]

theorem sub16_eq (h : b.toNat ≤ a.toNat) : sub16 a b = some (.ofNat (a.toNat - b.toNat)) := by
  have hsub := UInt16.toNat_sub_of_le a b h
  rw [sub16, if_pos (UInt16.le_iff_toNat_le.2 h), ← hsub, UInt16.ofNat_toNat]

end Words

namespace TileMessage

theorem overlap_eq {frame size inner : UInt16} (h : inner.toNat ≤ size.toNat) :
    overlap frame size inner = some (.ofNat (min (size.toNat - inner.toNat) frame.toNat)) := by
  have hsub := UInt16.toNat_sub_of_le size inner (UInt16.le_iff_toNat_le.2 h)
  have hborder : sub16 size inner = some (size - inner) := if_pos (UInt16.le_iff_toNat_le.2 h)
  rw [overlap, hborder, Option.map_some, ← hsub]
  by_cases hle : size - inner ≤ frame
  · have hmin : min (size - inner) frame = size - inner := if_pos hle
    rw [if_pos hle, hmin, Nat.min_eq_left (UInt16.le_iff_toNat_le.1 hle), UInt16.ofNat_toNat]
  · have hlt : frame.toNat ≤ (size - inner).toNat :=
      Nat.le_of_not_le fun hn => hle (UInt16.le_iff_toNat_le.2 hn)
    rw [if_neg hle, Nat.min_eq_right hlt, UInt16.ofNat_toNat]

theorem within_eq {start len v : UInt16} (h : start.toNat + len.toNat < UInt16.size) :
    within start len v =
      some (decide (start.toNat ≤ v.toNat ∧ v.toNat < start.toNat + len.toNat)) := by
  have hstop : (UInt16.ofNat (start.toNat + len.toNat)).toNat = start.toNat + len.toNat :=
    UInt16.toNat_ofNat_of_lt' h
  rw [within, add16_eq h, Option.map_some]
  by_cases hle : start ≤ v
  · rw [if_pos hle]
    simp only [UInt16.lt_iff_toNat_lt, hstop, UInt16.le_iff_toNat_le.1 hle, true_and]
  · have hno : ¬ start.toNat ≤ v.toNat := fun hn => hle (UInt16.le_iff_toNat_le.2 hn)
    rw [if_neg hle]
    simp only [hno, false_and, decide_false]

theorem toFrameCoords_eq {m : TileMessage} {gx gy : Nat}
    (hgx : gx = min (m.header.width.toNat - m.header.innerW.toNat) m.header.frameX.toNat)
    (hgy : gy = min (m.header.height.toNat - m.header.innerH.toNat) m.header.frameY.toNat)
    (hwidth : m.header.innerW.toNat ≤ m.header.width.toNat)
    (hheight : m.header.innerH.toNat ≤ m.header.height.toNat)
    (hright : m.header.frameX.toNat + m.header.innerW.toNat < UInt16.size)
    (hbottom : m.header.frameY.toNat + m.header.innerH.toNat < UInt16.size) (x y : UInt16) :
    m.toFrameCoords x y =
      some (if (gx ≤ x.toNat ∧ x.toNat < gx + m.header.innerW.toNat) ∧
          gy ≤ y.toNat ∧ y.toNat < gy + m.header.innerH.toNat then
        some (.ofNat (m.header.frameX.toNat + (x.toNat - gx)),
          .ofNat (m.header.frameY.toNat + (y.toNat - gy)))
      else none) := by
  have hsize : UInt16.size = 65536 := rfl
  have hx16 := m.header.width.toNat_lt
  have hy16 := m.header.height.toNat_lt
  have hox : (UInt16.ofNat gx).toNat = gx := UInt16.toNat_ofNat_of_lt' (by omega)
  have hoy : (UInt16.ofNat gy).toNat = gy := UInt16.toNat_ofNat_of_lt' (by omega)
  simp only [toFrameCoords, overlapX, overlapY, overlap_eq hwidth, overlap_eq hheight, ← hgx,
    ← hgy, Option.bind_eq_bind, Option.bind_some]
  rw [within_eq (by omega), Option.bind_some, hox]
  by_cases hx : gx ≤ x.toNat ∧ x.toNat < gx + m.header.innerW.toNat
  case neg => simp only [hx, decide_false, false_and, if_false]
  rw [decide_eq_true hx]
  rw [within_eq (by omega), hoy]
  by_cases hy : gy ≤ y.toNat ∧ y.toNat < gy + m.header.innerH.toNat
  case neg => simp only [hx, hy, decide_false, Option.bind_some, and_false, if_false]
  have hdx : (UInt16.ofNat (x.toNat - gx)).toNat = x.toNat - gx :=
    UInt16.toNat_ofNat_of_lt' (by omega)
  have hdy : (UInt16.ofNat (y.toNat - gy)).toNat = y.toNat - gy :=
    UInt16.toNat_ofNat_of_lt' (by omega)
  have hsx : sub16 x (.ofNat gx) = some (.ofNat (x.toNat - gx)) := by
    rw [sub16_eq (by omega), hox]
  have hsy : sub16 y (.ofNat gy) = some (.ofNat (y.toNat - gy)) := by
    rw [sub16_eq (by omega), hoy]
  have hax : add16 m.header.frameX (.ofNat (x.toNat - gx)) =
      some (.ofNat (m.header.frameX.toNat + (x.toNat - gx))) := by
    rw [add16_eq (by omega), hdx]
  have hay : add16 m.header.frameY (.ofNat (y.toNat - gy)) =
      some (.ofNat (m.header.frameY.toNat + (y.toNat - gy))) := by
    rw [add16_eq (by omega), hdy]
  rw [decide_eq_true hy, if_pos ⟨hx, hy⟩]
  simp only [Option.bind_some, hsx, hsy, hax, hay]

end TileMessage

/-! ## The messages of a frame -/

section Messages

variable {f : Frame} {tileSize overlap col row : Nat}

/-- The sizes for which every field of a header has room. -/
structure Sizes (f : Frame) (tileSize overlap : Nat) : Prop where
  width_pos : 1 ≤ f.width
  width_le : f.width ≤ 65535
  height_pos : 1 ≤ f.height
  height_le : f.height ≤ 65535
  tileSize_pos : 1 ≤ tileSize
  tile_le : tileSize + 2 * overlap ≤ 65535

theorem inside_spanX (hs : Sizes f tileSize overlap) (hcol : col < f.cols tileSize) :
    (f.spanX tileSize overlap col).Inside f.width tileSize overlap :=
  inside_span hs.tileSize_pos hcol

theorem inside_spanY (hs : Sizes f tileSize overlap) (hrow : row < f.rows tileSize) :
    (f.spanY tileSize overlap row).Inside f.height tileSize overlap :=
  inside_span hs.tileSize_pos hrow

theorem toNat_ofNat_le {n : Nat} (h : n ≤ 65535) : (UInt16.ofNat n).toNat = n :=
  UInt16.toNat_ofNat_of_lt' (Nat.lt_succ_of_le h)

/-- A header carries the spans of its tile. -/
structure Carries (h : TileHeader) (sx sy : Span) : Prop where
  frameX : h.frameX.toNat = sx.origin
  frameY : h.frameY.toNat = sy.origin
  width : h.width.toNat = sx.stop - sx.start
  height : h.height.toNat = sy.stop - sy.start
  innerW : h.innerW.toNat = sx.inner
  innerH : h.innerH.toNat = sy.inner

theorem carries (hs : Sizes f tileSize overlap) (hcol : col < f.cols tileSize)
    (hrow : row < f.rows tileSize) :
    Carries (f.tileAt tileSize overlap col row).header (f.spanX tileSize overlap col)
      (f.spanY tileSize overlap row) := by
  obtain ⟨hx₁, hx₂, hx₃, hx₄, -⟩ := inside_spanX hs hcol
  obtain ⟨hy₁, hy₂, hy₃, hy₄, -⟩ := inside_spanY hs hrow
  have hw := hs.width_le
  have hh := hs.height_le
  constructor <;> exact toNat_ofNat_le (by simp only [Frame.tileAt, crossing]; omega)

theorem tileAt_inside (hs : Sizes f tileSize overlap) (hcol : col < f.cols tileSize)
    (hrow : row < f.rows tileSize) {band : List Pixel} (hband : f.width * f.height ≤ band.length) :
    (f.tileAt tileSize overlap col row).Inside f.height band := by
  obtain ⟨hx₁, hx₂, hx₃, hx₄, -⟩ := inside_spanX hs hcol
  obtain ⟨hy₁, hy₂, hy₃, hy₄, -⟩ := inside_spanY hs hrow
  refine ⟨?_, ?_, hband⟩
  · show (f.spanX tileSize overlap col).start + _ ≤ f.width
    simp only [Frame.tileAt, crossing]
    omega
  · show (f.spanY tileSize overlap row).start + _ ≤ f.height
    simp only [Frame.tileAt, crossing]
    omega

theorem send_tileAt (hs : Sizes f tileSize overlap) (hcol : col < f.cols tileSize)
    (hrow : row < f.rows tileSize) {buf : Bytes}
    (hroom : (f.tileAt tileSize overlap col row).size ≤ buf.length) :
    (f.tileAt tileSize overlap col row).send buf =
      some (f.tileAt tileSize overlap col row).message := by
  have hm := tileAt_inside hs hcol hrow f.mwir_length
  have hl := tileAt_inside hs hcol hrow f.lwir_length
  have hc := carries hs hcol hrow
  obtain ⟨buf', hwrite, htake⟩ := DualBandTile.writeTo_eq hm hl hroom
  have hlen : ∀ {band : List Pixel},
      (f.tileAt tileSize overlap col row).Inside f.height band →
      ((f.tileAt tileSize overlap col row).rowsOf band).flatten.length =
        (f.tileAt tileSize overlap col row).header.width.toNat *
          (f.tileAt tileSize overlap col row).header.height.toNat := by
    intro band hin
    rw [hin.length_flatten, hc.width, hc.height]
    exact Nat.mul_comm _ _
  have hread := fromBytes_eq (m := (f.tileAt tileSize overlap col row).message) (hlen hm) (hlen hl)
  simp only [DualBandTile.message] at hread htake
  simp only [DualBandTile.send, hwrite, htake, hread]
  rfl

theorem produced_eq (hT : 0 < tileSize) :
    f.produced tileSize overlap = some (f.tileList tileSize overlap) := by
  unfold Frame.produced
  rw [Frame.tiles_eq hT]
  exact Frame.collect_tiles hT (Frame.tiles_eq hT)

theorem sent_eq (hs : Sizes f tileSize overlap) {buf : Bytes}
    (hroom : ∀ t ∈ f.tileList tileSize overlap, t.size ≤ buf.length) :
    f.sent tileSize overlap buf =
      some ((f.tileList tileSize overlap).map fun t => (t, t.message)) := by
  rw [Frame.sent, produced_eq hs.tileSize_pos]
  refine mapM_some fun t ht => ?_
  obtain ⟨index, hindex, rfl⟩ := List.mem_map.1 ht
  obtain ⟨hcol, hrow⟩ := Frame.index_lt (List.mem_range.1 hindex)
  rw [send_tileAt hs hcol hrow (hroom _ ht), Option.map_some]

def Frame.coords (f : Frame) (tileSize overlap col row : Nat) (x y : UInt16) :
    Option (UInt16 × UInt16) :=
  let sx := f.spanX tileSize overlap col
  let sy := f.spanY tileSize overlap row
  if (sx.guessed ≤ x.toNat ∧ x.toNat < sx.guessed + sx.inner) ∧
      sy.guessed ≤ y.toNat ∧ y.toNat < sy.guessed + sy.inner then
    some (.ofNat (sx.origin + (x.toNat - sx.guessed)), .ofNat (sy.origin + (y.toNat - sy.guessed)))
  else none

theorem toFrameCoords_message (hs : Sizes f tileSize overlap) (hcol : col < f.cols tileSize)
    (hrow : row < f.rows tileSize) (x y : UInt16) :
    (f.tileAt tileSize overlap col row).message.toFrameCoords x y =
      some (f.coords tileSize overlap col row x y) := by
  have hc : Carries (f.tileAt tileSize overlap col row).message.header
      (f.spanX tileSize overlap col) (f.spanY tileSize overlap row) := carries hs hcol hrow
  have hx := inside_spanX hs hcol
  have hy := inside_spanY hs hrow
  have hw := hs.width_le
  have hh := hs.height_le
  have hsize : UInt16.size = 65536 := rfl
  obtain ⟨hx₁, hx₂, hx₃, hx₄, -⟩ := hx
  obtain ⟨hy₁, hy₂, hy₃, hy₄, -⟩ := hy
  have h := TileMessage.toFrameCoords_eq
    (show (f.spanX tileSize overlap col).guessed = _ by rw [hc.width, hc.innerW, hc.frameX]; rfl)
    (show (f.spanY tileSize overlap row).guessed = _ by rw [hc.height, hc.innerH, hc.frameY]; rfl)
    (by rw [hc.width, hc.innerW]; omega)
    (by rw [hc.height, hc.innerH]; omega)
    (by rw [hc.frameX, hc.innerW]; omega)
    (by rw [hc.frameY, hc.innerH]; omega) x y
  rw [h, hc.frameX, hc.frameY, hc.innerW, hc.innerH]
  rfl

theorem coords_eq_some_iff (hs : Sizes f tileSize overlap) (hcol : col < f.cols tileSize)
    (hrow : row < f.rows tileSize) (x y fx fy : UInt16) :
    f.coords tileSize overlap col row x y = some (fx, fy) ↔
      ((f.spanX tileSize overlap col).guessed ≤ x.toNat ∧
        x.toNat < (f.spanX tileSize overlap col).guessed + (f.spanX tileSize overlap col).inner ∧
        fx.toNat = (f.spanX tileSize overlap col).origin +
          (x.toNat - (f.spanX tileSize overlap col).guessed)) ∧
      ((f.spanY tileSize overlap row).guessed ≤ y.toNat ∧
        y.toNat < (f.spanY tileSize overlap row).guessed + (f.spanY tileSize overlap row).inner ∧
        fy.toNat = (f.spanY tileSize overlap row).origin +
          (y.toNat - (f.spanY tileSize overlap row).guessed)) := by
  obtain ⟨hx₁, hx₂, hx₃, hx₄, -⟩ := inside_spanX hs hcol
  obtain ⟨hy₁, hy₂, hy₃, hy₄, -⟩ := inside_spanY hs hrow
  have hw := hs.width_le
  have hh := hs.height_le
  unfold Frame.coords
  by_cases hin : ((f.spanX tileSize overlap col).guessed ≤ x.toNat ∧
      x.toNat < (f.spanX tileSize overlap col).guessed + (f.spanX tileSize overlap col).inner) ∧
    (f.spanY tileSize overlap row).guessed ≤ y.toNat ∧
      y.toNat < (f.spanY tileSize overlap row).guessed + (f.spanY tileSize overlap row).inner
  · simp only [if_pos hin, Option.some.injEq, Prod.mk.injEq]
    rw [← UInt16.toNat_inj, ← UInt16.toNat_inj, toNat_ofNat_le (by omega),
      toNat_ofNat_le (by omega)]
    omega
  · simp only [if_neg hin, reduceCtorEq, false_iff]
    omega

theorem placed_iff {size i g v x : Nat} (hT : 0 < tileSize) (hv : v < size) :
    (g ≤ x ∧ x < g + (span size tileSize overlap i).inner ∧
      v = (span size tileSize overlap i).origin + (x - g)) ↔
    i = v / tileSize ∧ x = g + (v - (span size tileSize overlap i).origin) := by
  have hmem := mem_span_iff overlap i hT hv
  rw [← hmem]
  omega

theorem guessed_le {s : Span} {size : Nat} (h : s.Inside size tileSize overlap) :
    s.guessed + s.inner ≤ s.stop - s.start := by
  obtain ⟨h₁, h₂, h₃, h₄, -⟩ := h
  unfold Span.guessed
  omega

def Frame.messages (f : Frame) (tileSize overlap : Nat) : List (DualBandTile × TileMessage) :=
  (f.tileList tileSize overlap).map fun t => (t, t.message)

theorem getElem?_messages {index : Nat} {s : DualBandTile × TileMessage} :
    (f.messages tileSize overlap)[index]? = some s ↔
      index < f.cols tileSize * f.rows tileSize ∧
        s.1 = f.tileAt tileSize overlap (index % f.cols tileSize) (index / f.cols tileSize) ∧
        s.2 = s.1.message := by
  unfold Frame.messages Frame.tileList
  rw [List.getElem?_map, List.getElem?_map, Option.map_map, Option.map_eq_some_iff]
  constructor
  · rintro ⟨i, hi, rfl⟩
    obtain ⟨hlt, rfl⟩ := List.getElem?_eq_some_iff.1 hi
    rw [List.length_range] at hlt
    rw [List.getElem_range]
    exact ⟨hlt, rfl, rfl⟩
  · rintro ⟨hlt, h₁, h₂⟩
    refine ⟨index, List.getElem?_range hlt, ?_⟩
    rw [Function.comp_apply, ← h₁, ← h₂]

theorem mem_messages {s : DualBandTile × TileMessage} (h : s ∈ f.messages tileSize overlap) :
    ∃ col row, col < f.cols tileSize ∧ row < f.rows tileSize ∧
      s.1 = f.tileAt tileSize overlap col row ∧ s.2 = s.1.message := by
  obtain ⟨index, hindex⟩ := List.mem_iff_getElem?.1 h
  obtain ⟨hlt, h₁, h₂⟩ := getElem?_messages.1 hindex
  obtain ⟨hcol, hrow⟩ := Frame.index_lt hlt
  exact ⟨_, _, hcol, hrow, h₁, h₂⟩

theorem coords_of_pixel (hs : Sizes f tileSize overlap) {fx fy : UInt16}
    (hfx : fx.toNat < f.width) (hfy : fy.toNat < f.height) (hcol : col < f.cols tileSize)
    (hrow : row < f.rows tileSize) (x y : UInt16) :
    f.coords tileSize overlap col row x y = some (fx, fy) ↔
      (col = fx.toNat / tileSize ∧ x.toNat = (f.spanX tileSize overlap col).guessed +
        (fx.toNat - (f.spanX tileSize overlap col).origin)) ∧
      (row = fy.toNat / tileSize ∧ y.toNat = (f.spanY tileSize overlap row).guessed +
        (fy.toNat - (f.spanY tileSize overlap row).origin)) :=
  (coords_eq_some_iff hs hcol hrow x y fx fy).trans
    (and_congr (placed_iff hs.tileSize_pos hfx) (placed_iff hs.tileSize_pos hfy))

theorem index_iff {cols col row : Nat} (h : col < cols) (index : Nat) :
    index % cols = col ∧ index / cols = row ↔ index = row * cols + col := by
  constructor
  · rintro ⟨rfl, rfl⟩
    exact (Nat.div_add_mod' _ _).symm
  · rintro rfl
    refine ⟨?_, ?_⟩
    · rw [Nat.mul_comm, Nat.mul_add_mod, Nat.mod_eq_of_lt h]
    · rw [Nat.mul_comm, Nat.mul_add_div (Nat.zero_lt_of_lt h), Nat.div_eq_of_lt h, Nat.add_zero]

theorem existsUnique_place (hs : Sizes f tileSize overlap) (fx fy : UInt16)
    (hfx : fx.toNat < f.width) (hfy : fy.toNat < f.height) :
    ∃! k : Nat × UInt16 × UInt16, ∃ s, (f.messages tileSize overlap)[k.1]? = some s ∧
      s.2.toFrameCoords k.2.1 k.2.2 = some (some (fx, fy)) := by
  have hT := hs.tileSize_pos
  obtain ⟨col, hcoleq⟩ : ∃ col, col = fx.toNat / tileSize := ⟨_, rfl⟩
  obtain ⟨row, hroweq⟩ : ∃ row, row = fy.toNat / tileSize := ⟨_, rfl⟩
  have hcol : col < f.cols tileSize := by
    rw [hcoleq]
    exact lt_spanCount hT (Nat.lt_of_le_of_lt (Nat.div_mul_le_self _ _) hfx)
  have hrow : row < f.rows tileSize := by
    rw [hroweq]
    exact lt_spanCount hT (Nat.lt_of_le_of_lt (Nat.div_mul_le_self _ _) hfy)
  obtain ⟨hx, hx'⟩ := (mem_span_iff overlap col hT hfx).2 hcoleq
  obtain ⟨hy, hy'⟩ := (mem_span_iff overlap row hT hfy).2 hroweq
  have hgx := guessed_le (inside_spanX hs hcol)
  have hgy := guessed_le (inside_spanY hs hrow)
  have hwx := (inside_spanX hs hcol).stop_le
  have hwy := (inside_spanY hs hrow).stop_le
  have hw := hs.width_le
  have hh := hs.height_le
  change (f.spanX tileSize overlap col).origin ≤ fx.toNat at hx
  change fx.toNat < (f.spanX tileSize overlap col).origin + _ at hx'
  change (f.spanY tileSize overlap row).origin ≤ fy.toNat at hy
  change fy.toNat < (f.spanY tileSize overlap row).origin + _ at hy'
  obtain ⟨x, hxeq⟩ : ∃ x : UInt16, x.toNat = (f.spanX tileSize overlap col).guessed +
      (fx.toNat - (f.spanX tileSize overlap col).origin) :=
    ⟨.ofNat _, toNat_ofNat_le (by simp only [Frame.spanX] at *; omega)⟩
  obtain ⟨y, hyeq⟩ : ∃ y : UInt16, y.toNat = (f.spanY tileSize overlap row).guessed +
      (fy.toNat - (f.spanY tileSize overlap row).origin) :=
    ⟨.ofNat _, toNat_ofNat_le (by simp only [Frame.spanY] at *; omega)⟩
  obtain ⟨hmod, hdiv⟩ := (index_iff hcol (row * f.cols tileSize + col)).2 rfl
  refine ⟨(row * f.cols tileSize + col, x, y), ⟨(f.tileAt tileSize overlap col row,
    (f.tileAt tileSize overlap col row).message), getElem?_messages.2 ⟨?_, ?_, rfl⟩, ?_⟩, ?_⟩
  · have hle := Nat.mul_le_mul_right (f.cols tileSize) (Nat.succ_le_of_lt hrow)
    rw [Nat.succ_mul] at hle
    rw [Nat.mul_comm (f.cols tileSize)]
    omega
  · rw [hmod, hdiv]
  · show (f.tileAt tileSize overlap col row).message.toFrameCoords x y = _
    rw [toFrameCoords_message hs hcol hrow]
    exact congrArg some ((coords_of_pixel hs hfx hfy hcol hrow x y).2
      ⟨⟨hcoleq, hxeq⟩, hroweq, hyeq⟩)
  · rintro ⟨index, x', y'⟩ ⟨s, hget, hcoords⟩
    obtain ⟨hlt, h₁, h₂⟩ := getElem?_messages.1 hget
    obtain ⟨hcol', hrow'⟩ := Frame.index_lt hlt
    rw [h₂, h₁, toFrameCoords_message hs hcol' hrow', Option.some.injEq,
      coords_of_pixel hs hfx hfy hcol' hrow'] at hcoords
    obtain ⟨⟨hc, hxe⟩, hr, hye⟩ := hcoords
    rw [← hcoleq] at hc
    rw [← hroweq] at hr
    rw [hc] at hxe
    rw [hr] at hye
    obtain rfl := (index_iff hcol index).1 ⟨hc, hr⟩
    have hxx : x' = x := UInt16.toNat_inj.1 (hxe.trans hxeq.symm)
    have hyy : y' = y := UInt16.toNat_inj.1 (hye.trans hyeq.symm)
    rw [hxx, hyy]

theorem message_holds (hs : Sizes f tileSize overlap) {s : DualBandTile × TileMessage}
    (h : s ∈ f.messages tileSize overlap) {x y : UInt16} (hx : x < s.2.header.width)
    (hy : y < s.2.header.height) : Holds f s.1 s.2 x y := by
  obtain ⟨col, row, hcol, hrow, h₁, h₂⟩ := mem_messages h
  have hc := carries hs hcol hrow
  have hm := tileAt_inside hs hcol hrow f.mwir_length
  have hl := tileAt_inside hs hcol hrow f.lwir_length
  rw [h₂, h₁] at hx hy ⊢
  have hx' : x.toNat < (f.tileAt tileSize overlap col row).geo.width :=
    Nat.lt_of_lt_of_eq (UInt16.lt_iff_toNat_lt.1 hx) hc.width
  have hy' : y.toNat < (f.tileAt tileSize overlap col row).geo.height :=
    Nat.lt_of_lt_of_eq (UInt16.lt_iff_toNat_lt.1 hy) hc.height
  have hwidth : (f.tileAt tileSize overlap col row).message.header.width.toNat =
      (f.tileAt tileSize overlap col row).geo.width := hc.width
  refine ⟨Nat.lt_of_lt_of_le (Nat.add_lt_add_left hx' _) hm.right,
    Nat.lt_of_lt_of_le (Nat.add_lt_add_left hy' _) hm.bottom, ?_, ?_⟩
  · rw [hwidth]
    exact hm.pixel hx' hy'
  · rw [hwidth]
    exact hl.pixel hx' hy'

/-- The guesses are right for every tile. -/
def GuessesRight (f : Frame) (tileSize overlap : Nat) : Prop :=
  (∀ col < f.cols tileSize,
    (f.spanX tileSize overlap col).guessed = (f.spanX tileSize overlap col).before) ∧
  ∀ row < f.rows tileSize,
    (f.spanY tileSize overlap row).guessed = (f.spanY tileSize overlap row).before

theorem coords_place (hs : Sizes f tileSize overlap) (hguess : GuessesRight f tileSize overlap)
    (hcol : col < f.cols tileSize) (hrow : row < f.rows tileSize) (x y : UInt16) :
    f.coords tileSize overlap col row x y =
      if (f.tileAt tileSize overlap col row).geo.IsInner x y then
        some ((f.tileAt tileSize overlap col row).geo.place x y) else none := by
  have hx := (inside_spanX hs hcol).start_le
  have hy := (inside_spanY hs hrow).start_le
  simp only [Frame.coords, hguess.1 col hcol, hguess.2 row hrow]
  by_cases hin : (f.tileAt tileSize overlap col row).geo.IsInner x y
  · have hbx := hin.1.1
    have hby := hin.2.1
    change (f.spanX tileSize overlap col).origin - _ ≤ x.toNat at hbx
    change (f.spanY tileSize overlap row).origin - _ ≤ y.toNat at hby
    rw [if_pos hin]
    refine (if_pos hin).trans ?_
    simp only [OverlapTile.place, Frame.tileAt, crossing, Span.before]
    rw [show (f.spanX tileSize overlap col).origin + (x.toNat - _) =
      (f.spanX tileSize overlap col).start + x.toNat by omega,
      show (f.spanY tileSize overlap row).origin + (y.toNat - _) =
      (f.spanY tileSize overlap row).start + y.toNat by omega]
  · rw [if_neg hin]
    exact if_neg hin

theorem tileAt_mem (hcol : col < f.cols tileSize) (hrow : row < f.rows tileSize) :
    (f.tileAt tileSize overlap col row, (f.tileAt tileSize overlap col row).message) ∈
      f.messages tileSize overlap := by
  obtain ⟨hmod, hdiv⟩ := (index_iff hcol (row * f.cols tileSize + col)).2 rfl
  refine List.mem_iff_getElem?.2 ⟨row * f.cols tileSize + col, getElem?_messages.2 ⟨?_, ?_, rfl⟩⟩
  · have hle := Nat.mul_le_mul_right (f.cols tileSize) (Nat.succ_le_of_lt hrow)
    rw [Nat.succ_mul] at hle
    rw [Nat.mul_comm (f.cols tileSize)]
    omega
  · rw [hmod, hdiv]

theorem guess_of_placed (hs : Sizes f tileSize overlap) (hcol : col < f.cols tileSize)
    (hrow : row < f.rows tileSize)
    (h : ∀ x y, f.coords tileSize overlap col row x y =
      if (f.tileAt tileSize overlap col row).geo.IsInner x y then
        some ((f.tileAt tileSize overlap col row).geo.place x y) else none) :
    (f.spanX tileSize overlap col).guessed = (f.spanX tileSize overlap col).before ∧
      (f.spanY tileSize overlap row).guessed = (f.spanY tileSize overlap row).before := by
  obtain ⟨hx₁, hx₂, hx₃, hx₄, -⟩ := inside_spanX hs hcol
  obtain ⟨hy₁, hy₂, hy₃, hy₄, -⟩ := inside_spanY hs hrow
  have hgx := guessed_le (inside_spanX hs hcol)
  have hgy := guessed_le (inside_spanY hs hrow)
  have hw := hs.width_le
  have hh := hs.height_le
  obtain ⟨x, hx⟩ : ∃ x : UInt16, x.toNat = (f.spanX tileSize overlap col).guessed :=
    ⟨.ofNat _, toNat_ofNat_le (by omega)⟩
  obtain ⟨y, hy⟩ : ∃ y : UInt16, y.toNat = (f.spanY tileSize overlap row).guessed :=
    ⟨.ofNat _, toNat_ofNat_le (by omega)⟩
  obtain ⟨fx, hfx⟩ : ∃ fx : UInt16, fx.toNat = (f.spanX tileSize overlap col).origin :=
    ⟨.ofNat _, toNat_ofNat_le (by omega)⟩
  obtain ⟨fy, hfy⟩ : ∃ fy : UInt16, fy.toNat = (f.spanY tileSize overlap row).origin :=
    ⟨.ofNat _, toNat_ofNat_le (by omega)⟩
  have hfirst := (coords_eq_some_iff hs hcol hrow x y fx fy).2 (by omega)
  rw [h x y] at hfirst
  by_cases hin : (f.tileAt tileSize overlap col row).geo.IsInner x y
  case neg =>
    rw [if_neg hin] at hfirst
    cases hfirst
  rw [if_pos hin, Option.some.injEq, OverlapTile.place, Prod.mk.injEq] at hfirst
  obtain ⟨hpx, hpy⟩ := hfirst
  rw [← UInt16.toNat_inj, hfx, hx] at hpx
  rw [← UInt16.toNat_inj, hfy, hy] at hpy
  simp only [Frame.tileAt, crossing] at hpx hpy
  rw [toNat_ofNat_le (by omega)] at hpx hpy
  unfold Span.before
  omega

theorem placed_iff_guessesRight (hs : Sizes f tileSize overlap) :
    (∀ s ∈ f.messages tileSize overlap, ∀ x y : UInt16, s.2.toFrameCoords x y =
      some (if s.1.geo.IsInner x y then some (s.1.geo.place x y) else none)) ↔
        GuessesRight f tileSize overlap := by
  have hT := hs.tileSize_pos
  have hcols : 0 < f.cols tileSize := lt_spanCount hT (by rw [Nat.zero_mul]; exact hs.width_pos)
  have hrows : 0 < f.rows tileSize := lt_spanCount hT (by rw [Nat.zero_mul]; exact hs.height_pos)
  constructor
  · intro h
    have hplaced : ∀ col row, col < f.cols tileSize → row < f.rows tileSize →
        ∀ x y, f.coords tileSize overlap col row x y =
          if (f.tileAt tileSize overlap col row).geo.IsInner x y then
            some ((f.tileAt tileSize overlap col row).geo.place x y) else none := by
      intro col row hcol hrow x y
      have hxy := h _ (tileAt_mem hcol hrow) x y
      rw [toFrameCoords_message hs hcol hrow] at hxy
      exact Option.some.inj hxy
    exact ⟨fun col hcol => (guess_of_placed hs hcol hrows (hplaced col 0 hcol hrows)).1,
      fun row hrow => (guess_of_placed hs hcols hrow (hplaced 0 row hcols hrow)).2⟩
  · intro hguess s hmem x y
    obtain ⟨col, row, hcol, hrow, h₁, h₂⟩ := mem_messages hmem
    rw [h₂, h₁, toFrameCoords_message hs hcol hrow, coords_place hs hguess hcol hrow]

end Messages

/-! ## Fire detection -/

section Detection

variable {β : Type} {test : List Pixel → List Pixel → Nat → Nat → Nat → Nat → Option β}

def foundAt (test : List Pixel → List Pixel → Nat → Nat → Nat → Nat → Option β)
    (t4 t11 : List Pixel) (width height : Nat) (p : Nat × Nat) : Option (Hotspot β) :=
  match t4[p.2 * width + p.1]?, t11[p.2 * width + p.1]? with
  | some v4, some v11 =>
      (test t4 t11 width height p.1 p.2).map fun rest => ⟨.ofNat p.1, .ofNat p.2, v4, v11, rest⟩
  | _, _ => none

theorem foundAt_place {t4 t11 : List Pixel} {width height : Nat} {p : Nat × Nat} {hs : Hotspot β}
    (h : foundAt test t4 t11 width height p = some hs) : hs.x = .ofNat p.1 ∧ hs.y = .ofNat p.2 := by
  unfold foundAt at h
  split at h
  · obtain ⟨rest, -, rfl⟩ := Option.map_eq_some_iff.1 h
    exact ⟨rfl, rfl⟩
  · cases h

def placesOf (width height : Nat) : List (Nat × Nat) :=
  (List.range height).flatMap fun y => (List.range width).map fun x => (x, y)

theorem mem_placesOf {width height : Nat} {p : Nat × Nat} :
    p ∈ placesOf width height ↔ p.1 < width ∧ p.2 < height := by
  obtain ⟨x, y⟩ := p
  simp only [placesOf, List.mem_flatMap, List.mem_map, List.mem_range, Prod.mk.injEq]
  constructor
  · rintro ⟨y', hy, x', hx, rfl, rfl⟩
    exact ⟨hx, hy⟩
  · rintro ⟨hx, hy⟩
    exact ⟨y, hy, x, hx, rfl, rfl⟩

theorem nodup_placesOf (width height : Nat) : (placesOf width height).Nodup := by
  refine List.nodup_flatMap.2 ⟨fun y _ => ?_, ?_⟩
  · exact List.nodup_range.map fun _ _ h => (Prod.mk.inj h).1
  · refine List.nodup_range.imp fun hne p hp hq => ?_
    obtain ⟨x, -, rfl⟩ := List.mem_map.1 hp
    obtain ⟨x', -, h⟩ := List.mem_map.1 hq
    exact hne (Prod.mk.inj h).2.symm

theorem detectFireRaw_eq
    (test : List Pixel → List Pixel → Nat → Nat → Nat → Nat → Option β) {t4 t11 : List Pixel}
    {width height : Nat} (h4 : t4.length = height * width) (h11 : t11.length = height * width) :
    detectFireRaw test t4 t11 width height =
      some ((placesOf width height).filterMap (foundAt test t4 t11 width height)) := by
  have hall : ∀ p ∈ placesOf width height, p.2 * width + p.1 < height * width := by
    intro p hp
    obtain ⟨hx, hy⟩ := mem_placesOf.1 hp
    have hle := Nat.mul_le_mul_right width (Nat.succ_le_of_lt hy)
    rw [Nat.succ_mul] at hle
    omega
  show (placesOf width height).foldr _ _ = _
  generalize placesOf width height = places at hall
  induction places with
  | nil => rfl
  | cons p ps ih =>
    obtain ⟨hp, hps⟩ := List.forall_mem_cons.1 hall
    obtain ⟨v4, hv4⟩ : ∃ v, t4[p.2 * width + p.1]? = some v :=
      ⟨_, List.getElem?_eq_getElem (h4.symm ▸ hp)⟩
    obtain ⟨v11, hv11⟩ : ∃ v, t11[p.2 * width + p.1]? = some v :=
      ⟨_, List.getElem?_eq_getElem (h11.symm ▸ hp)⟩
    rw [List.foldr_cons, ih hps, List.filterMap_cons]
    simp only [hv4, hv11, foundAt]
    cases test t4 t11 width height p.1 p.2 with
    | none => rfl
    | some rest => rfl

theorem detectFire_eq {m : TileMessage} {found : List (Hotspot β)}
    {coords : UInt16 → UInt16 → Option (UInt16 × UInt16)}
    (hraw : detectFireRaw test m.mwir m.lwir m.header.width.toNat m.header.height.toNat =
      some found) (hcoords : ∀ x y, m.toFrameCoords x y = some (coords x y)) :
    detectFire test m = some (found.filterMap fun hs => (coords hs.x hs.y).map (·, hs)) := by
  have hmap : (found.mapM fun hs => (m.toFrameCoords hs.x hs.y).map fun c => c.map (·, hs)) =
      some (found.map fun hs => (coords hs.x hs.y).map (·, hs)) :=
    mapM_some fun hs _ => by rw [hcoords, Option.map_some]
  rw [detectFire, hraw]
  simp only [hmap, Option.map_some, List.filterMap_map]
  rfl

theorem hotspots_eq (geo : OverlapTile) (found : List (Hotspot β)) :
    (found.filterMap fun hs =>
      (if geo.IsInner hs.x hs.y then some (geo.place hs.x hs.y) else none).map (·, hs)) =
        geo.hotspots found := by
  induction found with
  | nil => rfl
  | cons hs found ih =>
    unfold OverlapTile.hotspots at ih ⊢
    by_cases hin : geo.IsInner hs.x hs.y
    · simp only [List.filterMap_cons, List.filter_cons, hin, if_true, decide_true, Option.map_some,
        List.map_cons, ih]
    · simp only [List.filterMap_cons, List.filter_cons, hin, if_false, decide_false,
        Option.map_none, Bool.false_eq_true, ih]

theorem nodup_filterMap {α γ : Type} {g : α → Option γ} {l : List α} (hl : l.Nodup)
    (h : ∀ a ∈ l, ∀ a' ∈ l, ∀ c, g a = some c → g a' = some c → a = a') :
    (l.filterMap g).Nodup := by
  refine List.pairwise_filterMap.2 (hl.imp_of_mem fun ha ha' hne c hc c' hc' heq => ?_)
  rw [heq] at hc
  exact hne (h _ ha _ ha' c' hc hc')

variable {f : Frame} {tileSize overlap : Nat}

/-- The fire detection runs on every message; what it reports are places that the
receiver has put there, each at most once. -/
theorem reports_of_message (hs : Sizes f tileSize overlap)
    (test : List Pixel → List Pixel → Nat → Nat → Nat → Nat → Option β)
    {s : DualBandTile × TileMessage} (h : s ∈ f.messages tileSize overlap) :
    ∃ found reports,
      detectFireRaw test s.2.mwir s.2.lwir s.2.header.width.toNat s.2.header.height.toNat =
        some found ∧
      detectFire test s.2 = some reports ∧ (reports.map Prod.fst).Nodup ∧
      ∀ r ∈ reports, ∃ x y fx fy, r.1 = (fx, fy) ∧ fx.toNat < f.width ∧ fy.toNat < f.height ∧
        s.2.toFrameCoords x y = some (some (fx, fy)) := by
  obtain ⟨col, row, hcol, hrow, h₁, h₂⟩ := mem_messages h
  have hc := carries hs hcol hrow
  have hm := tileAt_inside hs hcol hrow f.mwir_length
  have hl := tileAt_inside hs hcol hrow f.lwir_length
  have hcoords := toFrameCoords_message hs hcol hrow
  have hx := inside_spanX hs hcol
  have hy := inside_spanY hs hrow
  have hw := hs.width_le
  have hh := hs.height_le
  rw [h₂, h₁]
  have hwidth : (f.tileAt tileSize overlap col row).message.header.width.toNat =
      (f.tileAt tileSize overlap col row).geo.width := hc.width
  have hheight : (f.tileAt tileSize overlap col row).message.header.height.toNat =
      (f.tileAt tileSize overlap col row).geo.height := hc.height
  have hwle := (f.tileAt tileSize overlap col row).message.header.width.toNat_lt
  have hhle := (f.tileAt tileSize overlap col row).message.header.height.toNat_lt
  have hraw := detectFireRaw_eq test hm.length_flatten hl.length_flatten
  have hfire := detectFire_eq (by rw [hwidth, hheight]; exact hraw) hcoords
  refine ⟨_, _, by rw [hwidth, hheight]; exact hraw, hfire, ?_, ?_⟩
  · rw [List.map_filterMap, List.filterMap_filterMap]
    refine nodup_filterMap (nodup_placesOf _ _) fun p hp p' hp' v hv hv' => ?_
    obtain ⟨hs₁, hf₁, hc₁⟩ := Option.bind_eq_some_iff.1 hv
    obtain ⟨hs₂, hf₂, hc₂⟩ := Option.bind_eq_some_iff.1 hv'
    rw [Option.map_map] at hc₁ hc₂
    obtain ⟨⟨fx, fy⟩, hat₁, rfl⟩ := Option.map_eq_some_iff.1 hc₁
    obtain ⟨⟨fx', fy'⟩, hat₂, heq⟩ := Option.map_eq_some_iff.1 hc₂
    obtain ⟨rfl, rfl⟩ : fx' = fx ∧ fy' = fy := Prod.mk.inj heq
    obtain ⟨hp₁, hp₂⟩ := mem_placesOf.1 hp
    obtain ⟨hp₁', hp₂'⟩ := mem_placesOf.1 hp'
    rw [coords_eq_some_iff hs hcol hrow, (foundAt_place hf₁).1, (foundAt_place hf₁).2,
      toNat_ofNat_le (by omega), toNat_ofNat_le (by omega)] at hat₁
    rw [coords_eq_some_iff hs hcol hrow, (foundAt_place hf₂).1, (foundAt_place hf₂).2,
      toNat_ofNat_le (by omega), toNat_ofNat_le (by omega)] at hat₂
    exact Prod.ext (by omega) (by omega)
  · intro r hr
    obtain ⟨found, -, hr⟩ := List.mem_filterMap.1 hr
    obtain ⟨⟨fx, fy⟩, hat, rfl⟩ := Option.map_eq_some_iff.1 hr
    obtain ⟨hx₁, hx₂, hx₃, hx₄, -⟩ := hx
    obtain ⟨hy₁, hy₂, hy₃, hy₄, -⟩ := hy
    have hplace := (coords_eq_some_iff hs hcol hrow _ _ _ _).1 hat
    exact ⟨found.x, found.y, fx, fy, rfl, by omega, by omega,
      (hcoords _ _).trans (congrArg some hat)⟩

theorem reported_once (hs : Sizes f tileSize overlap)
    (test : List Pixel → List Pixel → Nat → Nat → Nat → Nat → Option β) :
    (((f.messages tileSize overlap).flatMap fun s => (detectFire test s.2).getD []).map
      Prod.fst).Nodup := by
  rw [List.map_flatMap, List.nodup_flatMap]
  constructor
  · intro s hmem
    obtain ⟨-, reports, -, hfire, hnodup, -⟩ := reports_of_message hs test hmem
    rw [hfire]
    exact hnodup
  · refine List.pairwise_iff_getElem.2 fun i j hi hj hij v hv hv' => ?_
    obtain ⟨-, reports, -, hfire, -, hat⟩ := reports_of_message hs test (List.getElem_mem hi)
    obtain ⟨-, reports', -, hfire', -, hat'⟩ := reports_of_message hs test (List.getElem_mem hj)
    simp only [hfire, hfire', Option.getD_some] at hv hv'
    obtain ⟨r, hr, rfl⟩ := List.mem_map.1 hv
    obtain ⟨r', hr', heq⟩ := List.mem_map.1 hv'
    obtain ⟨x, y, fx, fy, hplace, hfx, hfy, hcoords⟩ := hat r hr
    obtain ⟨x', y', fx', fy', hplace', -, -, hcoords'⟩ := hat' r' hr'
    obtain ⟨rfl, rfl⟩ : fx' = fx ∧ fy' = fy :=
      Prod.mk.inj ((hplace'.symm.trans heq).trans hplace)
    obtain ⟨k, -, hunique⟩ := existsUnique_place hs fx' fy' hfx hfy
    have h₁ := hunique (i, x, y) ⟨_, List.getElem?_eq_getElem hi, hcoords⟩
    have h₂ := hunique (j, x', y') ⟨_, List.getElem?_eq_getElem hj, hcoords'⟩
    have hsame := congrArg Prod.fst (h₁.trans h₂.symm)
    simp only at hsame
    omega

theorem located_of_guessesRight (hs : Sizes f tileSize overlap)
    (h : GuessesRight f tileSize overlap) : Located f (f.messages tileSize overlap) where
  once := existsUnique_place hs
  holds := fun _ hmem _ _ => message_holds hs hmem
  placed := (placed_iff_guessesRight hs).2 h
  hotspots := by
    intro β test s hmem
    obtain ⟨found, -, hraw, -⟩ := reports_of_message hs test hmem
    refine ⟨found, hraw, ?_⟩
    rw [detectFire_eq hraw ((placed_iff_guessesRight hs).2 h s hmem), hotspots_eq]
  reportedOnce := reported_once hs

end Detection

section Examples

def smallFrame : Frame := ⟨[1, 2, 3, 4, 5, 6], [7, 8, 9, 10, 11, 12], 3, 2, by decide, by decide⟩

def lineFrame : Frame := ⟨[1, 2, 3, 4], [5, 6, 7, 8], 4, 1, by decide, by decide⟩

theorem room_of_tileList {f : Frame} {tileSize overlap : Nat} (hT : 0 < tileSize) {buf : Bytes}
    (h : ∀ t ∈ f.tileList tileSize overlap, t.size ≤ buf.length) :
    ∀ tiles, f.produced tileSize overlap = some tiles → ∀ t ∈ tiles, t.size ≤ buf.length := by
  intro tiles htiles
  rw [produced_eq hT] at htiles
  obtain rfl := Option.some.inj htiles
  exact h

end Examples

end Analysis
end Leodos
