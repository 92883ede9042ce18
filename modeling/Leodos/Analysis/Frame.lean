/-
Tiles of a dual-band frame and the messages that carry them.

A frame is cut into square tiles, each with a border of its neighbours around it.  A
tile is sent with its position in the frame and its sizes, and the receiver finds the
border again from these.  A pixel is the bit pattern of its `f32`.  `none` is a panic:
a slice out of range, or a sum or difference out of range.
-/
import Leodos.Bits.Endian
import Leodos.Memory.Cells

namespace Leodos
namespace Analysis

open Memory

abbrev Bytes := List UInt8

abbrev Pixel := BitVec 32

/-- A dual-band frame.  Both bands hold every pixel of it. -/
structure Frame where
  mwir : List Pixel
  lwir : List Pixel
  width : Nat
  height : Nat
  mwir_length : width * height ≤ mwir.length
  lwir_length : width * height ≤ lwir.length

structure GeoFrame where
  frame : Frame
  nadirLat : BitVec 32
  nadirLon : BitVec 32
  gsd : BitVec 32
  timestampS : BitVec 64

/-! ## Tiles -/

structure OverlapTile where
  x : Nat
  y : Nat
  width : Nat
  height : Nat
  innerX : Nat
  innerY : Nat
  innerW : Nat
  innerH : Nat
  frameX : Nat
  frameY : Nat
  deriving DecidableEq, Repr

structure DualBandTile where
  geo : OverlapTile
  mwir : List Pixel
  lwir : List Pixel
  frameWidth : Nat
  nadirLat : BitVec 32
  nadirLon : BitVec 32
  gsd : BitVec 32
  timestampS : BitVec 64
  deriving DecidableEq, Repr

structure TileIter where
  mwir : List Pixel
  lwir : List Pixel
  frameWidth : Nat
  frameHeight : Nat
  tileSize : Nat
  overlap : Nat
  nadirLat : BitVec 32
  nadirLon : BitVec 32
  gsd : BitVec 32
  timestampS : BitVec 64
  cols : Nat
  total : Nat
  index : Nat
  deriving DecidableEq, Repr

def checkedSub (a b : Nat) : Option Nat := if b ≤ a then some (a - b) else none

namespace TileIter

/-- The geometry of the tile in column `col` and row `row`. -/
def geometry (it : TileIter) (col row : Nat) : Option OverlapTile := do
  let origX := col * it.tileSize
  let origY := row * it.tileSize
  let innerW := min it.tileSize (← checkedSub it.frameWidth origX)
  let innerH := min it.tileSize (← checkedSub it.frameHeight origY)
  let x0 := origX - it.overlap
  let y0 := origY - it.overlap
  let x1 := min (origX + innerW + it.overlap) it.frameWidth
  let y1 := min (origY + innerH + it.overlap) it.frameHeight
  return {
    x := x0
    y := y0
    width := ← checkedSub x1 x0
    height := ← checkedSub y1 y0
    innerX := ← checkedSub origX x0
    innerY := ← checkedSub origY y0
    innerW
    innerH
    frameX := origX
    frameY := origY }

def next (it : TileIter) : Option (Option DualBandTile × TileIter) :=
  if it.index ≥ it.total then some (none, it)
  else
    let col := it.index % it.cols
    let row := it.index / it.cols
    (it.geometry col row).map fun geo =>
      (some
        { geo
          mwir := it.mwir
          lwir := it.lwir
          frameWidth := it.frameWidth
          nadirLat := it.nadirLat
          nadirLon := it.nadirLon
          gsd := it.gsd
          timestampS := it.timestampS },
        { it with index := it.index + 1 })

/-- What up to `k` calls of `next` yield before one yields nothing. -/
def collect : Nat → TileIter → Option (List DualBandTile)
  | 0, _ => some []
  | k + 1, it =>
      match it.next with
      | none => none
      | some (none, _) => some []
      | some (some tile, it) => (collect k it).map (tile :: ·)

end TileIter

/-- The iterator over the tiles; a tile size of zero divides by zero. -/
def GeoFrame.tiles (g : GeoFrame) (tileSize overlap : Nat) : Option TileIter :=
  let w := g.frame.width
  let h := g.frame.height
  if tileSize = 0 then none
  else
    let cols := (w + tileSize - 1) / tileSize
    let rows := (h + tileSize - 1) / tileSize
    some
      { mwir := g.frame.mwir
        lwir := g.frame.lwir
        frameWidth := w
        frameHeight := h
        tileSize
        overlap
        nadirLat := g.nadirLat
        nadirLon := g.nadirLon
        gsd := g.gsd
        timestampS := g.timestampS
        cols
        total := cols * rows
        index := 0 }

/-- `Frame::tiles` is the same with zeros for the geo context. -/
def Frame.tiles (f : Frame) (tileSize overlap : Nat) : Option TileIter :=
  GeoFrame.tiles ⟨f, 0, 0, 0, 0⟩ tileSize overlap

/-! ## The wire format -/

structure TileHeader where
  frameX : UInt16
  frameY : UInt16
  width : UInt16
  height : UInt16
  innerW : UInt16
  innerH : UInt16
  nadirLat : BitVec 32
  nadirLon : BitVec 32
  gsd : BitVec 32
  timestampS : BitVec 64
  deriving DecidableEq, Repr

namespace TileHeader

def size : Nat := 32

/-- Six `u16`, three `f32` and an `f64`, which leave no padding between them. -/
def asBytes (h : TileHeader) : Bytes :=
  LittleEndian.encode 2 h.frameX.toNat ++ LittleEndian.encode 2 h.frameY.toNat ++
    LittleEndian.encode 2 h.width.toNat ++ LittleEndian.encode 2 h.height.toNat ++
    LittleEndian.encode 2 h.innerW.toNat ++ LittleEndian.encode 2 h.innerH.toNat ++
    LittleEndian.encode 4 h.nadirLat.toNat ++ LittleEndian.encode 4 h.nadirLon.toNat ++
    LittleEndian.encode 4 h.gsd.toNat ++ LittleEndian.encode 8 h.timestampS.toNat

def readFromPrefix (data : Bytes) : Option TileHeader :=
  if data.length < size then none
  else
    let field (off len : Nat) : Nat := LittleEndian.decode (slice data off len)
    some
      { frameX := .ofNat (field 0 2)
        frameY := .ofNat (field 2 2)
        width := .ofNat (field 4 2)
        height := .ofNat (field 6 2)
        innerW := .ofNat (field 8 2)
        innerH := .ofNat (field 10 2)
        nadirLat := .ofNat 32 (field 12 4)
        nadirLon := .ofNat 32 (field 16 4)
        gsd := .ofNat 32 (field 20 4)
        timestampS := .ofNat 64 (field 24 8) }

end TileHeader

def pixelBytes (row : List Pixel) : Bytes := row.flatMap fun p => LittleEndian.encode 4 p.toNat

def pixels : Bytes → List Pixel
  | a :: b :: c :: d :: rest => .ofNat 32 (LittleEndian.decode [a, b, c, d]) :: pixels rest
  | _ => []

namespace DualBandTile

def rows (t : DualBandTile) (band : List Pixel) : Option (List (List Pixel)) :=
  (List.range t.geo.height).mapM fun row =>
    let start := (t.geo.y + row) * t.frameWidth + t.geo.x
    if start + t.geo.width ≤ band.length then some (slice band start t.geo.width) else none

/-- Copy `src` into the buffer at `off`. -/
def copy (buf : Bytes) (off : Nat) (src : Bytes) : Option (Bytes × Nat) :=
  if off + src.length ≤ buf.length then some (write buf off src, off + src.length) else none

def copyRows : List (List Pixel) → Bytes × Nat → Option (Bytes × Nat)
  | [], cursor => some cursor
  | row :: rows, (buf, off) => (copy buf off (pixelBytes row)).bind (copyRows rows)

def header (t : DualBandTile) : TileHeader where
  frameX := .ofNat t.geo.frameX
  frameY := .ofNat t.geo.frameY
  width := .ofNat t.geo.width
  height := .ofNat t.geo.height
  innerW := .ofNat t.geo.innerW
  innerH := .ofNat t.geo.innerH
  nadirLat := t.nadirLat
  nadirLon := t.nadirLon
  gsd := t.gsd
  timestampS := t.timestampS

/-- Header, MWIR and LWIR one after another, with the number of bytes written. -/
def writeTo (t : DualBandTile) (buf : Bytes) : Option (Bytes × Nat) := do
  let cursor ← copy buf 0 t.header.asBytes
  let cursor ← copyRows (← t.rows t.mwir) cursor
  copyRows (← t.rows t.lwir) cursor

end DualBandTile

structure TileMessage where
  header : TileHeader
  mwir : List Pixel
  lwir : List Pixel
  deriving DecidableEq, Repr

/-- Sums and differences of the 16-bit fields. -/
def add16 (a b : UInt16) : Option UInt16 :=
  if a.toNat + b.toNat < UInt16.size then some (a + b) else none

def sub16 (a b : UInt16) : Option UInt16 := if b ≤ a then some (a - b) else none

namespace TileMessage

/-- `<[f32]>::ref_from_bytes`.  `aligned` says whether the buffer is aligned to an
`f32`; the header does not change that. -/
def refFromBytes (aligned : Bool) (bytes : Bytes) : Option (List Pixel) :=
  if aligned ∧ bytes.length % 4 = 0 then some (pixels bytes) else none

/-- The inner `none` is the answer, the outer one a panic. -/
def fromBytes (aligned : Bool) (data : Bytes) : Option (Option TileMessage) :=
  match TileHeader.readFromPrefix data with
  | none => some none
  | some header =>
      let pixelBytes := header.width.toNat * header.height.toNat * 4
      let lwirStart := TileHeader.size + pixelBytes
      if data.length < lwirStart then none
      else
        match refFromBytes aligned (slice data TileHeader.size pixelBytes) with
        | none => some none
        | some mwir =>
            if data.length < lwirStart + pixelBytes then none
            else
              match refFromBytes aligned (slice data lwirStart pixelBytes) with
              | none => some none
              | some lwir => some (some { header, mwir, lwir })

/-- The overlap on the left or at the top, from the position in the frame and the
two sizes. -/
def overlap (frame size inner : UInt16) : Option UInt16 :=
  (sub16 size inner).map fun border => if frame ≥ border then min border frame else frame

def overlapX (m : TileMessage) : Option UInt16 :=
  overlap m.header.frameX m.header.width m.header.innerW

def overlapY (m : TileMessage) : Option UInt16 :=
  overlap m.header.frameY m.header.height m.header.innerH

/-- `v >= start && v < start + len`. -/
def within (start len v : UInt16) : Option Bool :=
  if v ≥ start then (add16 start len).map fun stop => decide (v < stop) else some false

def toFrameCoords (m : TileMessage) (x y : UInt16) : Option (Option (UInt16 × UInt16)) := do
  let ox ← m.overlapX
  let oy ← m.overlapY
  match ← within ox m.header.innerW x with
  | false => some none
  | true =>
      match ← within oy m.header.innerH y with
      | false => some none
      | true =>
          let fx ← add16 m.header.frameX (← sub16 x ox)
          let fy ← add16 m.header.frameY (← sub16 y oy)
          some (some (fx, fy))

end TileMessage

/-! ## Fire detection -/

/-- A pixel that `detect_fire_raw` yields.  `rest` is what is computed from the
temperatures around it. -/
structure Hotspot (β : Type) where
  x : UInt16
  y : UInt16
  t4 : Pixel
  t11 : Pixel
  rest : β

/-- `test` stands for the comparisons of the temperatures of a pixel with the
thresholds and with its surroundings, which may reject it. -/
def detectFireRaw {β : Type} (test : List Pixel → List Pixel → Nat → Nat → Nat → Nat → Option β)
    (t4 t11 : List Pixel) (width height : Nat) : Option (List (Hotspot β)) :=
  ((List.range height).flatMap fun y => (List.range width).map fun x => (x, y)).foldr
    (fun (x, y) found =>
      match t4[y * width + x]?, t11[y * width + x]? with
      | some v4, some v11 =>
          found.map fun found =>
            match test t4 t11 width height x y with
            | none => found
            | some rest => ⟨.ofNat x, .ofNat y, v4, v11, rest⟩ :: found
      | _, _ => none)
    (some [])

/-- The hotspots of a tile with their frame coordinates, from which the location is
computed. -/
def detectFire {β : Type} (test : List Pixel → List Pixel → Nat → Nat → Nat → Nat → Option β)
    (tile : TileMessage) : Option (List ((UInt16 × UInt16) × Hotspot β)) :=
  match detectFireRaw test tile.mwir tile.lwir tile.header.width.toNat tile.header.height.toNat with
  | none => none
  | some found =>
      (found.mapM fun hs => (tile.toFrameCoords hs.x hs.y).map fun coords => coords.map (·, hs)).map
        (·.filterMap id)

end Analysis
end Leodos
