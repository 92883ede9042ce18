/-
A tile in a buffer.

`write_to` lays the header and the rows of both bands out one after another, and
`from_bytes` reads the same header and the same pixels back.
-/
import Leodos.Analysis.Frame

namespace Leodos
namespace Analysis

open Memory

/-! ## The header -/

theorem slice_head {α : Type} {a b : List α} {len : Nat} (h : a.length = len) :
    slice (a ++ b) 0 len = a := by
  rw [slice, List.drop_zero, ← h, List.take_left]

theorem slice_skip {α : Type} {a b : List α} {off len : Nat} (h : a.length ≤ off) :
    slice (a ++ b) off len = slice b (off - a.length) len := by
  obtain ⟨k, rfl⟩ := Nat.exists_eq_add_of_le h
  rw [slice_append_right, Nat.add_sub_cancel_left]

theorem length_asBytes (h : TileHeader) : h.asBytes.length = TileHeader.size := by
  simp [TileHeader.asBytes, TileHeader.size]

theorem decode_word (x : UInt16) :
    UInt16.ofNat (LittleEndian.decode (LittleEndian.encode 2 x.toNat)) = x := by
  rw [LittleEndian.decode_encode_of_lt x.toNat_lt]
  exact UInt16.ofNat_toNat

theorem decode_float {w n : Nat} (h : 2 ^ w = 256 ^ n) (x : BitVec w) :
    BitVec.ofNat w (LittleEndian.decode (LittleEndian.encode n x.toNat)) = x := by
  rw [LittleEndian.decode_encode_of_lt (h ▸ x.isLt), BitVec.ofNat_toNat, BitVec.setWidth_eq]

theorem readFromPrefix_asBytes (h : TileHeader) (rest : Bytes) :
    TileHeader.readFromPrefix (h.asBytes ++ rest) = some h := by
  have hlen : ¬ (h.asBytes ++ rest).length < TileHeader.size := by
    rw [List.length_append, length_asBytes]
    omega
  rw [TileHeader.readFromPrefix, if_neg hlen]
  simp only [TileHeader.asBytes, List.append_assoc]
  simp (disch := simp) only [slice_head, slice_skip, LittleEndian.length_encode, Nat.reduceSub,
    decode_word, decode_float]

/-! ## The pixels -/

theorem mapM_some {α β : Type} {f : α → Option β} {g : α → β} {l : List α}
    (h : ∀ a ∈ l, f a = some (g a)) : l.mapM f = some (l.map g) := by
  induction l with
  | nil => rfl
  | cons a l ih =>
    obtain ⟨ha, hl⟩ := List.forall_mem_cons.1 h
    rw [List.mapM_cons, ha, ih hl]
    rfl

theorem getElem?_flatten_row {α : Type} {rows : List (List α)} {w : Nat}
    (h : ∀ row ∈ rows, row.length = w) {x : Nat} (hx : x < w) (y : Nat) :
    rows.flatten[y * w + x]? = rows[y]?.bind fun row => row[x]? := by
  induction rows generalizing y with
  | nil => simp
  | cons row rows ih =>
    obtain ⟨hrow, hrows⟩ := List.forall_mem_cons.1 h
    rw [List.flatten_cons]
    cases y with
    | zero =>
      rw [Nat.zero_mul, Nat.zero_add, List.getElem?_append_left (hrow.symm ▸ hx)]
      rfl
    | succ y =>
      rw [Nat.succ_mul, List.getElem?_append_right (by omega), List.getElem?_cons_succ,
        ← ih hrows y]
      congr 1
      omega

theorem length_flatten_rows {α : Type} {rows : List (List α)} {w : Nat}
    (h : ∀ row ∈ rows, row.length = w) : rows.flatten.length = rows.length * w := by
  induction rows with
  | nil => simp
  | cons row rows ih =>
    obtain ⟨hrow, hrows⟩ := List.forall_mem_cons.1 h
    rw [List.flatten_cons, List.length_append, hrow, ih hrows, List.length_cons, Nat.succ_mul]
    omega

theorem pixels_cons (p : Pixel) (rest : Bytes) :
    pixels (LittleEndian.encode 4 p.toNat ++ rest) = p :: pixels rest := by
  have hlen := LittleEndian.length_encode 4 p.toNat
  match hbytes : LittleEndian.encode 4 p.toNat, hlen with
  | [a, b, c, d], _ =>
    show BitVec.ofNat 32 (LittleEndian.decode [a, b, c, d]) :: pixels rest = _
    rw [← hbytes, decode_float rfl]

theorem pixels_pixelBytes (row : List Pixel) : pixels (pixelBytes row) = row := by
  induction row with
  | nil => rfl
  | cons p row ih =>
    show pixels (LittleEndian.encode 4 p.toNat ++ pixelBytes row) = _
    rw [pixels_cons, ih]

theorem length_pixelBytes (row : List Pixel) : (pixelBytes row).length = 4 * row.length := by
  induction row with
  | nil => rfl
  | cons p row ih =>
    show (LittleEndian.encode 4 p.toNat ++ pixelBytes row).length = _
    rw [List.length_append, LittleEndian.length_encode, ih, List.length_cons]
    omega

theorem pixelBytes_append (a b : List Pixel) : pixelBytes (a ++ b) = pixelBytes a ++ pixelBytes b :=
  List.flatMap_append

/-! ## Writing -/

namespace DualBandTile

theorem copy_eq {buf : Bytes} {off : Nat} {src : Bytes} (h : off + src.length ≤ buf.length) :
    ∃ buf', copy buf off src = some (buf', off + src.length) ∧ buf'.length = buf.length ∧
      buf'.take (off + src.length) = buf.take off ++ src := by
  refine ⟨write buf off src, if_pos h, write_length buf off src, ?_⟩
  rw [write, List.take_of_length_le (show src.length ≤ buf.length - off by omega)]
  refine List.take_left' ?_
  rw [List.length_append, List.length_take]
  omega

theorem copyRows_eq (rows : List (List Pixel)) {buf : Bytes} {off : Nat}
    (h : off + 4 * rows.flatten.length ≤ buf.length) :
    ∃ buf', copyRows rows (buf, off) = some (buf', off + 4 * rows.flatten.length) ∧
      buf'.length = buf.length ∧
      buf'.take (off + 4 * rows.flatten.length) = buf.take off ++ pixelBytes rows.flatten := by
  induction rows generalizing buf off with
  | nil => exact ⟨buf, rfl, rfl, (List.append_nil _).symm⟩
  | cons row rows ih =>
    rw [List.flatten_cons, List.length_append] at h ⊢
    have hrow := length_pixelBytes row
    have hroom : off + (pixelBytes row).length ≤ buf.length := by omega
    obtain ⟨buf₁, hcopy, hlen₁, htake₁⟩ := copy_eq hroom
    have hroom₁ : off + (pixelBytes row).length + 4 * rows.flatten.length ≤ buf₁.length := by omega
    obtain ⟨buf₂, hrest, hlen₂, htake₂⟩ := ih hroom₁
    have hend : off + (pixelBytes row).length + 4 * rows.flatten.length =
        off + 4 * (row.length + rows.flatten.length) := by omega
    rw [hend, htake₁, List.append_assoc, ← pixelBytes_append] at htake₂
    rw [hend] at hrest
    refine ⟨buf₂, ?_, hlen₂.trans hlen₁, htake₂⟩
    rw [copyRows, hcopy]
    exact hrest

variable {t : DualBandTile}

def rowsOf (t : DualBandTile) (band : List Pixel) : List (List Pixel) :=
  (List.range t.geo.height).map fun row =>
    slice band ((t.geo.y + row) * t.frameWidth + t.geo.x) t.geo.width

/-- The tile lies inside a band of `frameHeight` rows. -/
structure Inside (t : DualBandTile) (frameHeight : Nat) (band : List Pixel) : Prop where
  right : t.geo.x + t.geo.width ≤ t.frameWidth
  bottom : t.geo.y + t.geo.height ≤ frameHeight
  band : t.frameWidth * frameHeight ≤ band.length

theorem Inside.row_le {frameHeight : Nat} {band : List Pixel} (h : t.Inside frameHeight band)
    {row : Nat} (hrow : row < t.geo.height) :
    (t.geo.y + row) * t.frameWidth + t.geo.x + t.geo.width ≤ band.length := by
  have hright := h.right
  have hbottom := h.bottom
  have hmul := Nat.mul_le_mul_right t.frameWidth (show t.geo.y + row + 1 ≤ frameHeight by omega)
  have hband := h.band
  rw [Nat.succ_mul] at hmul
  rw [Nat.mul_comm] at hband
  omega

theorem Inside.rows_eq {frameHeight : Nat} {band : List Pixel} (h : t.Inside frameHeight band) :
    t.rows band = some (t.rowsOf band) := by
  refine mapM_some fun row hrow => ?_
  exact if_pos (h.row_le (List.mem_range.1 hrow))

theorem Inside.length_rowsOf {frameHeight : Nat} {band : List Pixel}
    (h : t.Inside frameHeight band) :
    ∀ row ∈ t.rowsOf band, row.length = t.geo.width := by
  intro row hrow
  obtain ⟨i, hi, rfl⟩ := List.mem_map.1 hrow
  exact slice_length (h.row_le (List.mem_range.1 hi))

def size (t : DualBandTile) : Nat := TileHeader.size + 2 * (4 * (t.geo.height * t.geo.width))

def message (t : DualBandTile) : TileMessage where
  header := t.header
  mwir := (t.rowsOf t.mwir).flatten
  lwir := (t.rowsOf t.lwir).flatten

theorem Inside.length_flatten {frameHeight : Nat} {band : List Pixel}
    (h : t.Inside frameHeight band) :
    (t.rowsOf band).flatten.length = t.geo.height * t.geo.width := by
  rw [length_flatten_rows h.length_rowsOf, rowsOf, List.length_map, List.length_range]

theorem Inside.pixel {frameHeight : Nat} {band : List Pixel} (h : t.Inside frameHeight band)
    {x y : Nat} (hx : x < t.geo.width) (hy : y < t.geo.height) :
    (t.rowsOf band).flatten[y * t.geo.width + x]? =
      band[(t.geo.y + y) * t.frameWidth + (t.geo.x + x)]? := by
  rw [getElem?_flatten_row h.length_rowsOf hx, rowsOf, List.getElem?_map,
    List.getElem?_range hy, Option.map_some, Option.bind_some, slice_getElem?, if_pos hx,
    Nat.add_assoc]

theorem writeTo_eq {frameHeight : Nat} {buf : Bytes} (hm : t.Inside frameHeight t.mwir)
    (hl : t.Inside frameHeight t.lwir) (hroom : t.size ≤ buf.length) :
    ∃ buf', t.writeTo buf = some (buf', t.size) ∧
      buf'.take t.size = t.header.asBytes ++ pixelBytes t.message.mwir ++
        pixelBytes t.message.lwir := by
  have hheader := length_asBytes t.header
  have hmlen := hm.length_flatten
  have hllen := hl.length_flatten
  have hsize : t.size = t.header.asBytes.length + 4 * (t.rowsOf t.mwir).flatten.length +
      4 * (t.rowsOf t.lwir).flatten.length := by
    rw [hmlen, hllen, hheader, size]
    omega
  rw [hsize] at hroom ⊢
  have hroom₀ : 0 + t.header.asBytes.length ≤ buf.length := by omega
  obtain ⟨buf₀, hcopy₀, hlen₀, htake₀⟩ := copy_eq hroom₀
  rw [Nat.zero_add] at hcopy₀ htake₀
  obtain ⟨buf₁, hcopy₁, hlen₁, htake₁⟩ := copyRows_eq (t.rowsOf t.mwir)
    (show t.header.asBytes.length + _ ≤ buf₀.length by omega)
  obtain ⟨buf₂, hcopy₂, -, htake₂⟩ := copyRows_eq (t.rowsOf t.lwir)
    (show t.header.asBytes.length + 4 * (t.rowsOf t.mwir).flatten.length + _ ≤ buf₁.length by
      omega)
  refine ⟨buf₂, ?_, ?_⟩
  · simp only [writeTo, hcopy₀, hm.rows_eq, hl.rows_eq, hcopy₁, hcopy₂, Option.bind_eq_bind,
      Option.bind_some]
  · rw [htake₂, htake₁, htake₀]
    rfl

end DualBandTile

/-! ## Reading -/

theorem refFromBytes_pixelBytes (band : List Pixel) :
    TileMessage.refFromBytes true (pixelBytes band) = some band := by
  have hlen : (pixelBytes band).length % 4 = 0 := by
    rw [length_pixelBytes]
    exact Nat.mul_mod_right 4 _
  rw [TileMessage.refFromBytes, if_pos ⟨rfl, hlen⟩, pixels_pixelBytes]

theorem fromBytes_eq {m : TileMessage}
    (hm : m.mwir.length = m.header.width.toNat * m.header.height.toNat)
    (hl : m.lwir.length = m.header.width.toNat * m.header.height.toNat) :
    TileMessage.fromBytes true
      (m.header.asBytes ++ pixelBytes m.mwir ++ pixelBytes m.lwir) = some (some m) := by
  have hheader := length_asBytes m.header
  have hmlen := length_pixelBytes m.mwir
  have hllen := length_pixelBytes m.lwir
  rw [hm, Nat.mul_comm 4] at hmlen
  rw [hl, Nat.mul_comm 4] at hllen
  have hmwir : slice (m.header.asBytes ++ pixelBytes m.mwir ++ pixelBytes m.lwir) TileHeader.size
      (m.header.width.toNat * m.header.height.toNat * 4) = pixelBytes m.mwir := by
    rw [List.append_assoc, slice_skip (Nat.le_of_eq hheader), hheader, Nat.sub_self,
      slice_head hmlen]
  have hlwir : slice (m.header.asBytes ++ pixelBytes m.mwir ++ pixelBytes m.lwir)
      (TileHeader.size + m.header.width.toNat * m.header.height.toNat * 4)
      (m.header.width.toNat * m.header.height.toNat * 4) = pixelBytes m.lwir := by
    have hboth : (m.header.asBytes ++ pixelBytes m.mwir).length =
        TileHeader.size + m.header.width.toNat * m.header.height.toNat * 4 := by
      rw [List.length_append, hheader, hmlen]
    rw [slice_skip (Nat.le_of_eq hboth), hboth, Nat.sub_self, ← hllen, slice, List.drop_zero,
      List.take_length]
  unfold TileMessage.fromBytes
  rw [List.append_assoc, readFromPrefix_asBytes, ← List.append_assoc]
  simp only [hmwir, hlwir, refFromBytes_pixelBytes]
  rw [if_neg, if_neg]
  · simp only [List.length_append]
    omega
  · simp only [List.length_append]
    omega

end Analysis
end Leodos
