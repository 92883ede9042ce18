/-
The packet ring of `utils/ringbuf.rs`.

A packet is a two-byte big-endian length and its bytes.  A packet that does not fit
before the end of the buffer is stored at position 0, and a zero length is written
over the skipped gap.  `none` is a panic: an index or a range outside the buffer.
-/
import Leodos.Memory.Cells

namespace Leodos
namespace Ring

open Memory

abbrev Bytes := List UInt8

/-- Length prefix size in bytes. -/
def LEN_SIZE : Nat := 2

structure RingBuffer (N : Nat) where
  buf : Bytes
  head : Nat
  tail : Nat
  count : Nat
  frontDrop : Bool
  sized : buf.length = N
  deriving DecidableEq

namespace RingBuffer

variable {N : Nat}

theorem zeros_sized (N : Nat) : (List.replicate N (0 : UInt8)).length = N := List.length_replicate

def new (N : Nat) : RingBuffer N :=
  ⟨List.replicate N 0, 0, 0, 0, false, zeros_sized N⟩

def withFrontDrop (N : Nat) : RingBuffer N :=
  { new N with frontDrop := true }

theorem write_sized (r : RingBuffer N) (pos : Nat) (src : Bytes) :
    (write r.buf pos src).length = N :=
  (write_length _ _ _).trans r.sized

/-- Overwrite the cells from `pos` on. -/
def store (r : RingBuffer N) (pos : Nat) (src : Bytes) : RingBuffer N :=
  { r with buf := write r.buf pos src, sized := write_sized r pos src }

/-- The length prefix as stored: the length cut to 16 bits. -/
def lenBytes (len : Nat) : Bytes :=
  [(UInt16.ofNat len >>> 8).toUInt8, (UInt16.ofNat len).toUInt8]

def record (data : Bytes) : Bytes := lenBytes data.length ++ data

def readLen (r : RingBuffer N) (pos : Nat) : Option Nat :=
  match r.buf[pos]?, r.buf[pos + 1]? with
  | some hi, some lo => some (hi.toNat <<< 8 ||| lo.toNat)
  | _, _ => none

/-- The position of the packet at `pos`: position 0 when `pos` holds a gap marker. -/
def skipSentinel (r : RingBuffer N) (pos : Nat) : Nat :=
  if pos + LEN_SIZE ≤ N ∧ r.readLen pos = some 0 ∧ pos ≠ r.head then 0 else pos

/-- Store the packet at `head`, the position that `tryPush` chose. -/
def place (r : RingBuffer N) (head : Nat) (data : Bytes) (needed : Nat) :
    Option (Bool × RingBuffer N) :=
  if 0 < r.count ∧ head < r.tail ∧ r.tail < head + needed then some (false, r)
  else if head + needed ≤ N then
    let r := r.store head (record data)
    some (true, { r with
      head := if head + needed = N then 0 else head + needed
      count := r.count + 1 })
  else none

def tryPush (r : RingBuffer N) (data : Bytes) (needed : Nat) : Option (Bool × RingBuffer N) :=
  if N - r.head < needed then
    if 0 < r.count ∧ r.tail ≤ r.head ∧ r.tail < needed then some (false, r)
    -- the gap marker takes two cells, and only one may be left
    else if r.head + 1 < N then (r.store r.head [0, 0]).place 0 data needed
    else none
  else r.place r.head data needed

def front (r : RingBuffer N) : Option (Option Bytes) :=
  if r.count = 0 then some none
  else
    let tail := r.skipSentinel r.tail
    match r.readLen tail with
    | none => none
    | some len =>
        if tail + LEN_SIZE + len ≤ N then some (some (slice r.buf (tail + LEN_SIZE) len))
        else none

def pop (r : RingBuffer N) : Option (RingBuffer N) :=
  if r.count = 0 then some r
  else
    let tail := r.skipSentinel r.tail
    match r.readLen tail with
    | none => none
    | some len =>
        if r.count = 1 then some { r with head := 0, tail := 0, count := 0 }
        else
          let tail := tail + LEN_SIZE + len
          some { r with tail := if tail = N then 0 else tail, count := r.count - 1 }

/-- The eviction loop, for at most `fuel` rounds. -/
def evict (data : Bytes) (needed : Nat) : Nat → RingBuffer N → Option (Bool × RingBuffer N)
  | 0, _ => none
  | fuel + 1, r =>
      match r.tryPush data needed with
      | none => none
      | some (true, r) => some (true, r)
      | some (false, r) =>
          match r.pop with
          | none => none
          | some r => evict data needed fuel r

/-- Each round of the eviction loop removes a packet, and a round that finds the
ring empty and still fails repeats forever: `none` is also a push that never returns. -/
def push (r : RingBuffer N) (data : Bytes) : Option (Bool × RingBuffer N) :=
  let needed := LEN_SIZE + data.length
  if N < needed then some (false, r)
  else if r.frontDrop then evict data needed (r.count + 1) r
  else r.tryPush data needed

def len (r : RingBuffer N) : Nat := r.count

def isEmpty (r : RingBuffer N) : Bool := r.count == 0

end RingBuffer

end Ring
end Leodos

/-
How the packets of a queue lie in the ring.

A queue is laid straight from the read cursor to the write cursor, or it is wrapped:
its older packets run to a gap or to the end of the buffer, and the younger ones
start at position 0.  Every operation is described by the layout it leaves.
-/

namespace Leodos
namespace Ring
namespace RingBuffer

open Memory

variable {N : Nat} {r : RingBuffer N} {q a c : List Bytes} {d data : Bytes} {p e : Nat}

/-! ## One packet -/

@[simp] theorem lenBytes_length (n : Nat) : (lenBytes n).length = 2 := rfl

@[simp] theorem record_length (d : Bytes) : (record d).length = LEN_SIZE + d.length := by
  simp [record, LEN_SIZE]

theorem slice_two {b : Bytes} {pos : Nat} {hi lo : UInt8} (h : slice b pos 2 = [hi, lo]) :
    b[pos]? = some hi ∧ b[pos + 1]? = some lo := by
  have h₀ := congrArg (fun l => l[0]?) h
  have h₁ := congrArg (fun l => l[1]?) h
  simp only [slice_getElem?] at h₀ h₁
  exact ⟨by simpa using h₀, by simpa using h₁⟩

theorem readLen_of_slice {hi lo : UInt8} (h : slice r.buf p 2 = [hi, lo]) :
    r.readLen p = some (hi.toNat <<< 8 ||| lo.toNat) := by
  obtain ⟨h₀, h₁⟩ := slice_two h
  rw [readLen, h₀, h₁]

theorem lenBytes_value {n : Nat} (h : n ≤ 65535) :
    (UInt16.ofNat n >>> 8).toUInt8.toNat <<< 8 ||| (UInt16.ofNat n).toUInt8.toNat = n := by
  have hn : n % 65536 = n := Nat.mod_eq_of_lt (by omega)
  have hhi : (UInt16.ofNat n >>> 8).toUInt8.toNat = n / 256 := by
    simp only [UInt16.toNat_toUInt8, UInt16.toNat_shiftRight, UInt16.toNat_ofNat',
      Nat.reducePow, hn]
    rw [show (8 : UInt16).toNat % 16 = 8 from rfl, Nat.shiftRight_eq_div_pow]
    omega
  have hlo : (UInt16.ofNat n).toUInt8.toNat = n % 256 := by
    simp only [UInt16.toNat_toUInt8, UInt16.toNat_ofNat', Nat.reducePow, hn]
  rw [hhi, hlo, ← Nat.shiftLeft_add_eq_or_of_lt (by omega), Nat.shiftLeft_eq]
  omega

theorem readLen_record (h : slice r.buf p (record d).length = record d)
    (hd : d.length ≤ 65535) : r.readLen p = some d.length := by
  rw [readLen_of_slice (slice_of_append h).1, lenBytes_value hd]

theorem data_record (h : slice r.buf p (record d).length = record d) :
    slice r.buf (p + LEN_SIZE) d.length = d :=
  (slice_of_append h).2

/-! ## The layout -/

/-- An empty packet reads as a gap marker everywhere but at position 0. -/
def Stands (pos : Nat) (d : Bytes) : Prop := d.length ≤ 65535 ∧ (d = [] → pos = 0)

/-- What lies between the older packets and the end of the buffer. -/
def Gap (r : RingBuffer N) (e : Nat) (c : List Bytes) : Prop :=
  e = N ∨ e + LEN_SIZE ≤ N ∧ slice r.buf e LEN_SIZE = [0, 0] ∧ c ≠ []

inductive Layout (r : RingBuffer N) : List Bytes → Prop where
  | straight {q : List Bytes} : Laid record Stands r.buf r.tail q r.head → r.head < N →
      (q = [] → r.head = 0) → Layout r q
  | wrapped {a c : List Bytes} {e : Nat} : Laid record Stands r.buf r.tail a e →
      Laid record Stands r.buf 0 c r.head → r.Gap e c → r.head ≤ r.tail → r.tail < N →
      (a = [] → r.head < r.tail) → Layout r (a ++ c)

/-- The ring holds the packets `q`, oldest first. -/
structure Holds (r : RingBuffer N) (q : List Bytes) : Prop where
  count : r.count = q.length
  layout : r.Layout q

theorem holds_new (hN : 0 < N) : (new N).Holds [] :=
  ⟨rfl, .straight rfl hN fun _ => rfl⟩

theorem holds_withFrontDrop (hN : 0 < N) : (withFrontDrop N).Holds [] :=
  ⟨rfl, .straight rfl hN fun _ => rfl⟩

/-! ## The front packet -/

theorem skipSentinel_packet (h : Laid record Stands r.buf p (d :: q) e) :
    r.skipSentinel p = p := by
  unfold skipSentinel
  split
  · rename_i hmark
    rw [readLen_record h.2.1 h.1.1] at hmark
    have hd : d = [] := List.eq_nil_of_length_eq_zero (Option.some.inj hmark.2.1)
    exact (h.1.2 hd).symm
  · rfl

theorem skipSentinel_gap (hroom : p + LEN_SIZE ≤ N) (hmark : slice r.buf p LEN_SIZE = [0, 0])
    (hne : p ≠ r.head) : r.skipSentinel p = 0 := by
  unfold skipSentinel
  rw [if_pos ⟨hroom, readLen_of_slice hmark, hne⟩]

theorem Layout.front (h : r.Layout (d :: q)) :
    ∃ ds e, Laid record Stands r.buf (r.skipSentinel r.tail) (d :: ds) e ∧ e ≤ N := by
  generalize hq : d :: q = l at h
  cases h with
  | straight hl hlt =>
    subst hq
    rw [skipSentinel_packet hl]
    exact ⟨q, _, hl, by omega⟩
  | @wrapped a c e ha hc hgap hht hlt hcl =>
    cases a with
    | nil =>
      have he : r.tail = e := ha
      rw [List.nil_append] at hq
      subst hq
      rcases hgap with hN | ⟨hroom, hmark, -⟩
      · omega
      · rw [skipSentinel_gap (by omega) (he ▸ hmark) (by have := hcl rfl; omega)]
        exact ⟨q, _, hc, by omega⟩
    | cons x xs =>
      rw [List.cons_append, List.cons.injEq] at hq
      obtain ⟨rfl, -⟩ := hq
      rw [skipSentinel_packet ha]
      refine ⟨xs, _, ha, ?_⟩
      rcases hgap with hN | ⟨hroom, -⟩ <;> omega

theorem Holds.front (h : r.Holds q) : r.front = some q.head? := by
  unfold RingBuffer.front
  cases q with
  | nil => rw [if_pos (show r.count = 0 from h.count)]; rfl
  | cons d q =>
    obtain ⟨ds, e, hl, he⟩ := h.layout.front
    have hle := hl.2.2.le
    rw [record_length] at hle
    have hc := h.count
    rw [List.length_cons] at hc
    simp only [if_neg (show ¬ r.count = 0 by omega), readLen_record hl.2.1 hl.1.1,
      data_record hl.2.1]
    rw [if_pos (by omega)]
    rfl

/-! ## Removing the front packet -/

theorem Holds.pop_nil (h : r.Holds []) : r.pop = some r := by
  unfold pop
  rw [if_pos (show r.count = 0 from h.count)]

/-- The ring after the removal of the packet of `len` bytes at `pos`. -/
def advance (r : RingBuffer N) (pos len : Nat) : RingBuffer N :=
  if r.count = 1 then { r with head := 0, tail := 0, count := 0 }
  else { r with
    tail := if pos + LEN_SIZE + len = N then 0 else pos + LEN_SIZE + len
    count := r.count - 1 }

theorem Holds.pop_cons (h : r.Holds (d :: q)) :
    r.pop = some (r.advance (r.skipSentinel r.tail) d.length) := by
  obtain ⟨ds, e, hl, -⟩ := h.layout.front
  have hc := h.count
  rw [List.length_cons] at hc
  simp only [pop, if_neg (show ¬ r.count = 0 by omega), readLen_record hl.2.1 hl.1.1, advance]
  by_cases h1 : r.count = 1
  · rw [if_pos h1, if_pos h1]
  · rw [if_neg h1, if_neg h1]

theorem Holds.advance (h : r.Holds (d :: q)) :
    (r.advance (r.skipSentinel r.tail) d.length).Holds q := by
  have hc := h.count
  rw [List.length_cons] at hc
  unfold RingBuffer.advance
  cases q with
  | nil =>
    rw [if_pos (by simpa using hc)]
    refine ⟨rfl, .straight rfl ?_ fun _ => rfl⟩
    obtain ⟨ds, e, hl, he⟩ := h.layout.front
    have := hl.2.2.le
    rw [record_length] at this
    show 0 < N
    unfold LEN_SIZE at this
    omega
  | cons d' q =>
    rw [List.length_cons] at hc
    rw [if_neg (by omega)]
    refine ⟨by show r.count - 1 = _; rw [List.length_cons]; omega, ?_⟩
    have hlay := h.layout
    generalize hq : d :: d' :: q = l at hlay
    cases hlay with
    | straight hl hlt =>
      subst hq
      rw [skipSentinel_packet hl]
      have hle := hl.2.2.le
      rw [record_length] at hle
      rw [if_neg (by omega), Nat.add_assoc]
      have hrest := hl.2.2
      rw [record_length] at hrest
      exact .straight hrest hlt nofun
    | @wrapped a c e ha hcl hgap hht hlt hclose =>
      cases a with
      | nil =>
        have he : r.tail = e := ha
        rw [List.nil_append] at hq
        subst hq
        rcases hgap with hN | ⟨hroom, hmark, -⟩
        · omega
        rw [skipSentinel_gap (by omega) (he ▸ hmark) (by have := hclose rfl; omega)]
        have hle := hcl.2.2.le
        rw [record_length] at hle
        rw [if_neg (by omega), Nat.add_assoc]
        have hrest := hcl.2.2
        rw [record_length] at hrest
        exact .straight hrest (by show r.head < N; omega) nofun
      | cons x xs =>
        rw [List.cons_append, List.cons.injEq] at hq
        obtain ⟨rfl, hq⟩ := hq
        rw [skipSentinel_packet ha, hq]
        have hrest := ha.2.2
        rw [record_length, ← Nat.add_assoc] at hrest
        have hle := hrest.le
        by_cases hend : r.tail + LEN_SIZE + d.length = N
        · -- the last older packet ended the buffer, so the rest starts at position 0
          rw [if_pos hend]
          cases xs with
          | nil =>
            rw [List.nil_append] at hq
            subst hq
            exact .straight hcl (by show r.head < N; omega) nofun
          | cons y ys =>
            have := hrest.2.2.le
            rw [record_length] at this
            unfold LEN_SIZE at *
            rcases hgap with hN | ⟨hroom, -⟩ <;> omega
        · rw [if_neg hend]
          refine .wrapped hrest hcl hgap ?_ ?_ ?_
          · show r.head ≤ r.tail + LEN_SIZE + d.length
            omega
          · show r.tail + LEN_SIZE + d.length < N
            rcases hgap with hN | ⟨hroom, -⟩ <;> omega
          · intro _
            show r.head < r.tail + LEN_SIZE + d.length
            unfold LEN_SIZE
            omega

/-! ## Storing a packet -/

/-- The cursor positions in which a push of `needed` bytes keeps the layout. -/
def Clean (r : RingBuffer N) (data : Bytes) : Prop :=
  -- a ring filled to the last byte looks empty to the overlap check
  (0 < r.count → r.head = r.tail →
    N - r.head < LEN_SIZE + data.length ∧ r.tail < LEN_SIZE + data.length) ∧
  -- a ring that is wrapped already must not wrap again
  (r.head < r.tail → N - r.head < LEN_SIZE + data.length →
    r.tail < LEN_SIZE + data.length ∧ (r.head + 1 < r.tail ∨ r.buf[r.tail]? = some 0)) ∧
  -- the gap marker needs two cells
  (r.tail < r.head → N - r.head < LEN_SIZE + data.length → LEN_SIZE + data.length ≤ r.tail →
    r.head + 1 < N) ∧
  -- a write cursor that meets the read cursor on a gap hides the gap
  (r.head + (LEN_SIZE + data.length) = r.tail → r.skipSentinel r.tail = r.tail) ∧
  -- an empty packet is a gap marker
  (data = [] → r.head = 0 ∨ N - r.head < LEN_SIZE + data.length ∨
    r.head < r.tail ∧ r.tail < r.head + (LEN_SIZE + data.length))

instance (r : RingBuffer N) (data : Bytes) : Decidable (r.Clean data) := by
  unfold Clean
  infer_instance

/-- The ring with one more packet, stored at `pos`. -/
def append (r : RingBuffer N) (pos : Nat) (data : Bytes) : RingBuffer N :=
  { r.store pos (record data) with
    head := if pos + (LEN_SIZE + data.length) = N then 0 else pos + (LEN_SIZE + data.length)
    count := r.count + 1 }

theorem place_fits (hfit : p + (LEN_SIZE + data.length) ≤ N)
    (hfree : r.count = 0 ∨ r.tail ≤ p ∨ p + (LEN_SIZE + data.length) ≤ r.tail) :
    r.place p data (LEN_SIZE + data.length) = some (true, r.append p data) := by
  unfold place
  rw [if_neg (by omega), if_pos hfit]
  rfl

theorem place_overlaps (hc : 0 < r.count) (hlt : p < r.tail)
    (hover : r.tail < p + (LEN_SIZE + data.length)) :
    r.place p data (LEN_SIZE + data.length) = some (false, r) := by
  unfold place
  rw [if_pos ⟨hc, hlt, hover⟩]

theorem Layout.tail_lt (h : r.Layout q) : r.tail < N := by
  cases h with
  | straight hl hlt => exact Nat.lt_of_le_of_lt hl.le hlt
  | wrapped _ _ _ _ hlt _ => exact hlt

theorem Layout.head_lt (h : r.Layout q) : r.head < N := by
  cases h with
  | straight hl hlt => exact hlt
  | wrapped _ _ _ hht hlt _ => exact Nat.lt_of_le_of_lt hht hlt

theorem append_straight (hl : Laid record Stands r.buf r.tail q r.head) (hst : Stands r.head data)
    (hfit : r.head + (LEN_SIZE + data.length) ≤ N) :
    (r.append r.head data).Layout (q ++ [data]) := by
  have hlay := hl.concat hst (by rw [record_length, r.sized]; exact hfit)
  rw [record_length] at hlay
  have hle := hl.le
  by_cases hend : r.head + (LEN_SIZE + data.length) = N
  · rw [← List.append_nil (q ++ [data])]
    refine .wrapped hlay ?_ (.inl hend) ?_ ?_ ?_
    · show 0 = (r.append r.head data).head
      rw [append, if_pos hend]
    · rw [append, if_pos hend]
      exact Nat.zero_le _
    · show r.tail < N
      unfold LEN_SIZE at hend
      omega
    · intro h
      simp at h
  · refine .straight ?_ ?_ ?_
    · rw [append, if_neg hend]
      exact hlay
    · rw [append, if_neg hend]
      show r.head + (LEN_SIZE + data.length) < N
      omega
    · intro h
      simp at h

theorem append_wrapped (ha : Laid record Stands r.buf r.tail a e)
    (hc : Laid record Stands r.buf 0 c r.head) (hgap : r.Gap e c) (hlt : r.tail < N)
    (hst : Stands r.head data) (hfit : r.head + (LEN_SIZE + data.length) ≤ r.tail)
    (hclose : a = [] → r.head + (LEN_SIZE + data.length) < r.tail) :
    (r.append r.head data).Layout (a ++ c ++ [data]) := by
  have hlay := hc.concat hst (by rw [record_length, r.sized]; omega)
  rw [record_length] at hlay
  have hend : r.head + (LEN_SIZE + data.length) ≠ N := by omega
  have hae := ha.le
  rw [List.append_assoc]
  refine .wrapped (e := e) (ha.write (.inl ?_)) ?_ ?_ ?_ hlt ?_
  · rw [record_length]
    exact hfit
  · rw [append, if_neg hend]
    exact hlay
  · rcases hgap with hN | ⟨hroom, hmark, -⟩
    · exact .inl hN
    · refine .inr ⟨hroom, ?_, by simp⟩
      show slice (write r.buf r.head (record data)) e LEN_SIZE = _
      rw [slice_write_of_disjoint (by rw [record_length]; omega)]
      exact hmark
  · rw [append, if_neg hend]
    exact hfit
  · intro h
    rw [append, if_neg hend]
    exact hclose h

theorem append_gap (hl : Laid record Stands r.buf r.tail q r.head) (hq : q ≠ [])
    (hroom : r.head + 1 < N) (hst : Stands 0 data) (hfit : LEN_SIZE + data.length ≤ r.tail)
    (hlt : r.tail < N) :
    ((r.store r.head [0, 0]).append 0 data).Layout (q ++ [data]) := by
  have hle := hl.le
  have hmark : slice (write r.buf r.head [0, 0]) r.head LEN_SIZE = [0, 0] :=
    slice_write_self (by rw [r.sized]; exact hroom)
  have hlay : Laid record Stands (write (write r.buf r.head [0, 0]) 0 (record data)) 0 [data]
      (0 + (LEN_SIZE + data.length)) := by
    have hnil : Laid record Stands (write r.buf r.head [0, 0]) 0 [] 0 := rfl
    have hone := hnil.concat hst (by rw [record_length, write_length, r.sized]; omega)
    rwa [record_length] at hone
  have hend : 0 + (LEN_SIZE + data.length) ≠ N := by omega
  refine .wrapped (e := r.head) ((hl.write (.inr (Nat.le_refl _))).write (.inl ?_)) ?_
    (.inr ⟨hroom, ?_, by simp⟩) ?_ hlt ?_
  · rw [record_length]
    omega
  · rw [append, if_neg hend]
    exact hlay
  · show slice (write (write r.buf r.head [0, 0]) 0 (record data)) r.head LEN_SIZE = _
    rw [slice_write_of_disjoint (by rw [record_length]; omega)]
    exact hmark
  · rw [append, if_neg hend]
    show 0 + (LEN_SIZE + data.length) ≤ r.tail
    omega
  · exact fun h => absurd h hq

theorem Layout.mark (h : r.Layout q) (hlt : r.head < r.tail)
    (hfree : r.head + 1 < r.tail ∨ r.buf[r.tail]? = some 0) :
    (r.store r.head [0, 0]).Layout q := by
  have hsame : ∀ i, r.tail ≤ i → (write r.buf r.head [0, 0])[i]? = r.buf[i]? := by
    intro i hi
    rw [write_getElem?]
    by_cases hcell : i = r.head + 1
    · have ht : i = r.tail := by omega
      have hb : r.tail < r.buf.length := by
        rw [r.sized]
        exact h.tail_lt
      rw [if_pos ⟨by omega, by simp only [List.length_cons, List.length_nil]; omega, by omega⟩,
        hcell, Nat.add_sub_cancel_left, ← hcell, ht]
      rcases hfree with hfree | hfree
      · omega
      · exact hfree.symm
    · rw [if_neg (by simp only [List.length_cons, List.length_nil]; omega)]
  cases h with
  | straight hl _ =>
    have := hl.le
    omega
  | @wrapped a c e ha hc hgap hht hlt' hclose =>
    have hae := ha.le
    refine .wrapped (ha.congr fun i hi _ => hsame i hi) (hc.write (.inr (Nat.le_refl _))) ?_ hht
      hlt' hclose
    rcases hgap with hN | ⟨hroom, hmark, hne⟩
    · exact .inl hN
    · have hkeep : slice (write r.buf r.head [0, 0]) e LEN_SIZE = slice r.buf e LEN_SIZE := by
        apply List.ext_getElem?
        intro i
        rw [slice_getElem?, slice_getElem?, hsame (e + i) (by omega)]
      exact .inr ⟨hroom, hkeep.trans hmark, hne⟩

/-- What a push does to the queue: it is accepted at the end or changes nothing. -/
def Pushes (r : RingBuffer N) (q : List Bytes) (data : Bytes)
    (result : Option (Bool × RingBuffer N)) : Prop :=
  ∃ accepted r', result = some (accepted, r') ∧
    r'.Holds (if accepted then q ++ [data] else q) ∧ r'.frontDrop = r.frontDrop ∧
    (q = [] → accepted = true)

theorem Holds.count_pos (h : r.Holds q) (hq : q ≠ []) : 0 < r.count := by
  rw [h.count]
  exact List.length_pos_iff.mpr hq

theorem Holds.rejected (h : r.Holds q) (hq : q ≠ []) : r.Pushes q data (some (false, r)) :=
  ⟨false, r, rfl, h, rfl, fun h' => absurd h' hq⟩

theorem Holds.accepted {r' : RingBuffer N} (h : r.Holds q) (hc : r'.count = r.count + 1)
    (hl : r'.Layout (q ++ [data])) (hf : r'.frontDrop = r.frontDrop) :
    r.Pushes q data (some (true, r')) := by
  refine ⟨true, r', rfl, ⟨?_, hl⟩, hf, fun _ => rfl⟩
  show r'.count = (q ++ [data]).length
  rw [hc, h.count, List.length_append, List.length_singleton]

theorem Holds.tryPush_straight (h : r.Holds q) (hl : Laid record Stands r.buf r.tail q r.head)
    (hnil : q = [] → r.head = 0) (hN : LEN_SIZE + data.length ≤ N) (hd : data.length ≤ 65535)
    (hclean : r.Clean data) : r.Pushes q data (r.tryPush data (LEN_SIZE + data.length)) := by
  obtain ⟨hfull, -, hroom, -, hempty⟩ := hclean
  have hle := hl.le
  have hhead := h.layout.head_lt
  have hneeded : 2 ≤ LEN_SIZE + data.length := Nat.le_add_right _ _
  unfold RingBuffer.tryPush
  by_cases hend : N - r.head < LEN_SIZE + data.length
  · have hq : q ≠ [] := by
      intro hq
      have := hnil hq
      omega
    have hpos := h.count_pos hq
    rw [if_pos hend]
    by_cases hrej : r.tail < LEN_SIZE + data.length
    · rw [if_pos ⟨hpos, hle, hrej⟩]
      exact h.rejected hq
    · have hne : r.head ≠ r.tail := fun heq => hrej (hfull hpos heq).2
      have hmark := hroom (by omega) hend (by omega)
      have hbefore : 0 + (LEN_SIZE + data.length) ≤ (r.store r.head [0, 0]).tail := by
        show 0 + _ ≤ r.tail
        omega
      rw [if_neg (by omega), if_pos hmark, place_fits (by omega) (.inr (.inr hbefore))]
      exact h.accepted rfl (append_gap hl hq hmark ⟨hd, fun _ => rfl⟩ (by omega) (by omega)) rfl
  · rw [if_neg hend, place_fits (by omega) (.inr (.inl hle))]
    refine h.accepted rfl (append_straight hl ⟨hd, fun hnil' => ?_⟩ (by omega)) rfl
    rcases hempty hnil' with h' | h' | h' <;> omega

theorem Holds.tryPush_wrapped (h : r.Holds (a ++ c))
    (ha : Laid record Stands r.buf r.tail a e) (hc : Laid record Stands r.buf 0 c r.head)
    (hgap : r.Gap e c) (hht : r.head ≤ r.tail) (hlt : r.tail < N) (hd : data.length ≤ 65535)
    (hclean : r.Clean data) :
    r.Pushes (a ++ c) data (r.tryPush data (LEN_SIZE + data.length)) := by
  obtain ⟨hfull, hagain, -, hclose, hempty⟩ := hclean
  have hne : a ++ c ≠ [] := by
    intro hnil
    rw [List.append_eq_nil_iff] at hnil
    obtain ⟨rfl, rfl⟩ := hnil
    have he : r.tail = e := ha
    rcases hgap with h' | ⟨-, -, h'⟩
    · omega
    · exact h' rfl
  have hpos := h.count_pos hne
  unfold RingBuffer.tryPush
  by_cases hend : N - r.head < LEN_SIZE + data.length
  · rw [if_pos hend]
    by_cases heq : r.head = r.tail
    · -- the ring is full to the last byte
      rw [if_pos ⟨hpos, by omega, (hfull hpos heq).2⟩]
      exact h.rejected hne
    · obtain ⟨hrej, hfree⟩ := hagain (by omega) hend
      have hkept : (r.store r.head [0, 0]).Holds (a ++ c) :=
        ⟨h.count, h.layout.mark (by omega) hfree⟩
      have hover : (r.store r.head [0, 0]).tail < 0 + (LEN_SIZE + data.length) := by
        show r.tail < _
        omega
      have hbefore : 0 < (r.store r.head [0, 0]).tail := by
        show 0 < r.tail
        omega
      rw [if_neg (by omega), if_pos (by omega),
        place_overlaps (hkept.count_pos hne) hbefore hover]
      exact hkept.rejected hne
  · rw [if_neg hend]
    have heq : r.head ≠ r.tail := fun heq => hend (hfull hpos heq).1
    by_cases hover : r.tail < r.head + (LEN_SIZE + data.length)
    · rw [place_overlaps hpos (by omega) hover]
      exact h.rejected hne
    · rw [place_fits (by omega) (.inr (.inr (by omega)))]
      refine h.accepted rfl (append_wrapped ha hc hgap hlt ⟨hd, fun hnil => ?_⟩ (by omega)
        fun hnil => ?_) rfl
      · rcases hempty hnil with h' | h' | h' <;> omega
      · -- with no older packet left the read cursor stands on the gap
        subst hnil
        have he : r.tail = e := ha
        rcases hgap with h' | ⟨hroom, hmark, -⟩
        · omega
        · have hskip : r.skipSentinel r.tail = 0 :=
            skipSentinel_gap (by omega) (he ▸ hmark) (Ne.symm heq)
          apply Nat.lt_of_le_of_ne (by omega)
          intro hmeet
          have := hclose hmeet
          omega

theorem Holds.tryPush (h : r.Holds q) (hN : LEN_SIZE + data.length ≤ N)
    (hd : data.length ≤ 65535) (hclean : r.Clean data) :
    r.Pushes q data (r.tryPush data (LEN_SIZE + data.length)) := by
  have hlay := h.layout
  cases hlay with
  | straight hl _ hnil => exact h.tryPush_straight hl hnil hN hd hclean
  | wrapped ha hc hgap hht hlt _ => exact h.tryPush_wrapped ha hc hgap hht hlt hd hclean

end RingBuffer
end Ring
end Leodos
