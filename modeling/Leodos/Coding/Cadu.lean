/-
Frames behind sync markers, `coding/framing/cadu.rs`.

`FrameSyncReader` looks for a marker only in the octets of its last read and drops what is left
of them behind the first frame.  So of a stream that is cut into reads it returns the frames
that are the first to lie whole in a read.
-/
import Leodos.Memory.Cells
import Leodos.Packing.Windows
import Leodos.Spp.Sequence
import Mathlib.Tactic.IntervalCases

namespace Leodos
namespace Coding

open Memory Packing Spp

def ASM_TM : Bytes := [0x1a, 0xcf, 0xfc, 0x1d]

def ASM_PROXIMITY1 : Bytes := [0xfa, 0xf3, 0x20]

/-- The markers that the wrappers are made for, `tm` and `proximity1`. -/
inductive Marker where
  | tm
  | proximity1
  deriving DecidableEq, Repr

def Marker.asm : Marker → Bytes
  | .tm => ASM_TM
  | .proximity1 => ASM_PROXIMITY1

theorem Marker.length_asm_pos (marker : Marker) : 0 < marker.asm.length := by
  cases marker <;> decide

inductive CaduError where
  | bufferTooSmall (required provided : Nat)
  | inputTooShort
  | asmMismatch
  deriving DecidableEq, Repr

def encodeCadu (asm frame output : Bytes) : Except CaduError Nat × Bytes :=
  let total := asm.length + frame.length
  if output.length < total then (.error (.bufferTooSmall total output.length), output)
  else (.ok total, write (write output 0 asm) asm.length frame)

/-! ## Searching -/

structure FrameSync where
  asm : Bytes
  frameLen : Nat

namespace FrameSync

def caduLen (sync : FrameSync) : Nat := sync.asm.length + sync.frameLen

/-- The offset of the next marker with a whole frame behind it, and the frame. -/
def findFrame (sync : FrameSync) (data : Bytes) : Option (Nat × Bytes) :=
  if data.length < sync.caduLen then none
  else
    (List.range (data.length - sync.caduLen + 1)).findSome? fun offset =>
      if slice data offset sync.asm.length = sync.asm then
        some (offset, slice data (offset + sync.asm.length) sync.frameLen)
      else none

end FrameSync

/-- The iterator of `find_all_frames`. -/
structure FrameIter where
  sync : FrameSync
  data : Bytes
  pos : Nat

namespace FrameIter

def next (it : FrameIter) : Option ((Nat × Bytes) × FrameIter) :=
  match it.sync.findFrame (it.data.drop it.pos) with
  | none => none
  | some (relOffset, frame) =>
    let absOffset := it.pos + relOffset
    some ((absOffset, frame), { it with pos := absOffset + it.sync.asm.length })

/-- The iterator yields these items and no more. -/
inductive Yields : FrameIter → List (Nat × Bytes) → Prop where
  | nil {it : FrameIter} : it.next = none → Yields it []
  | cons {it it' : FrameIter} {item : Nat × Bytes} {items : List (Nat × Bytes)} :
      it.next = some (item, it') → Yields it' items → Yields it (item :: items)

end FrameIter

def FrameSync.findAllFrames (sync : FrameSync) (data : Bytes) : FrameIter := ⟨sync, data, 0⟩

/-! ## Writing and reading -/

/-- The writer that puts a marker in front. -/
structure AsmWriter where
  asm : Bytes
  buffer : Bytes

/-- `AsmWriter::tm` and `AsmWriter::proximity1`. -/
def AsmWriter.new (marker : Marker) (BUF : Nat) : AsmWriter :=
  ⟨marker.asm, List.replicate BUF 0⟩

/-- The octets that go to the inner writer. -/
def AsmWriter.write (w : AsmWriter) (data : Bytes) : Except CaduError Bytes × AsmWriter :=
  match encodeCadu w.asm data w.buffer with
  | (.error e, buffer) => (.error e, { w with buffer := buffer })
  | (.ok len, buffer) => (.ok (buffer.take len), { w with buffer := buffer })

structure FrameSyncReader where
  asm : Bytes
  frameLen : Nat
  buffer : Bytes

/-- `FrameSyncReader::tm` and `FrameSyncReader::proximity1`. -/
def FrameSyncReader.new (marker : Marker) (frameLen BUF : Nat) : FrameSyncReader :=
  ⟨marker.asm, frameLen, List.replicate BUF 0⟩

inductive FrameSyncReaderError where
  | noFrame
  deriving DecidableEq, Repr

/-- A read for which the inner reader has put `received` at the front of the buffer. -/
def FrameSyncReader.read (r : FrameSyncReader) (received output : Bytes) :
    Except FrameSyncReaderError Nat × Bytes × FrameSyncReader :=
  let buffer := Memory.write r.buffer 0 received
  let r := { r with buffer := buffer }
  match (FrameSync.mk r.asm r.frameLen).findFrame (buffer.take received.length) with
  | none => (.error .noFrame, output, r)
  | some (_, frame) =>
    let copyLen := min frame.length output.length
    (.ok copyLen, Memory.write output 0 (frame.take copyLen), r)

/-- The values that successive reads return.  Reads that find no frame are passed over. -/
def FrameSyncReader.readAll (r : FrameSyncReader) : List (Bytes × Bytes) → List Bytes
  | [] => []
  | (received, output) :: reads =>
    match r.read received output with
    | (.error _, _, r) => r.readAll reads
    | (.ok len, output, r) => output.take len :: r.readAll reads

/-! ## Where a search finds a frame -/

theorem findFrame_eq_none_iff {sync : FrameSync} {data : Bytes} :
    sync.findFrame data = none ↔
      ∀ k, k + sync.caduLen ≤ data.length → slice data k sync.asm.length ≠ sync.asm := by
  rw [FrameSync.findFrame]
  by_cases hshort : data.length < sync.caduLen
  · rw [if_pos hshort, eq_self_iff_true, true_iff]
    intro k hk
    omega
  · rw [if_neg hshort, List.findSome?_eq_none_iff]
    simp only [List.mem_range, ite_eq_right_iff, reduceCtorEq, imp_false]
    constructor <;> intro h k hk <;> exact h k (by omega)

theorem findFrame_eq_some {sync : FrameSync} {data : Bytes} {k : Nat}
    (hlen : k + sync.caduLen ≤ data.length) (hk : slice data k sync.asm.length = sync.asm)
    (hfirst : ∀ j < k, slice data j sync.asm.length ≠ sync.asm) :
    sync.findFrame data = some (k, slice data (k + sync.asm.length) sync.frameLen) := by
  have hcount : data.length - sync.caduLen + 1 = k + (data.length - sync.caduLen - k + 1) := by
    omega
  rw [FrameSync.findFrame, if_neg (by omega), List.findSome?_eq_some_iff]
  refine ⟨List.range k, k, List.range' (k + 1) (data.length - sync.caduLen - k), ?_, ?_, ?_⟩
  · rw [hcount, List.range_eq_range', List.range_eq_range', ← List.range'_append_1, Nat.zero_add,
      List.range'_succ]
  · rw [if_pos hk]
  · intro j hj
    rw [if_neg (hfirst j (List.mem_range.1 hj))]

/-! ## Streams -/

/-- Octets of noise and the frame behind them. -/
structure Piece where
  noise : Bytes
  frame : Bytes

/-- What stands on the line: the noise, and the CADUs that the writer hands on. -/
def AsmWriter.stream (w : AsmWriter) : List Piece → Bytes → Bytes
  | [], noise => noise
  | piece :: pieces, noise =>
    match w.write piece.frame with
    | (.error _, w) => piece.noise ++ w.stream pieces noise
    | (.ok cadu, w) => piece.noise ++ cadu ++ w.stream pieces noise

def offsetsFrom (caduLen : Nat) : Nat → List Piece → List Nat
  | _, [] => []
  | pos, piece :: pieces =>
    (pos + piece.noise.length) :: offsetsFrom caduLen (pos + piece.noise.length + caduLen) pieces

/-- The octets of the same stream, markers and frames written out. -/
def line (asm : Bytes) (pieces : List Piece) (noise : Bytes) : Bytes :=
  pieces.flatMap (fun piece => piece.noise ++ (asm ++ piece.frame)) ++ noise

theorem AsmWriter.write_of_room {w : AsmWriter} {frame : Bytes}
    (h : w.asm.length + frame.length ≤ w.buffer.length) :
    ∃ w', w.write frame = (.ok (w.asm ++ frame), w') ∧ w'.asm = w.asm ∧
      w'.buffer.length = w.buffer.length := by
  have hwrite : encodeCadu w.asm frame w.buffer =
      (.ok (w.asm.length + frame.length),
        Memory.write (Memory.write w.buffer 0 w.asm) w.asm.length frame) := by
    rw [encodeCadu, if_neg (by omega)]
  refine ⟨{ w with buffer := Memory.write (Memory.write w.buffer 0 w.asm) w.asm.length frame },
    ?_, rfl, by simp⟩
  have hasm : slice (Memory.write w.buffer 0 w.asm) 0 w.asm.length = w.asm :=
    slice_write_self (by omega)
  have hcadu : slice (Memory.write (Memory.write w.buffer 0 w.asm) w.asm.length frame) 0
      (w.asm.length + frame.length) = w.asm ++ frame := by
    rw [slice_write_append (by simpa using h), hasm]
  rw [slice, List.drop_zero] at hcadu
  rw [AsmWriter.write, hwrite]
  simp only [hcadu]

theorem AsmWriter.stream_eq {w : AsmWriter} {pieces : List Piece} (noise : Bytes)
    (h : ∀ piece ∈ pieces, w.asm.length + piece.frame.length ≤ w.buffer.length) :
    w.stream pieces noise = line w.asm pieces noise := by
  induction pieces generalizing w with
  | nil => rfl
  | cons piece pieces ih =>
    obtain ⟨w', hwrite, hasm, hbuffer⟩ :=
      AsmWriter.write_of_room (h piece List.mem_cons_self)
    have hrest := ih (w := w') fun p hp => by
      rw [hasm, hbuffer]
      exact h p (List.mem_cons_of_mem _ hp)
    rw [AsmWriter.stream, hwrite]
    simp only [hrest, line, List.flatMap_cons, hasm]
    simp

/-! ## Markers only where CADUs were put -/

theorem le_of_mem_offsetsFrom {caduLen pos o : Nat} {pieces : List Piece}
    (h : o ∈ offsetsFrom caduLen pos pieces) : pos ≤ o := by
  induction pieces generalizing pos with
  | nil => exact absurd h List.not_mem_nil
  | cons piece pieces ih =>
    rcases List.mem_cons.1 h with rfl | h
    · omega
    · have := ih h
      omega

theorem offsetsFrom_pairwise (caduLen pos : Nat) (pieces : List Piece) :
    (offsetsFrom caduLen pos pieces).Pairwise fun o o' => o + caduLen ≤ o' := by
  induction pieces generalizing pos with
  | nil => exact List.Pairwise.nil
  | cons piece pieces ih =>
    exact List.Pairwise.cons (fun o ho => le_of_mem_offsetsFrom ho) (ih _)

theorem slice_append_of_le {α : Type} {a b : List α} {off len : Nat}
    (h : off + len ≤ a.length) : slice (a ++ b) off len = slice a off len := by
  rw [slice, slice, List.drop_append_of_le_length (by omega),
    List.take_append_of_le_length (by rw [List.length_drop]; omega)]

theorem line_at_offset {asm noise : Bytes} {pieces : List Piece} {frameLen : Nat} (front : Bytes)
    (hlen : ∀ piece ∈ pieces, piece.frame.length = frameLen) :
    ∀ o ∈ offsetsFrom (asm.length + frameLen) front.length pieces,
      o + (asm.length + frameLen) ≤ (front ++ line asm pieces noise).length ∧
        slice (front ++ line asm pieces noise) o asm.length = asm := by
  induction pieces generalizing front with
  | nil => exact fun o ho => absurd ho List.not_mem_nil
  | cons piece pieces ih =>
    have hframe := hlen piece List.mem_cons_self
    have hline : front ++ line asm (piece :: pieces) noise =
        (front ++ piece.noise ++ (asm ++ piece.frame)) ++ line asm pieces noise := by
      simp [line]
    intro o ho
    rcases List.mem_cons.1 ho with rfl | ho
    · rw [hline]
      constructor
      · simp
        omega
      · rw [slice_append_of_le (by simp; omega), ← List.length_append,
          ← Nat.add_zero (front ++ piece.noise).length, slice_append_right]
        simp [slice]
    · rw [hline]
      refine ih (front ++ piece.noise ++ (asm ++ piece.frame)) (fun p hp =>
        hlen p (List.mem_cons_of_mem _ hp)) o ?_
      simpa [hframe, Nat.add_assoc] using ho

theorem frames_eq_slices {asm noise : Bytes} {pieces : List Piece} {frameLen : Nat} (front : Bytes)
    (hlen : ∀ piece ∈ pieces, piece.frame.length = frameLen) :
    (offsetsFrom (asm.length + frameLen) front.length pieces).map
        (fun o => slice (front ++ line asm pieces noise) (o + asm.length) frameLen) =
      pieces.map Piece.frame := by
  induction pieces generalizing front with
  | nil => rfl
  | cons piece pieces ih =>
    have hframe := hlen piece List.mem_cons_self
    have hline : front ++ line asm (piece :: pieces) noise =
        (front ++ piece.noise ++ asm) ++ (piece.frame ++ line asm pieces noise) := by
      simp [line]
    have hrest := ih (front ++ piece.noise ++ (asm ++ piece.frame)) fun p hp =>
      hlen p (List.mem_cons_of_mem _ hp)
    have hpos : (front ++ piece.noise ++ (asm ++ piece.frame)).length =
        front.length + piece.noise.length + (asm.length + frameLen) := by
      simp [hframe]
      omega
    have hwhole : front ++ piece.noise ++ (asm ++ piece.frame) ++ line asm pieces noise =
        front ++ line asm (piece :: pieces) noise := by
      simp [line]
    rw [hpos, hwhole] at hrest
    rw [offsetsFrom, List.map_cons, List.map_cons, hrest]
    congr 1
    have hoff : front.length + piece.noise.length + asm.length =
        (front ++ piece.noise ++ asm).length + 0 := by simp [Nat.add_assoc]
    rw [hline, hoff, slice_append_right, slice_append_of_le (by omega), slice, List.drop_zero,
      List.take_of_length_le (by omega)]

/-- In `data` the marker stands at these offsets and nowhere else. -/
structure Marked (sync : FrameSync) (data : Bytes) (offsets : List Nat) : Prop where
  only : ∀ o, slice data o sync.asm.length = sync.asm → o ∈ offsets
  stands : ∀ o ∈ offsets, o + sync.caduLen ≤ data.length ∧ slice data o sync.asm.length = sync.asm
  apart : offsets.Pairwise fun o o' => o + sync.caduLen ≤ o'

/-- The frame behind the marker at an offset. -/
def FrameSync.frameAt (sync : FrameSync) (data : Bytes) (o : Nat) : Bytes :=
  slice data (o + sync.asm.length) sync.frameLen

theorem slice_slice {α : Type} {data : List α} {s n off len : Nat} (h : off + len ≤ n) :
    slice (slice data s n) off len = slice data (s + off) len := by
  rw [slice, slice, slice, List.drop_take, List.take_take, List.drop_drop,
    Nat.min_eq_left (by omega)]

section Search

variable {sync : FrameSync} {data : Bytes} {offsets : List Nat}

theorem Marked.sorted (h : Marked sync data offsets) (hpos : 0 < sync.caduLen) :
    offsets.Pairwise (· < ·) := h.apart.imp fun hle => by omega

theorem Marked.findFrame_slice (h : Marked sync data offsets) (hpos : 0 < sync.caduLen)
    {s n : Nat} (hn : s + n ≤ data.length) :
    sync.findFrame (slice data s n) =
      (firstIn sync.caduLen offsets (s, n)).map fun o => (o - s, sync.frameAt data o) := by
  have hlen : (slice data s n).length = n := slice_length hn
  have hcadu : sync.caduLen = sync.asm.length + sync.frameLen := rfl
  have hat : ∀ k, k + sync.caduLen ≤ n →
      slice (slice data s n) k sync.asm.length = slice data (s + k) sync.asm.length :=
    fun k hk => slice_slice (by omega)
  cases hfirst : firstIn sync.caduLen offsets (s, n) with
  | none =>
    rw [Option.map_none, findFrame_eq_none_iff]
    intro k hk hasm
    rw [hlen] at hk
    rw [hat k hk] at hasm
    have hout := List.find?_eq_none.1 hfirst (s + k) (h.only _ hasm)
    rw [inside_iff] at hout
    dsimp only at hout
    omega
  | some o =>
    have hin := inside_iff.1 (List.find?_some hfirst)
    dsimp only at hin
    have hmem := List.mem_of_find?_eq_some hfirst
    rw [Option.map_some, findFrame_eq_some (k := o - s)]
    · rw [FrameSync.frameAt, slice_slice (by omega)]
      congr 3
      omega
    · omega
    · rw [hat _ (by omega), Nat.add_sub_cancel' hin.1]
      exact (h.stands o hmem).2
    · intro j hj hasm
      rw [hat _ (by omega)] at hasm
      obtain ⟨-, front, back, hoffsets, hfront⟩ := List.find?_eq_some_iff_append.1 hfirst
      have hj' := h.only _ hasm
      have hsorted := h.sorted hpos
      rw [hoffsets] at hj' hsorted
      rcases List.mem_append.1 hj' with hj' | hj'
      · have := hfront _ hj'
        rw [Bool.not_eq_true', ← Bool.not_eq_true, inside_iff] at this
        dsimp only at this
        omega
      · have hback := (List.pairwise_cons.1 (List.pairwise_append.1 hsorted).2.1).1
        rcases List.mem_cons.1 hj' with hj' | hj'
        · omega
        · have := hback _ hj'
          omega

theorem Marked.findFrame_drop (h : Marked sync data offsets) (hpos : 0 < sync.caduLen)
    {s : Nat} (hs : s ≤ data.length) :
    sync.findFrame (data.drop s) =
      (firstIn sync.caduLen offsets (s, data.length - s)).map fun o =>
        (o - s, sync.frameAt data o) := by
  rw [← h.findFrame_slice hpos (by omega), slice,
    List.take_of_length_le (Nat.le_of_eq List.length_drop)]

/-! ## All frames of a stream -/

/-- From a position on, `find_all_frames` yields the frames that stand behind it. -/
theorem Marked.yields_from (h : Marked sync data offsets) (hpos : 0 < sync.asm.length)
    {front back : List Nat} {pos : Nat} (hoffsets : offsets = front ++ back)
    (hfront : ∀ o ∈ front, o < pos) (hback : ∀ o ∈ back, pos ≤ o) (hdata : pos ≤ data.length) :
    FrameIter.Yields ⟨sync, data, pos⟩ (back.map fun o => (o, sync.frameAt data o)) := by
  have hcadu : sync.caduLen = sync.asm.length + sync.frameLen := rfl
  induction back generalizing front pos with
  | nil =>
    refine FrameIter.Yields.nil ?_
    have hnone : firstIn sync.caduLen offsets (pos, data.length - pos) = none := by
      refine List.find?_eq_none.2 fun o ho => ?_
      rw [hoffsets, List.append_nil] at ho
      have := hfront o ho
      rw [inside_iff]
      dsimp only
      omega
    simp only [FrameIter.next, h.findFrame_drop (by omega) hdata, hnone, Option.map_none]
  | cons o back ih =>
    have ho := h.stands o (by simp [hoffsets])
    have hle := hback o List.mem_cons_self
    have hfirst : firstIn sync.caduLen offsets (pos, data.length - pos) = some o := by
      rw [firstIn, List.find?_eq_some_iff_append]
      refine ⟨by rw [inside_iff]; dsimp only; omega, front, back, hoffsets, fun x hx => ?_⟩
      have := hfront x hx
      rw [Bool.not_eq_true', ← Bool.not_eq_true, inside_iff]
      dsimp only
      omega
    have hnext : FrameIter.next ⟨sync, data, pos⟩ =
        some ((o, sync.frameAt data o), ⟨sync, data, o + sync.asm.length⟩) := by
      simp only [FrameIter.next, h.findFrame_drop (by omega) hdata, hfirst, Option.map_some,
        Nat.add_sub_cancel' hle]
    have hapart := h.apart
    rw [hoffsets, List.pairwise_append, List.pairwise_cons] at hapart
    have hsplit : offsets = (front ++ [o]) ++ back := by simp [hoffsets]
    refine FrameIter.Yields.cons hnext (ih hsplit ?_ ?_ (by omega))
    · intro x hx
      rcases List.mem_append.1 hx with hx | hx
      · have := hfront x hx
        omega
      · have := List.mem_singleton.1 hx
        omega
    · intro x hx
      have := hapart.2.1.1 x hx
      omega

/-! ## Frames read by read -/

/-- The room that the output of each read has, and the part of the stream that the read gets. -/
def views (start : Nat) (reads : List (Bytes × Bytes)) : List ((Nat × Nat) × Nat) :=
  (windows start (reads.map fun read => read.1.length)).zip (reads.map fun read => read.2.length)

theorem windows_eq_map_views (start : Nat) (reads : List (Bytes × Bytes)) :
    windows start (reads.map fun read => read.1.length) = (views start reads).map Prod.fst := by
  rw [views, List.map_fst_zip]
  simp [length_windows]

/-- What a read returns for its part of the stream. -/
def shown (sync : FrameSync) (data : Bytes) (offsets : List Nat) (view : (Nat × Nat) × Nat) :
    Option Bytes :=
  (firstIn sync.caduLen offsets view.1).map fun o => (sync.frameAt data o).take view.2

theorem read_eq {r : FrameSyncReader} {received : Bytes} (output : Bytes)
    (hroom : received.length ≤ r.buffer.length) :
    ∃ r', r'.asm = r.asm ∧ r'.frameLen = r.frameLen ∧ r'.buffer.length = r.buffer.length ∧
      r.read received output =
        match (FrameSync.mk r.asm r.frameLen).findFrame received with
        | none => (.error .noFrame, output, r')
        | some (_, frame) =>
          (.ok (min frame.length output.length),
            Memory.write output 0 (frame.take (min frame.length output.length)), r') := by
  refine ⟨{ r with buffer := Memory.write r.buffer 0 received }, rfl, rfl, write_length _ _ _, ?_⟩
  rw [FrameSyncReader.read]
  simp only [take_write hroom]

theorem take_write_min {α : Type} (b src : List α) :
    (Memory.write b 0 (src.take (min src.length b.length))).take (min src.length b.length) =
      src.take b.length := by
  have hlen : (src.take (min src.length b.length)).length = min src.length b.length := by simp
  have hfront : Memory.write b 0 (src.take (min src.length b.length)) =
      src.take (min src.length b.length) ++ b.drop (min src.length b.length) := by
    rw [write_zero (by omega), hlen]
  rw [hfront, List.take_left' hlen, Nat.min_comm, ← List.take_take, List.take_length]

theorem Marked.readAll_eq (h : Marked sync data offsets) (hpos : 0 < sync.caduLen)
    {r : FrameSyncReader} (hasm : r.asm = sync.asm) (hlen : r.frameLen = sync.frameLen)
    (reads : List (Bytes × Bytes)) (hroom : ∀ read ∈ reads, read.1.length ≤ r.buffer.length)
    (front : Bytes) (hdata : data = front ++ (reads.map Prod.fst).flatten) :
    r.readAll reads = (views front.length reads).filterMap (shown sync data offsets) := by
  induction reads generalizing r front with
  | nil => rfl
  | cons read reads ih =>
    obtain ⟨received, output⟩ := read
    obtain ⟨r', hasm', hlen', hbuffer', hread⟩ :=
      read_eq output (hroom (received, output) List.mem_cons_self)
    have hrest := ih (hasm'.trans hasm) (hlen'.trans hlen)
      (fun read hread => by rw [hbuffer']; exact hroom read (List.mem_cons_of_mem _ hread))
      (front ++ received) (by simpa using hdata)
    have hfind : (FrameSync.mk r.asm r.frameLen).findFrame received =
        (firstIn sync.caduLen offsets (front.length, received.length)).map fun o =>
          (o - front.length, sync.frameAt data o) := by
      have hslice : slice data front.length received.length = received := by
        rw [hdata, ← Nat.add_zero front.length, slice_append_right]
        simp [slice]
      have hbound : front.length + received.length ≤ data.length := by
        simp [hdata]
      have := h.findFrame_slice hpos hbound
      rw [hslice] at this
      rw [hasm, hlen, this]
    rw [List.length_append] at hrest
    rw [FrameSyncReader.readAll, hread, hfind]
    cases hfirst : firstIn sync.caduLen offsets (front.length, received.length) with
    | none => simpa [views, windows, shown, hfirst] using hrest
    | some o =>
      simp only [Option.map_some, take_write_min, hrest]
      simp [views, windows, shown, hfirst]

end Search

/-! ## Frames that go over a line -/

/-- Frames written with noise around them, and the reads that the stream is cut into, each with
the output of its caller. -/
structure Transmission where
  marker : Marker
  frameLen : Nat
  writerBuf : Nat
  readerBuf : Nat
  pieces : List Piece
  noise : Bytes
  reads : List (Bytes × Bytes)
  framed : ∀ piece ∈ pieces, piece.frame.length = frameLen
  written : ∀ piece ∈ pieces, marker.asm.length + piece.frame.length ≤ writerBuf
  onlyMarked : ∀ o,
    slice ((AsmWriter.new marker writerBuf).stream pieces noise) o marker.asm.length = marker.asm →
      o ∈ offsetsFrom (marker.asm.length + frameLen) 0 pieces
  joined : (reads.map Prod.fst).flatten = (AsmWriter.new marker writerBuf).stream pieces noise
  bounded : ∀ read ∈ reads, read.1 ≠ [] ∧ read.1.length ≤ readerBuf

namespace Transmission

variable (t : Transmission)

def sync : FrameSync := ⟨t.marker.asm, t.frameLen⟩

def stream : Bytes := (AsmWriter.new t.marker t.writerBuf).stream t.pieces t.noise

def frames : List Bytes := t.pieces.map Piece.frame

def offsets : List Nat := offsetsFrom t.sync.caduLen 0 t.pieces

def reader : FrameSyncReader := FrameSyncReader.new t.marker t.frameLen t.readerBuf

/-- The search finds every frame in the stream, and the reader returns every frame. -/
def NoFrameLost : Prop :=
  (t.sync.findAllFrames t.stream).Yields (t.offsets.zip t.frames) ∧
    t.reader.readAll t.reads = t.frames

/-- A read that gets a whole CADU has room for its frame. -/
def Roomy : Prop :=
  ∀ view ∈ views 0 t.reads,
    (∃ o ∈ t.offsets, inside t.sync.caduLen view.1.1 view.1.2 o = true) → t.frameLen ≤ view.2

theorem length_asm_pos : 0 < t.sync.asm.length := t.marker.length_asm_pos

theorem stream_eq : t.stream = line t.marker.asm t.pieces t.noise :=
  AsmWriter.stream_eq t.noise fun piece hpiece => by
    simpa [AsmWriter.new] using t.written piece hpiece

theorem marked : Marked t.sync t.stream t.offsets where
  only := t.onlyMarked
  stands := by
    rw [stream_eq]
    exact line_at_offset [] t.framed
  apart := offsetsFrom_pairwise _ _ _

theorem map_frameAt : t.offsets.map (t.sync.frameAt t.stream) = t.frames := by
  rw [stream_eq]
  exact frames_eq_slices [] t.framed

theorem findAllFrames_yields :
    (t.sync.findAllFrames t.stream).Yields (t.offsets.zip t.frames) := by
  have h := t.marked.yields_from t.length_asm_pos (List.nil_append _).symm (by simp) (by simp)
    (Nat.zero_le _)
  have hzip := List.zip_map' (f := id) (g := t.sync.frameAt t.stream) (l := t.offsets)
  rw [List.map_id, map_frameAt] at hzip
  rwa [hzip]

theorem readAll_eq :
    t.reader.readAll t.reads = (views 0 t.reads).filterMap (shown t.sync t.stream t.offsets) := by
  refine t.marked.readAll_eq (Nat.lt_of_lt_of_le t.length_asm_pos (Nat.le_add_right _ _)) rfl rfl
    t.reads (fun read hread => ?_) [] t.joined.symm
  simpa [reader, FrameSyncReader.new] using (t.bounded read hread).2

theorem length_readAll :
    (t.reader.readAll t.reads).length =
      (hits t.sync.caduLen t.offsets 0 (t.reads.map fun read => read.1.length)).length := by
  rw [readAll_eq, hits, windows_eq_map_views, List.filterMap_map, List.length_filterMap_eq_countP,
    List.length_filterMap_eq_countP]
  congr 1
  funext view
  simp [shown]

/-- The search always finds every frame.  The reader returns every frame just when each CADU has a
read to itself. -/
theorem noFrameLost_iff :
    t.NoFrameLost ↔
      OneEach t.sync.caduLen t.offsets 0 (t.reads.map fun read => read.1.length) ∧ t.Roomy := by
  have hpos : 0 < t.sync.caduLen := Nat.lt_of_lt_of_le t.length_asm_pos (Nat.le_add_right _ _)
  have hsorted := t.marked.sorted hpos
  have hsub := hits_sublist hpos hsorted 0 (t.reads.map fun read => read.1.length)
  have hframe : ∀ o ∈ t.offsets, (t.sync.frameAt t.stream o).length = t.frameLen := by
    intro o ho
    exact slice_length (by have := (t.marked.stands o ho).1; rw [FrameSync.caduLen] at this; omega)
  rw [← hits_eq_iff hpos hsorted, NoFrameLost, and_iff_right t.findAllFrames_yields]
  constructor
  · intro hall
    constructor
    · refine hsub.eq_of_length ?_
      rw [← length_readAll, hall, ← map_frameAt, List.length_map]
    · intro view hview hwhole
      cases hfirst : firstIn t.sync.caduLen t.offsets view.1 with
      | none =>
        obtain ⟨o, ho, hin⟩ := hwhole
        exact absurd hin (List.find?_eq_none.1 hfirst o ho)
      | some o =>
        have hmem : (t.sync.frameAt t.stream o).take view.2 ∈ t.reader.readAll t.reads := by
          rw [readAll_eq, List.mem_filterMap]
          exact ⟨view, hview, by rw [shown, hfirst, Option.map_some]⟩
        rw [hall] at hmem
        obtain ⟨piece, hpiece, heq⟩ := List.mem_map.1 hmem
        have hlen := congrArg List.length heq
        rw [List.length_take, hframe o (List.mem_of_find?_eq_some hfirst),
          t.framed piece hpiece] at hlen
        omega
  · intro ⟨hhits, hroomy⟩
    have hwhole : ∀ view ∈ views 0 t.reads, shown t.sync t.stream t.offsets view =
        (firstIn t.sync.caduLen t.offsets view.1).map (t.sync.frameAt t.stream) := by
      intro view hview
      rw [shown]
      cases hfirst : firstIn t.sync.caduLen t.offsets view.1 with
      | none => rfl
      | some o =>
        have hmem := List.mem_of_find?_eq_some hfirst
        have := hroomy view hview ⟨o, hmem, List.find?_some hfirst⟩
        rw [Option.map_some, Option.map_some,
          List.take_of_length_le (by rw [hframe o hmem]; exact this)]
    calc t.reader.readAll t.reads
      _ = (views 0 t.reads).filterMap fun view =>
            (firstIn t.sync.caduLen t.offsets view.1).map (t.sync.frameAt t.stream) := by
          rw [readAll_eq]
          exact List.filterMap_congr hwhole
      _ = (hits t.sync.caduLen t.offsets 0 (t.reads.map fun read => read.1.length)).map
            (t.sync.frameAt t.stream) := by
          rw [hits, List.map_filterMap, windows_eq_map_views, List.filterMap_map]
          rfl
      _ = t.frames := by rw [hhits, map_frameAt]

theorem single_onlyMarked (o : Nat)
    (ho : slice ((AsmWriter.new .tm 8).stream [⟨[], [0xaa]⟩] []) o ASM_TM.length = ASM_TM) :
    o ∈ offsetsFrom (ASM_TM.length + 1) 0 [⟨[], [0xaa]⟩] := by
  have hlen := congrArg List.length ho
  rw [slice, List.length_take, List.length_drop] at hlen
  have hbound : o ≤ 1 := by
    change min 4 (5 - o) = 4 at hlen
    omega
  interval_cases o
  · decide
  · exact absurd ho (by decide)

/-- A frame whose marker and octets come in two reads. -/
def cutBehindMarker : Transmission where
  marker := .tm
  frameLen := 1
  writerBuf := 8
  readerBuf := 8
  pieces := [⟨[], [0xaa]⟩]
  noise := []
  reads := [(ASM_TM, [0]), ([0xaa], [0])]
  framed := by decide
  written := by decide
  onlyMarked := single_onlyMarked
  joined := by decide
  bounded := by decide

theorem cutBehindMarker_lost : ¬ cutBehindMarker.NoFrameLost :=
  fun h => absurd h.2 (by decide)

end Transmission

end Coding
end Leodos
