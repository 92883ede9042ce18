/-
The coding pipeline, `coding/pipeline.rs`, with the stages that it is made of.

The reader takes what its decoder returns for the length of the frame.  That is so without a
code.  The Reed-Solomon decoder returns the number of symbols that it corrected, and the Viterbi
decoder decodes the bits that fill the last octet too.  `none` stands for a panic.
-/
import Leodos.Coding.Cadu
import Leodos.Coding.Convolutional.Decoding
import Leodos.Coding.ReedSolomon.Interleaving

namespace Leodos
namespace Coding
namespace Pipeline

open Memory Spp

/-! ## Stages -/

/-- One clock of a shift register, with the sum of the tapped bits into its top. -/
def clock {w : Nat} (taps : List Nat) (lfsr : BitVec w) : BitVec w :=
  let extraBit := taps.foldl (fun x k => x ^^ lfsr.getLsbD k) false
  (lfsr >>> 1) ||| ((BitVec.ofBool extraBit).setWidth w <<< (w - 1))

/-- The low bits of eight clocks, the first one on top, and the register behind them. -/
def shiftOut {w : Nat} (taps : List Nat) (lfsr : BitVec w) : UInt8 × BitVec w :=
  (List.range 8).foldl
    (fun s _ => ((s.1 <<< 1) ||| (if s.2.getLsbD 0 then 1 else 0), clock taps s.2)) (0, lfsr)

def tableOf {w : Nat} (taps : List Nat) : Nat → BitVec w → Bytes
  | 0, _ => []
  | n + 1, lfsr => (shiftOut taps lfsr).1 :: tableOf taps n (shiftOut taps lfsr).2

inductive Randomizer where
  | none
  | tc
  | tm255
  | tm131071

def Randomizer.table : Randomizer → Bytes
  | none => []
  | tc => tableOf [0, 1, 2, 3, 4, 6] 255 (0xff : BitVec 8)
  | tm255 => tableOf [0, 3, 5, 7] 255 (0xff : BitVec 8)
  | tm131071 => tableOf [0, 3] 131071 (0x1ffff : BitVec 17)

def Randomizer.apply (r : Randomizer) (buffer : Bytes) : Bytes :=
  buffer.mapIdx fun i byte => byte ^^^ r.table.getD (i % r.table.length) 0

example : tableOf [0, 1, 2, 3, 4, 6] 4 (0xff : BitVec 8) = [0xff, 0x39, 0x9e, 0x5a] := by decide

/-- A stage that writes into an output buffer. -/
abbrev Stage (E : Type) := Bytes → Bytes → Option (Except E Nat × Bytes)

abbrev Decoder (E : Type) := Bytes → Option (Except E Nat × Bytes)

/-- `encode` of `NoFec`, and both directions of `NoFramer`. -/
def copy {E : Type} : Stage E := fun data output =>
  if output.length < data.length then none else some (.ok data.length, write output 0 data)

def noFecDecode {E : Type} : Decoder E := fun data => some (.ok data.length, data)

def reedSolomonEncode (interleaveDepth : UInt8) : Stage ReedSolomon.RsError := fun data output =>
  if interleaveDepth ≤ 1 then some (ReedSolomon.encode data output)
  else ReedSolomon.encodeInterleaved data interleaveDepth output

def reedSolomonDecode (interleaveDepth : UInt8) : Decoder ReedSolomon.RsError := fun data =>
  if interleaveDepth ≤ 1 then
    if data.length < ReedSolomon.N then
      some (.error (.bufferTooShort ReedSolomon.N data.length), data)
    else do
      let r ← ReedSolomon.decode (ReedSolomon.wordAt 1 0 data)
      return (r.1, write data 0 r.2.toList)
  else ReedSolomon.decodeInterleaved data interleaveDepth

/-- The room for soft values in `ViterbiDecoder::decode`, and for decoded octets. -/
def MAX_LLRS : Nat := 8192

def MAX_OUTPUT : Nat := 1024

def viterbiDecode (llrMagnitude : Int16) : Decoder Convolutional.ConvError := fun data =>
  let numBits := data.length * 8
  if MAX_LLRS < numBits then none
  else do
    let llrs ← Convolutional.hardToLlr data numBits llrMagnitude (List.replicate numBits 0)
    let r ← Convolutional.decode llrs (List.replicate MAX_OUTPUT 0)
    match r.1 with
    | .error e => return (.error e, data)
    | .ok len =>
      if data.length < len then none else return (.ok len, write data 0 (r.2.take len))

/-- `NoFramer`, or a sync marker in front. -/
inductive Framer where
  | none
  | asm (marker : Marker)

def Framer.marker : Framer → Bytes
  | none => []
  | asm marker => marker.asm

def Framer.frame : Framer → Stage CaduError
  | none => copy
  | asm marker => fun data output => some (encodeCadu marker.asm data output)

def Framer.deframe (frameLen : Nat) : Framer → Stage CaduError
  | none => copy
  | asm marker => fun data output =>
    match (FrameSync.mk marker.asm frameLen).findFrame data with
    | .none => some (.error .asmMismatch, output)
    | .some found =>
      let len := min found.2.length output.length
      some (.ok len, write output 0 (found.2.take len))

/-! ## Writing and reading -/

structure CodingWriter (F M : Type) where
  randomizer : Randomizer
  fec : Stage F
  framer : Stage M
  bufA : Bytes
  bufB : Bytes

inductive CodingWriteError (F M : Type) where
  | fec (e : F)
  | framer (e : M)
  | bufferTooSmall

/-- The octets that go to the physical layer. -/
def CodingWriter.write {F M : Type} (w : CodingWriter F M) (frame : Bytes) :
    Option (Except (CodingWriteError F M) Bytes × CodingWriter F M) :=
  if w.bufA.length < frame.length then some (.error .bufferTooSmall, w)
  else do
    let bufA := Memory.write w.bufA 0 (w.randomizer.apply frame)
    let coded ← w.fec (bufA.take frame.length) w.bufB
    let w := { w with bufA := bufA, bufB := coded.2 }
    match coded.1 with
    | .error e => return (.error (.fec e), w)
    | .ok fecLen =>
      if w.bufB.length < fecLen then none
      else do
        let framed ← w.framer (w.bufB.take fecLen) w.bufA
        let w := { w with bufA := framed.2 }
        match framed.1 with
        | .error e => return (.error (.framer e), w)
        | .ok framedLen =>
          if w.bufA.length < framedLen then none else return (.ok (w.bufA.take framedLen), w)

structure CodingReader (D F : Type) where
  randomizer : Randomizer
  deframer : Stage D
  fec : Decoder F
  bufA : Bytes
  bufB : Bytes

inductive CodingReadError (D F : Type) where
  | deframer (e : D)
  | fec (e : F)
  | bufferTooSmall
  deriving DecidableEq

section Reading

variable {D F : Type}

/-- From the deframed octets on: decode, derandomise, and copy to the caller. -/
def CodingReader.finish (r : CodingReader D F) (deframed buffer : Bytes) :
    Option (Except (CodingReadError D F) Nat × Bytes × CodingReader D F) := do
  let bufA := Memory.write r.bufA 0 deframed
  let decoded ← r.fec (bufA.take deframed.length)
  let bufA := Memory.write bufA 0 decoded.2
  match decoded.1 with
  | .error e => return (.error (.fec e), buffer, { r with bufA := bufA })
  | .ok dataLen =>
    if bufA.length < dataLen then none
    else
      let data := r.randomizer.apply (bufA.take dataLen)
      let r := { r with bufA := Memory.write bufA 0 data }
      if buffer.length < dataLen then return (.error .bufferTooSmall, buffer, r)
      else return (.ok dataLen, Memory.write buffer 0 data, r)

/-- A read for which the physical layer has put `received` at the front of the buffer. -/
def CodingReader.read (r : CodingReader D F) (received buffer : Bytes) :
    Option (Except (CodingReadError D F) Nat × Bytes × CodingReader D F) :=
  let r := { r with bufA := Memory.write r.bufA 0 received }
  if received.length = 0 then some (.ok 0, buffer, r)
  else do
    let deframed ← r.deframer (r.bufA.take received.length) r.bufB
    let r := { r with bufB := deframed.2 }
    match deframed.1 with
    | .error e => return (.error (.deframer e), buffer, r)
    | .ok len => if r.bufB.length < len then none else r.finish (r.bufB.take len) buffer

end Reading

/-! ## What a stage makes -/

@[simp] theorem Randomizer.length_apply (r : Randomizer) (buffer : Bytes) :
    (r.apply buffer).length = buffer.length :=
  List.length_mapIdx

@[simp] theorem Randomizer.apply_apply (r : Randomizer) (buffer : Bytes) :
    r.apply (r.apply buffer) = buffer := by
  apply List.ext_getElem (by rw [length_apply, length_apply])
  intro i _ _
  simp only [apply, List.getElem_mapIdx]
  rw [UInt8.xor_assoc, UInt8.xor_self, UInt8.xor_zero]

/-- The stage makes `result` of the data in an output buffer with this content. -/
def Writes {E : Type} (stage : Stage E) (data output result : Bytes) : Prop :=
  ∃ output', stage data output = some (.ok result.length, output') ∧
    output'.length = output.length ∧ output'.take result.length = result

variable {E F M D : Type} {data output frame coded sent buffer : Bytes}

theorem writes_of_write {stage : Stage E} {result : Bytes}
    (h : stage data output = some (.ok result.length, write output 0 result))
    (hroom : result.length ≤ output.length) : Writes stage data output result :=
  ⟨_, h, write_length .., take_write hroom⟩

theorem writes_copy (h : data.length ≤ output.length) :
    Writes (copy (E := E)) data output data :=
  writes_of_write (if_neg (Nat.not_lt.2 h)) h

theorem writes_frame (framer : Framer)
    (h : framer.marker.length + data.length ≤ output.length) :
    Writes framer.frame data output (framer.marker ++ data) := by
  cases framer with
  | none => exact writes_copy (by simpa [Framer.marker] using h)
  | asm marker =>
    have h : marker.asm.length + data.length ≤ output.length := h
    refine ⟨write (write output 0 marker.asm) marker.asm.length data, ?_, by simp, ?_⟩
    · show some (encodeCadu marker.asm data output) = _
      rw [encodeCadu, if_neg (Nat.not_lt.2 h), Framer.marker, List.length_append]
    · have hslice := slice_write_append (show marker.asm.length + data.length ≤
        (write output 0 marker.asm).length by simpa using h)
      rw [slice_write_self (by omega)] at hslice
      simpa [slice, Framer.marker] using hslice

theorem writes_deframe (framer : Framer) (h : data.length ≤ output.length) :
    Writes (framer.deframe data.length) (framer.marker ++ data) output data := by
  cases framer with
  | none => exact writes_copy h
  | asm marker =>
    refine writes_of_write ?_ h
    have hfound : (FrameSync.mk marker.asm data.length).findFrame (marker.asm ++ data) =
        some (0, data) := by
      rw [findFrame_eq_some (k := 0) (by simp [FrameSync.caduLen]) (slice_append_left ..)
        fun j hj => absurd hj (Nat.not_lt_zero j)]
      simp [slice]
    simp only [Framer.deframe, Framer.marker, hfound, Nat.min_eq_left h, List.take_length]

/-! ## Calls -/

theorem CodingWriter.write_eq {w : CodingWriter F M} (hframe : frame.length ≤ w.bufA.length)
    (hfec : Writes w.fec (w.randomizer.apply frame) w.bufB coded)
    (hframer : ∀ output : Bytes, output.length = w.bufA.length →
      Writes w.framer coded output sent) :
    ∃ bufA bufB, w.write frame = some (.ok sent, { w with bufA := bufA, bufB := bufB }) ∧
      bufA.length = w.bufA.length ∧ bufB.length = w.bufB.length := by
  have hcopied : (Memory.write w.bufA 0 (w.randomizer.apply frame)).take frame.length =
      w.randomizer.apply frame := by
    simpa using take_write
      (show (w.randomizer.apply frame).length ≤ w.bufA.length by simpa using hframe)
  obtain ⟨bufB, hcode, hB, hcoded⟩ := hfec
  obtain ⟨bufA, hsend, hA, hsent⟩ := hframer (Memory.write w.bufA 0 (w.randomizer.apply frame))
    (write_length ..)
  rw [write_length] at hA
  have hcodedLen : coded.length ≤ bufB.length := by
    rw [← hcoded]
    exact List.length_take_le' ..
  have hsentLen : sent.length ≤ bufA.length := by
    rw [← hsent]
    exact List.length_take_le' ..
  refine ⟨bufA, bufB, ?_, hA, hB⟩
  rw [write, if_neg (Nat.not_lt.2 hframe)]
  simp only [hcopied, hcode, hcoded, hsend, hsent, if_neg (Nat.not_lt.2 hcodedLen),
    if_neg (Nat.not_lt.2 hsentLen), Option.bind_eq_bind, Option.bind_some, Option.pure_def]

theorem CodingReader.read_eq {r : CodingReader D F} (buffer : Bytes) (hsent : sent ≠ [])
    (hlen : sent.length ≤ r.bufA.length) (hdeframe : Writes r.deframer sent r.bufB coded) :
    ∃ bufA bufB, r.read sent buffer =
        ({ r with bufA := bufA, bufB := bufB } : CodingReader D F).finish coded buffer ∧
      bufA.length = r.bufA.length ∧ bufB.length = r.bufB.length := by
  obtain ⟨bufB, hdeframed, hB, hcoded⟩ := hdeframe
  have hcodedLen : coded.length ≤ bufB.length := by
    rw [← hcoded]
    exact List.length_take_le' ..
  refine ⟨Memory.write r.bufA 0 sent, bufB, ?_, write_length .., hB⟩
  rw [read, if_neg (fun h => hsent (List.length_eq_zero_iff.1 h))]
  simp only [take_write hlen, hdeframed, hcoded, if_neg (Nat.not_lt.2 hcodedLen),
    Option.bind_eq_bind, Option.bind_some]

theorem CodingReader.finish_eq {r : CodingReader D F} {n : Nat} (buffer : Bytes)
    (hlen : coded.length ≤ r.bufA.length) (hfec : r.fec coded = some (.ok n, data))
    (hdata : data.length ≤ r.bufA.length) (hn : n ≤ data.length) :
    ∃ bufA, r.finish coded buffer = some (if buffer.length < n then
        (.error .bufferTooSmall, buffer, { r with bufA := bufA })
      else (.ok n, Memory.write buffer 0 (r.randomizer.apply (data.take n)),
        { r with bufA := bufA })) ∧ bufA.length = r.bufA.length := by
  have htake : (Memory.write (Memory.write r.bufA 0 coded) 0 data).take n = data.take n := by
    rw [write_zero (by simpa using hdata), List.take_append_of_le_length hn]
  refine ⟨Memory.write (Memory.write (Memory.write r.bufA 0 coded) 0 data) 0
    (r.randomizer.apply (data.take n)), ?_, by simp only [write_length]⟩
  rw [finish]
  simp only [take_write hlen, hfec, htake, write_length,
    if_neg (show ¬ r.bufA.length < n by omega), Option.bind_eq_bind, Option.bind_some,
    Option.pure_def]
  split <;> rfl

theorem CodingReader.finish_none {r : CodingReader D F} (hlen : coded.length ≤ r.bufA.length)
    (hfec : r.fec coded = none) : r.finish coded buffer = none := by
  rw [finish]
  simp only [take_write hlen, hfec, Option.bind_eq_bind, Option.bind_none]

/-! ## Links -/

/-- A writer and a reader that fit each other, with the length of a coded frame. -/
structure Link (F E : Type) where
  randomizer : Randomizer
  framer : Framer
  fec : Stage F
  decode : Decoder E
  codedLen : Nat

namespace Link

variable (l : Link F E) {BUF : Nat}

def writer (bufs : Bytes × Bytes) : CodingWriter F CaduError :=
  ⟨l.randomizer, l.fec, l.framer.frame, bufs.1, bufs.2⟩

def reader (bufs : Bytes × Bytes) : CodingReader CaduError E :=
  ⟨l.randomizer, l.framer.deframe l.codedLen, l.decode, bufs.1, bufs.2⟩

end Link

/-- Buffers of a writer or a reader. -/
def Sized (BUF : Nat) (bufs : Bytes × Bytes) : Prop := bufs.1.length = BUF ∧ bufs.2.length = BUF

section Links

variable {l : Link F E} {BUF : Nat}

/-- Whatever the buffers hold, the frame is sent, and of the result of the read and of the
caller's buffer this holds. -/
def Link.Passes (l : Link F E) (BUF : Nat) (frame buffer : Bytes)
    (post : Except (CodingReadError CaduError E) Nat → Bytes → Prop) : Prop :=
  ∀ w r, Sized BUF w → Sized BUF r → ∃ sent w' result buffer' r', Sized BUF w' ∧ Sized BUF r' ∧
    (l.writer w).write frame = some (.ok sent, l.writer w') ∧
    (l.reader r).read sent buffer = some (result, buffer', l.reader r') ∧ post result buffer'

theorem Link.exchange {w r : Bytes × Bytes} (buffer : Bytes) (hw : Sized BUF w) (hr : Sized BUF r)
    (hframe : frame.length ≤ BUF) (hroom : l.framer.marker.length + l.codedLen ≤ BUF)
    (hfec : Writes l.fec (l.randomizer.apply frame) w.2 coded) (hlen : coded.length = l.codedLen)
    (hpos : 0 < l.codedLen) :
    ∃ sent w' r', Sized BUF w' ∧ Sized BUF r' ∧
      (l.writer w).write frame = some (.ok sent, l.writer w') ∧
      (l.reader r).read sent buffer = (l.reader r').finish coded buffer := by
  obtain ⟨a, b, hwrite, ha, hb⟩ := CodingWriter.write_eq (w := l.writer w)
    (hw.1.symm ▸ hframe) hfec fun output houtput => writes_frame l.framer (by
      rw [houtput, hlen]
      exact hw.1.symm ▸ hroom)
  have hne : l.framer.marker ++ coded ≠ [] := List.ne_nil_of_length_pos (by
    rw [List.length_append]
    omega)
  have hdeframe := writes_deframe l.framer (show coded.length ≤ r.2.length by rw [hr.2]; omega)
  rw [hlen] at hdeframe
  obtain ⟨a', b', hread, ha', hb'⟩ := CodingReader.read_eq (r := l.reader r) buffer hne
    (by rw [List.length_append, hlen]; exact hr.1.symm ▸ hroom) hdeframe
  exact ⟨_, (a, b), (a', b'), ⟨ha.trans hw.1, hb.trans hw.2⟩, ⟨ha'.trans hr.1, hb'.trans hr.2⟩,
    hwrite, hread⟩

theorem Link.passes {post : Except (CodingReadError CaduError E) Nat → Bytes → Prop}
    (hframe : frame.length ≤ BUF) (hroom : l.framer.marker.length + l.codedLen ≤ BUF)
    (hpos : 0 < l.codedLen)
    (hcode : ∀ output : Bytes, output.length = BUF → ∃ coded n data,
      Writes l.fec (l.randomizer.apply frame) output coded ∧ coded.length = l.codedLen ∧
      l.decode coded = some (.ok n, data) ∧ data.length = coded.length ∧ n ≤ data.length ∧
      if buffer.length < n then post (.error .bufferTooSmall) buffer
      else post (.ok n) (write buffer 0 (l.randomizer.apply (data.take n)))) :
    l.Passes BUF frame buffer post := by
  intro w r hw hr
  obtain ⟨coded, n, data, hfec, hlen, hdecode, hdata, hn, hpost⟩ := hcode w.2 hw.2
  obtain ⟨sent, w', r', hw', hr', hwrite, hread⟩ :=
    Link.exchange buffer hw hr hframe hroom hfec hlen hpos
  have hfits : coded.length ≤ (l.reader r').bufA.length := by
    rw [show (l.reader r').bufA.length = BUF from hr'.1]
    omega
  obtain ⟨a, hfinish, ha⟩ := CodingReader.finish_eq (r := l.reader r') buffer hfits
    hdecode (hdata ▸ hfits) hn
  rw [hfinish] at hread
  have ha' : Sized BUF (a, r'.2) := ⟨ha.trans hr'.1, hr'.2⟩
  by_cases hsmall : buffer.length < n
  · rw [if_pos hsmall] at hread hpost
    exact ⟨sent, w', _, _, (a, r'.2), hw', ha', hwrite, hread, hpost⟩
  · rw [if_neg hsmall] at hread hpost
    exact ⟨sent, w', _, _, (a, r'.2), hw', ha', hwrite, hread, hpost⟩

/-! ## Without a code -/

def uncoded (randomizer : Randomizer) (framer : Framer) (frameLen : Nat) : Link F E :=
  ⟨randomizer, framer, copy, noFecDecode, frameLen⟩

/-- Frames that are written one after another, each read before the next. -/
def relay (w : CodingWriter F M) (r : CodingReader D E) :
    List (Bytes × Bytes) → Option (List (Except (CodingReadError D E) Nat × Bytes))
  | [] => some []
  | call :: calls => do
    let written ← w.write call.1
    match written.1 with
    | .error _ => relay written.2 r calls
    | .ok sent => do
      let got ← r.read sent call.2
      let rest ← relay written.2 got.2.2 calls
      return (got.1, got.2.1) :: rest

/-- Without a code every frame comes back, whatever the buffers hold from frames before. -/
theorem uncoded_frames_come_back {F E : Type} (randomizer : Randomizer) (framer : Framer)
    {frameLen BUF : Nat} {w r : Bytes × Bytes} (hw : Sized BUF w) (hr : Sized BUF r)
    (hpos : 0 < frameLen) (hroom : framer.marker.length + frameLen ≤ BUF)
    {calls : List (Bytes × Bytes)}
    (hcalls : ∀ call ∈ calls, call.1.length = frameLen ∧ frameLen ≤ call.2.length) :
    relay ((uncoded (F := F) (E := E) randomizer framer frameLen).writer w)
        ((uncoded (F := F) (E := E) randomizer framer frameLen).reader r) calls =
      some (calls.map fun call => (.ok frameLen, write call.2 0 call.1)) := by
  induction calls generalizing w r with
  | nil => rfl
  | cons call calls ih =>
    obtain ⟨hframe, hbuffer⟩ := hcalls call List.mem_cons_self
    have hlen : (randomizer.apply call.1).length = frameLen := by
      rw [Randomizer.length_apply, hframe]
    have hpasses : (uncoded (F := F) (E := E) randomizer framer frameLen).Passes BUF call.1 call.2
        fun result buffer => result = .ok frameLen ∧ buffer = write call.2 0 call.1 := by
      refine Link.passes (by omega) hroom hpos fun output houtput => ⟨_, _, _,
        writes_copy (by rw [uncoded, hlen]; omega), hlen, rfl, rfl, Nat.le_refl _, ?_⟩
      rw [Randomizer.length_apply, hframe, if_neg (Nat.not_lt.2 hbuffer), List.take_of_length_le
        (by rw [Randomizer.length_apply, hframe]), Randomizer.apply_apply]
      exact ⟨rfl, rfl⟩
    obtain ⟨sent, w', _, _, r', hw', hr', hwrite, hread, rfl, rfl⟩ := hpasses w r hw hr
    have hrest := ih hw' hr' fun call hcall => hcalls call (List.mem_cons_of_mem _ hcall)
    simp only [relay, hwrite, hread, hrest, Option.bind_eq_bind, Option.bind_some,
      Option.pure_def, List.map_cons]

theorem uncoded_frames_come_back_two :
    relay ((uncoded (F := Empty) (E := Empty) .tc (.asm .tm) 2).writer
          (List.replicate 8 0, List.replicate 8 0))
        ((uncoded (F := Empty) (E := Empty) .tc (.asm .tm) 2).reader
          (List.replicate 8 0, List.replicate 8 0)) [([1, 2], [0, 0]), ([3, 4], [0, 0, 0])] =
      some [(.ok 2, [1, 2]), (.ok 2, [3, 4, 0])] :=
  uncoded_frames_come_back .tc (.asm .tm)
    (show Sized 8 (List.replicate 8 0, List.replicate 8 0) from ⟨rfl, rfl⟩) ⟨rfl, rfl⟩ (by decide)
    (by decide) (by decide)

end Links

/-! ## With a code -/

section Codes

open ReedSolomon (wordAt NoSyndromes)

def Accepts (interleaveDepth : UInt8) (data : Bytes) : Prop :=
  if interleaveDepth ≤ 1 then data.length ≤ ReedSolomon.K
  else interleaveDepth ≤ 5 ∧ interleaveDepth.toNat * ReedSolomon.K ≤ data.length

def codedLen (interleaveDepth : UInt8) : Nat :=
  if interleaveDepth ≤ 1 then ReedSolomon.N else interleaveDepth.toNat * ReedSolomon.N

theorem reedSolomon_codes {depth : UInt8} (haccept : Accepts depth data)
    (hroom : codedLen depth ≤ output.length) :
    ∃ coded data', Writes (reedSolomonEncode depth) data output coded ∧
      coded.length = codedLen depth ∧ reedSolomonDecode depth coded = some (.ok 0, data') ∧
      data'.length = coded.length := by
  have hN : ReedSolomon.N = 255 := rfl
  by_cases hdepth : depth ≤ 1
  · rw [Accepts, if_pos hdepth] at haccept
    rw [codedLen, if_pos hdepth] at hroom ⊢
    have hpadded : (ReedSolomon.padded data).length = ReedSolomon.K := by
      rw [ReedSolomon.padded, List.length_append, List.length_replicate]
      omega
    obtain ⟨coded, hcoded⟩ : ∃ coded, coded = ReedSolomon.padded data ++
      ((ReedSolomon.padded data).foldl ReedSolomon.divide (Vector.replicate _ 0)).toList := ⟨_, rfl⟩
    have hlen : coded.length = ReedSolomon.N := by
      rw [hcoded, List.length_append, hpadded, Vector.length_toList]
      rfl
    have hword : (wordAt 1 0 coded).toList = coded := by
      simpa [wordAt] using ReedSolomon.toList_ofFn_getD hlen
    have hclean : NoSyndromes (wordAt 1 0 coded) :=
      (ReedSolomon.codeword_iff _).1 ⟨_, List.replicate _ 0, hpadded, List.length_replicate, by
        rw [ReedSolomon.encode_of_length hpadded List.length_replicate, hword, hcoded]⟩
    refine ⟨coded, coded, ⟨coded ++ output.drop ReedSolomon.N, ?_, ?_, ?_⟩, hlen, ?_, rfl⟩
    · rw [reedSolomonEncode, if_pos hdepth, ReedSolomon.encode, if_neg (by omega),
        if_neg (by omega), hlen, hcoded]
    · rw [List.length_append, List.length_drop]
      omega
    · exact List.take_left
    · rw [reedSolomonDecode, if_pos hdepth, if_neg (by omega),
        ReedSolomon.decode_of_noSyndromes hclean]
      show some (_, write coded 0 (wordAt 1 0 coded).toList) = _
      rw [hword, write_zero (Nat.le_refl _), List.drop_length, List.append_nil]
  · rw [Accepts, if_neg hdepth] at haccept
    rw [codedLen, if_neg hdepth] at hroom ⊢
    have h1 : 1 ≤ depth := UInt8.le_of_lt (UInt8.not_le.1 hdepth)
    obtain ⟨out, hencode, hmixed⟩ :=
      ReedSolomon.encodeInterleaved_eq h1 haccept.1 haccept.2 hroom
    have hlen : (out.take (depth.toNat * ReedSolomon.N)).length = depth.toNat * ReedSolomon.N := by
      rw [List.length_take, hmixed.length]
      exact Nat.min_eq_left hroom
    have hclean : ∀ i < depth.toNat,
        NoSyndromes (wordAt depth.toNat i (out.take (depth.toNat * ReedSolomon.N))) := by
      intro i hi
      have hsame : wordAt depth.toNat i (out.take (depth.toNat * ReedSolomon.N)) =
          wordAt depth.toNat i out := ReedSolomon.wordAt_congr fun j hj => by
        rw [List.getD_eq_getElem?_getD, List.getElem?_take,
          if_pos (ReedSolomon.index_lt hi hj (Nat.le_of_eq hlen.symm) |>.trans_eq hlen)]
        rfl
      rw [hsame, hmixed.wordAt_done hi]
      exact ReedSolomon.codewordAt_noSyndromes _ _ _
    obtain ⟨data', hdecode, hmixed'⟩ := ReedSolomon.decodeInterleaved_eq h1 haccept.1
      (Nat.le_of_eq hlen.symm) _ hclean fun i _ => by simp [ReedSolomon.distance, ReedSolomon.wrong]
    refine ⟨_, data', ⟨out, ?_, hmixed.length, by rw [hlen]⟩, hlen, ?_, hmixed'.length⟩
    · rw [reedSolomonEncode, if_neg hdepth, hencode, hlen]
    · rw [reedSolomonDecode, if_neg hdepth, hdecode]
      simp [ReedSolomon.distance, ReedSolomon.wrong]

def reedSolomon (randomizer : Randomizer) (framer : Framer) (depth : UInt8) :
    Link ReedSolomon.RsError ReedSolomon.RsError :=
  ⟨randomizer, framer, reedSolomonEncode depth, reedSolomonDecode depth, codedLen depth⟩

/-- The reader takes the number of errors for the length: of a frame that arrives whole it hands
over nothing. -/
theorem reed_solomon_reads_nothing (randomizer : Randomizer) (framer : Framer) {depth : UInt8}
    {BUF : Nat} {frame : Bytes} (buffer : Bytes) (haccept : Accepts depth frame)
    (hframe : frame.length ≤ BUF) (hroom : framer.marker.length + codedLen depth ≤ BUF) :
    (reedSolomon randomizer framer depth).Passes BUF frame buffer
      fun result buffer' => result = .ok 0 ∧ buffer' = buffer := by
  have haccept' : Accepts depth (randomizer.apply frame) := by
    rwa [Accepts, Randomizer.length_apply]
  have hpos : 0 < codedLen depth := by
    rw [codedLen]
    split
    · decide
    · exact Nat.mul_pos (UInt8.lt_iff_toNat_lt.1 (UInt8.lt_of_le_of_lt UInt8.zero_le
        (UInt8.not_le.1 ‹_›))) (by decide)
  refine Link.passes hframe hroom hpos fun output houtput => ?_
  obtain ⟨coded, data, hfec, hlen, hdecode, hdata⟩ :=
    reedSolomon_codes haccept' (show codedLen depth ≤ output.length by rw [houtput]; omega)
  refine ⟨coded, 0, data, hfec, hlen, hdecode, hdata, Nat.zero_le _, ?_⟩
  simp [Randomizer.apply]

theorem reed_solomon_reads_nothing_short :
    (reedSolomon .tm255 (.asm .tm) 1).Passes 300 [1, 2] [7, 7, 7]
      fun result buffer' => result = .ok 0 ∧ buffer' = [7, 7, 7] :=
  reed_solomon_reads_nothing .tm255 (.asm .tm) [7, 7, 7] (by simp [Accepts, ReedSolomon.K])
    (by decide) (by decide)

theorem viterbiDecode_eq (m : Int16) {n : Nat} (hlen : coded.length = 2 * n + 2) (hn : n < 512) :
    ∃ data, viterbiDecode m coded = some (.ok (n + 1), data) ∧ data.length = coded.length := by
  obtain ⟨hard, hhard, hhardLen, -⟩ := Convolutional.hardToLlr_eq
    (show coded.length * 8 ≤ 8 * coded.length by omega) m
    (show (List.replicate (coded.length * 8) (0 : Int16)).length = _ from List.length_replicate)
  have hM : Convolutional.MEMORY = 6 := rfl
  have hcount : (8 * n + 8 - Convolutional.MEMORY + 7) / 8 = n + 1 := by omega
  obtain ⟨out, hdecode, -⟩ := Convolutional.decode_eq (List.replicate MAX_OUTPUT 0)
    (show hard.length = 2 * (8 * n + 8) by omega) (by omega) (by
      rw [hcount, List.length_replicate, MAX_OUTPUT]
      omega)
  rw [hcount] at hdecode
  refine ⟨write coded 0 (out.take (n + 1)), ?_, write_length ..⟩
  rw [viterbiDecode]
  simp only [if_neg (show ¬ MAX_LLRS < coded.length * 8 by unfold MAX_LLRS; omega), hhard, hdecode,
    if_neg (show ¬ coded.length < n + 1 by omega), Option.bind_eq_bind, Option.bind_some,
    Option.pure_def]

/-- The sizes of `coding/proximity1.rs`. -/
def MAX_FRAME_SIZE : Nat := 2048

def PLTU_BUF : Nat := 8192

def LLR_MAG : Int16 := 127

/-- `writer` and `reader` of `coding/proximity1.rs`. -/
def proximity1 (frameLen : Nat) : Link Convolutional.ConvError Convolutional.ConvError :=
  ⟨.tc, .asm .proximity1, Convolutional.encode, viterbiDecode LLR_MAG, frameLen⟩

theorem encodedLen_eq (n : Nat) : Convolutional.encodedLen n = 2 * n + 2 := by
  rw [Convolutional.encodedLen, show Convolutional.MEMORY = 6 from rfl]
  omega

theorem writes_encode (h : 2 * data.length + 2 ≤ output.length) :
    ∃ coded, Writes Convolutional.encode data output coded ∧
      coded.length = 2 * data.length + 2 := by
  obtain ⟨out, hencode, hout, -⟩ := Convolutional.encode_eq data
    (show Convolutional.encodedLen data.length ≤ output.length by rw [encodedLen_eq]; exact h)
  have hlen : (out.take (2 * data.length + 2)).length = 2 * data.length + 2 := by
    rw [List.length_take, hout]
    omega
  exact ⟨_, ⟨out, by rw [hencode, hlen, encodedLen_eq], hout, by rw [hlen]⟩, hlen⟩

/-- The pipeline of `proximity1.rs` returns no frame as it was: from 512 octets on the reader
panics, and a shorter frame has one octet more. -/
theorem proximity1_never_exact {frame : Bytes} (buffer : Bytes)
    (hframe : frame.length ≤ MAX_FRAME_SIZE) :
    (512 ≤ frame.length → ∀ w r, Sized PLTU_BUF w → Sized PLTU_BUF r →
      ∃ sent w', ((proximity1 (Convolutional.encodedLen frame.length)).writer w).write frame =
          some (.ok sent, w') ∧
        ((proximity1 (Convolutional.encodedLen frame.length)).reader r).read sent buffer = none) ∧
    (frame.length < 512 →
      (proximity1 (Convolutional.encodedLen frame.length)).Passes PLTU_BUF frame buffer
        fun result _ => result = if buffer.length < frame.length + 1 then .error .bufferTooSmall
          else .ok (frame.length + 1)) := by
  have hlen := Randomizer.tc.length_apply frame
  have hmarker : (Framer.asm .proximity1).marker.length = 3 := rfl
  unfold MAX_FRAME_SIZE at hframe
  rw [encodedLen_eq]
  unfold PLTU_BUF
  constructor
  · intro hlong w r hw hr
    obtain ⟨coded, hfec, hcoded⟩ := writes_encode
      (show 2 * (Randomizer.tc.apply frame).length + 2 ≤ w.2.length by rw [hlen, hw.2]; omega)
    rw [hlen] at hcoded
    obtain ⟨sent, w', r', -, hr', hwrite, hread⟩ := Link.exchange buffer
      (l := proximity1 (2 * frame.length + 2)) hw hr (by omega)
      (show 3 + (2 * frame.length + 2) ≤ 8192 by omega) hfec hcoded (Nat.succ_pos _)
    refine ⟨sent, _, hwrite, hread.trans (CodingReader.finish_none ?_ (if_pos ?_))⟩
    · show coded.length ≤ r'.1.length
      rw [hr'.1]
      omega
    · unfold MAX_LLRS
      omega
  · intro hshort
    refine Link.passes (by omega) (show 3 + (2 * frame.length + 2) ≤ 8192 by omega)
      (Nat.succ_pos _) fun output houtput => ?_
    obtain ⟨coded, hfec, hcoded⟩ := writes_encode
      (show 2 * (Randomizer.tc.apply frame).length + 2 ≤ output.length by rw [hlen]; omega)
    rw [hlen] at hcoded
    obtain ⟨data, hdecode, hdata⟩ := viterbiDecode_eq LLR_MAG hcoded hshort
    refine ⟨coded, _, data, hfec, hcoded, hdecode, hdata, by omega, ?_⟩
    split <;> rfl

theorem proximity1_never_exact_short :
    (proximity1 (Convolutional.encodedLen 1)).Passes PLTU_BUF [1] [0, 0]
      fun result _ => result = .ok 2 := by
  simpa using (proximity1_never_exact [0, 0]
    (show ([1] : Bytes).length ≤ MAX_FRAME_SIZE by decide)).2 (by decide)

end Codes

end Pipeline
end Coding
end Leodos
