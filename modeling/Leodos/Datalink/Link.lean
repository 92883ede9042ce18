/-
The framed link, `datalink/link/framed.rs`.

A writer collects packets in a frame, secures the finished frame in place and hands it to
the coding layer.  A reader takes a frame from the coding layer, removes the security in
place and hands out the packets of its data field one by one.
-/
import Leodos.Datalink.Frame
import Leodos.Spp.SpacePacket

namespace Leodos
namespace Datalink

open Memory Spp

/-- Both calls work in place, so octets and state may change even when they fail. -/
structure SecurityProcessor (σ ε : Type) where
  apply : σ → Bytes → Except (Fault ε) Nat × Bytes × σ
  process : σ → Bytes → Except (Fault ε) Nat × Bytes × σ

def NoSecurity {σ ε : Type} : SecurityProcessor σ ε where
  apply := fun s frame => (.ok frame.length, frame, s)
  process := fun s frame => (.ok frame.length, frame, s)

structure CodingWrite (γ ε : Type) where
  write : γ → Bytes → Except ε Unit × γ

/-- The octets are those put at the front of a buffer of the given size. -/
structure CodingRead (ρ ε : Type) where
  read : ρ → Nat → Except ε Bytes × ρ

/-- A coding layer that hands frames through unchanged, to a list of frames in flight. -/
def passWrite : CodingWrite (List Bytes) Empty where
  write := fun sent frame => (.ok (), sent ++ [frame])

/-- The other end of `passWrite`. -/
def passRead : CodingRead (List Bytes) Empty where
  read := fun pending size => (.ok ((pending.headD []).take size), pending.tail)

inductive DatalinkError (ε : Type) where
  | link (e : ε)
  | frameTooLarge
  | invalidFrame
  | buildError
  | security
  deriving DecidableEq, Repr

/-- The same end of a call, with its error named anew. -/
def Fault.map {ε ε' : Type} (f : ε → ε') : Fault ε → Fault ε'
  | .error e => .error (f e)
  | .panic => .panic

/-! ## Writing -/

def SCRATCH_SIZE : Nat := 2048

structure DatalinkWriter (F : WriterFormat) (σ γ : Type) where
  frameWriter : FrameWriter F
  security : σ
  codingWriter : γ
  scratch : Bytes

namespace DatalinkWriter

variable {F : WriterFormat} {σ γ ε ε' : Type}

def new (frameWriter : FrameWriter F) (codingWriter : γ) (security : σ) : DatalinkWriter F σ γ :=
  ⟨frameWriter, security, codingWriter, List.replicate SCRATCH_SIZE 0⟩

/-- Secure the octets in the scratch buffer and hand them on. -/
def send (S : SecurityProcessor σ ε') (C : CodingWrite γ ε) (w : DatalinkWriter F σ γ)
    (frame : Bytes) : Except (Fault (DatalinkError ε)) Unit × DatalinkWriter F σ γ :=
  let len := min frame.length SCRATCH_SIZE
  let scratch := write w.scratch 0 (frame.take len)
  match S.apply w.security (scratch.take len) with
  | (.error fault, bytes, security) =>
    (.error (fault.map fun _ => .security),
      { w with security := security, scratch := write scratch 0 bytes })
  | (.ok securedLen, bytes, security) =>
    let w := { w with security := security, scratch := write scratch 0 bytes }
    if w.scratch.length < securedLen then (.error .panic, w)
    else
      match C.write w.codingWriter (w.scratch.take securedLen) with
      | (.error e, codingWriter) =>
        (.error (.error (.link e)), { w with codingWriter := codingWriter })
      | (.ok (), codingWriter) => (.ok (), { w with codingWriter := codingWriter })

def flush (S : SecurityProcessor σ ε') (C : CodingWrite γ ε) (w : DatalinkWriter F σ γ) :
    Except (Fault (DatalinkError ε)) Unit × DatalinkWriter F σ γ :=
  if w.frameWriter.isEmpty then (.ok (), w)
  else
    match w.frameWriter.finish with
    | (.error fault, frameWriter) =>
      (.error (fault.map fun _ => .buildError), { w with frameWriter := frameWriter })
    | (.ok frame, frameWriter) => send S C { w with frameWriter := frameWriter } frame

def write (S : SecurityProcessor σ ε') (C : CodingWrite γ ε) (w : DatalinkWriter F σ γ)
    (data : Bytes) : Except (Fault (DatalinkError ε)) Unit × DatalinkWriter F σ γ :=
  match w.frameWriter.push data with
  | .ok frameWriter => (.ok (), { w with frameWriter := frameWriter })
  | .error .panic => (.error .panic, w)
  | .error (.error .tooLarge) => (.error (.error .frameTooLarge), w)
  | .error (.error .full) =>
    match flush S C w with
    | (.error fault, w) => (.error fault, w)
    | (.ok (), w) =>
      match w.frameWriter.push data with
      | .ok frameWriter => (.ok (), { w with frameWriter := frameWriter })
      | .error fault => (.error (fault.map fun _ => .frameTooLarge), w)

end DatalinkWriter

/-! ## Reading -/

structure DatalinkReader (σ ρ : Type) where
  frameReader : FrameReader
  security : σ
  codingReader : ρ
  pos : Nat

namespace DatalinkReader

variable {σ ρ ε ε' : Type}

def new (frameReader : FrameReader) (codingReader : ρ) (security : σ) : DatalinkReader σ ρ :=
  ⟨frameReader, security, codingReader, 0⟩

/-- The octets that go into a caller's buffer of `room` octets.  The outer `none` is a panic. -/
def extractPacket (r : DatalinkReader σ ρ) (room : Nat) :
    Option (Option Bytes × DatalinkReader σ ρ) :=
  match r.frameReader.dataField with
  | none => none
  | some data =>
    if data.length ≤ r.pos then some (none, r)
    else
      let remaining := data.drop r.pos
      match SpacePacket.parse remaining with
      | .error _ => some (none, r)
      | .ok pkt =>
        let len := pkt.primaryHeader.packetLen
        some (some (remaining.take (min len room)), { r with pos := r.pos + len })

/-- The end of `read`: find the data field of the frame in the buffer and take its first
packet. -/
def accept (R : ReaderFormat) (r : DatalinkReader σ ρ) (len room : Nat) :
    Except (Fault (DatalinkError ε)) Bytes × DatalinkReader σ ρ :=
  match r.frameReader.feed R len with
  | (.error fault, frameReader) =>
    (.error (fault.map fun _ => .invalidFrame), { r with frameReader := frameReader })
  | (.ok (), frameReader) =>
    let r := { r with frameReader := frameReader, pos := 0 }
    match extractPacket r room with
    | none => (.error .panic, r)
    | some (some packet, r) => (.ok packet, r)
    | some (none, r) => (.ok [], r)

/-- What `read` does with the octets that the coding layer has put into the frame buffer. -/
def receive (R : ReaderFormat) (S : SecurityProcessor σ ε') (r : DatalinkReader σ ρ)
    (frame : Bytes) (room : Nat) :
    Except (Fault (DatalinkError ε)) Bytes × DatalinkReader σ ρ :=
  if frame.length = 0 then (.ok [], r)
  else if r.frameReader.buf.length < frame.length then (.error .panic, r)
  else
    let buf := Memory.write r.frameReader.buf 0 frame
    match S.process r.security (buf.take frame.length) with
    | (.error fault, bytes, security) =>
      (.error (fault.map fun _ => .security),
        { r with
          frameReader := { r.frameReader with buf := Memory.write buf 0 bytes }
          security := security })
    | (.ok _, bytes, security) =>
      accept R
        { r with
          frameReader := { r.frameReader with buf := Memory.write buf 0 bytes }
          security := security }
        frame.length room

/-- The empty result stands for the length zero. -/
def read (R : ReaderFormat) (S : SecurityProcessor σ ε') (C : CodingRead ρ ε)
    (r : DatalinkReader σ ρ) (room : Nat) :
    Except (Fault (DatalinkError ε)) Bytes × DatalinkReader σ ρ :=
  match extractPacket r room with
  | none => (.error .panic, r)
  | some (some packet, r) => (.ok packet, r)
  | some (none, r) =>
    match C.read r.codingReader r.frameReader.buf.length with
    | (.error e, codingReader) =>
      (.error (.error (.link e)), { r with codingReader := codingReader })
    | (.ok frame, codingReader) => receive R S { r with codingReader := codingReader } frame room

end DatalinkReader

end Datalink
end Leodos
