/-
Sequence tracking and slot bookkeeping of the receiver backends.

`ReceiverBase` is the next expected sequence number with a 16-bit map of the
packets received ahead of it: bit `d - 1` stands for the packet at forward
distance `d`.  `Bitset` marks the window slots that hold a buffered packet.
-/
import Mathlib.Logic.Function.Basic
import Leodos.Spp.Sequence
import Leodos.Srspp.Receiver.Reassembly

namespace Leodos
namespace Srspp

open Spp

structure ReceiverBase where
  expectedSeq : SequenceCount
  recvBitmap : BitVec 16
  deriving DecidableEq, Repr

namespace ReceiverBase

def new : ReceiverBase := ⟨0, 0⟩

def distance (b : ReceiverBase) (seq : SequenceCount) : Nat :=
  (seq - b.expectedSeq).toNat

def isOooDuplicate (b : ReceiverBase) (distance : Nat) : Bool :=
  b.recvBitmap &&& 1#16 <<< (distance - 1) != 0

def recordOoo (b : ReceiverBase) (distance : Nat) : ReceiverBase :=
  { b with recvBitmap := b.recvBitmap ||| 1#16 <<< (distance - 1) }

def advance (b : ReceiverBase) : ReceiverBase :=
  { expectedSeq := b.expectedSeq + 1, recvBitmap := b.recvBitmap >>> 1 }

@[simp] theorem recordOoo_expectedSeq (b : ReceiverBase) (d : Nat) :
    (b.recordOoo d).expectedSeq = b.expectedSeq := rfl

@[simp] theorem advance_expectedSeq (b : ReceiverBase) :
    b.advance.expectedSeq = b.expectedSeq + 1 := rfl

end ReceiverBase

/-- The window slots in use, one bit a slot. -/
structure Bitset where
  bits : BitVec 32
  deriving DecidableEq, Repr

namespace Bitset

def new : Bitset := ⟨0⟩

def set (s : Bitset) (i : Nat) : Bitset := ⟨s.bits ||| 1#32 <<< i⟩

def clear (s : Bitset) (i : Nat) : Bitset := ⟨s.bits &&& ~~~(1#32 <<< i)⟩

def isSet (s : Bitset) (i : Nat) : Bool := s.bits &&& 1#32 <<< i != 0

def any (s : Bitset) (n : Nat) : Bool := s.bits &&& (1#32 <<< n - 1) != 0

end Bitset

theorem one_shiftLeft_getLsbD {w k : Nat} (hk : k < w) (i : Nat) :
    (BitVec.ofNat w 1 <<< k).getLsbD i = decide (i = k) := by
  rw [BitVec.getLsbD_shiftLeft, BitVec.getLsbD_ofNat]
  by_cases h : i = k
  · subst h
    simp
    omega
  · by_cases hlt : i < k
    · simp [hlt, h]
    · have h₁ : Nat.testBit 1 (i - k) = false := by
        rw [Bool.eq_false_iff, Ne, Nat.testBit_one_eq_true_iff_self_eq_zero]
        omega
      simp [h₁, h]

theorem and_one_shiftLeft_ne_zero {w k : Nat} (hk : k < w) (x : BitVec w) :
    (x &&& BitVec.ofNat w 1 <<< k != 0) = x.getLsbD k := by
  by_cases h : x.getLsbD k
  · rw [h, bne_iff_ne]
    intro h0
    have := congrArg (fun y => y.getLsbD k) h0
    simp [BitVec.getLsbD_and, one_shiftLeft_getLsbD hk, h] at this
  · have h0 : x &&& BitVec.ofNat w 1 <<< k = 0 := by
      apply BitVec.eq_of_getLsbD_eq
      intro i hi
      rw [BitVec.getLsbD_and, one_shiftLeft_getLsbD hk]
      by_cases hik : i = k
      · subst hik
        simpa using h
      · simp [hik]
    simp [h0, h]

theorem isOooDuplicate_eq (b : ReceiverBase) {d : Nat} (hd : d - 1 < 16) :
    b.isOooDuplicate d = b.recvBitmap.getLsbD (d - 1) :=
  and_one_shiftLeft_ne_zero hd _

theorem recordOoo_bit (b : ReceiverBase) {d : Nat} (hd : d - 1 < 16) (k : Nat) :
    (b.recordOoo d).recvBitmap.getLsbD k = (b.recvBitmap.getLsbD k || decide (k = d - 1)) := by
  simp [ReceiverBase.recordOoo, BitVec.getLsbD_or, one_shiftLeft_getLsbD hd]

theorem advance_bit (b : ReceiverBase) (k : Nat) :
    b.advance.recvBitmap.getLsbD k = b.recvBitmap.getLsbD (k + 1) := by
  simp [ReceiverBase.advance, BitVec.getLsbD_ushiftRight, Nat.add_comm]

namespace Bitset

theorem isSet_eq (s : Bitset) {i : Nat} (hi : i < 32) : s.isSet i = s.bits.getLsbD i :=
  and_one_shiftLeft_ne_zero hi _

@[simp] theorem isSet_new (i : Nat) : new.isSet i = false := by
  simp [isSet, new]

theorem isSet_set (s : Bitset) {i j : Nat} (hi : i < 32) (hj : j < 32) :
    (s.set i).isSet j = (s.isSet j || decide (j = i)) := by
  rw [isSet_eq _ hj, isSet_eq _ hj]
  simp [set, BitVec.getLsbD_or, one_shiftLeft_getLsbD hi]

theorem isSet_clear (s : Bitset) {i j : Nat} (hi : i < 32) (hj : j < 32) :
    (s.clear i).isSet j = (s.isSet j && !decide (j = i)) := by
  rw [isSet_eq _ hj, isSet_eq _ hj, clear, BitVec.getLsbD_and, BitVec.getLsbD_not,
    one_shiftLeft_getLsbD hi]
  simp [hj]

end Bitset

end Srspp
end Leodos

/-
Where the backends keep the packets they received ahead of time.

`Slots` is what the two backends ask of their storage.  The Fast backend answers
with one MTU-sized slot for each window position, the Packed backend with a bump
slab and a table of offsets into it.
-/

namespace Leodos
namespace Srspp

open Memory Spp

/-- Storage for buffered packets, addressed by window slot.  `none` stands for a
panic of the source (a slice index or a copy length out of range). -/
structure Slots (σ : Type) where
  new : σ
  store : σ → Nat → SequenceFlag → Bytes → Option (σ × Except ReceiverError Unit)
  load : σ → Nat → Option (SequenceFlag × Bytes)
  /-- Run when a delivery loop ends. -/
  finish : σ → σ
  load_finish : ∀ s i, load (finish s) i = load s i

/-- `SlotMap<TOTAL, N, SLOT>`: flat storage with one length a slot. -/
structure SlotMap where
  data : Bytes
  lens : Nat → Nat

namespace SlotMap

def new (TOTAL : Nat) : SlotMap := ⟨List.replicate TOTAL 0, fun _ => 0⟩

/-- Write a payload into slot `i`.  The length is kept as a `u16`. -/
def write (SLOT : Nat) (s : SlotMap) (i : Nat) (payload : Bytes) : Option SlotMap :=
  if i * SLOT + payload.length ≤ s.data.length then
    some
      { data := Memory.write s.data (i * SLOT) payload
        lens := Function.update s.lens i (payload.length % 65536) }
  else none

/-- Copy slot `i` into a buffer of `room` bytes. -/
def read (SLOT : Nat) (s : SlotMap) (i : Nat) (room : Nat) : Option Bytes :=
  if s.lens i ≤ room ∧ i * SLOT + s.lens i ≤ s.data.length then
    some (slice s.data (i * SLOT) (s.lens i))
  else none

end SlotMap

/-- `BumpSlab<N>`: append-only storage that is recycled as a whole. -/
structure BumpSlab where
  data : Bytes
  len : Nat

namespace BumpSlab

def new (N : Nat) : BumpSlab := ⟨List.replicate N 0, 0⟩

def alloc (s : BumpSlab) (payload : Bytes) : Option ((Nat × Nat) × BumpSlab) :=
  if s.len + payload.length > s.data.length then none
  else some ((s.len, payload.length),
    { data := Memory.write s.data s.len payload, len := s.len + payload.length })

def get (s : BumpSlab) (offset len : Nat) : Option Bytes :=
  if offset + len ≤ s.data.length then some (slice s.data offset len) else none

def clear (s : BumpSlab) : BumpSlab := { s with len := 0 }

end BumpSlab

structure FastSlots where
  slots : SlotMap
  flags : Nat → SequenceFlag

def fastSlots (MTU TOTAL : Nat) : Slots FastSlots where
  new := ⟨SlotMap.new TOTAL, fun _ => .unsegmented⟩
  store s idx flags payload := do
    let slots ← s.slots.write MTU idx payload
    return ({ slots, flags := Function.update s.flags idx flags }, .ok ())
  load s idx := do
    let payload ← s.slots.read MTU idx MTU
    return (s.flags idx, payload)
  finish s := s
  load_finish _ _ := rfl

structure SlotMeta where
  offset : Nat
  len : Nat
  flags : SequenceFlag

structure PackedSlots where
  slotMeta : Nat → SlotMeta
  slab : BumpSlab

/-- A stored payload is copied out through a scratch buffer of `REASM` bytes; a
longer one does not fit the copy and panics. -/
def packedSlots (BUF REASM : Nat) : Slots PackedSlots where
  new := ⟨fun _ => ⟨0, 0, .unsegmented⟩, BumpSlab.new BUF⟩
  store s idx flags payload :=
    match s.slab.alloc payload with
    | none => some (s, .error .bufferFull)
    | some ((offset, len), slab) =>
        some ({ slotMeta := Function.update s.slotMeta idx ⟨offset, len, flags⟩, slab }, .ok ())
  load s idx := do
    let m := s.slotMeta idx
    let payload ← s.slab.get m.offset m.len
    if payload.length = min m.len REASM then some (m.flags, payload) else none
  finish s := { s with slab := s.slab.clear }
  load_finish _ _ := rfl

end Srspp
end Leodos

/-
The Fast and Packed receiver backends.

Both run the same code over their own storage: a packet at the expected sequence
number is delivered with every buffered packet that follows it without a gap, a
packet ahead inside the window is buffered in slot `seq % WIN`, and anything else
is ignored.  A call returns the state it leaves behind with its result, also when
it returns an error part of the way through; `none` is a panic.
-/

namespace Leodos
namespace Srspp

open Spp

structure DataOutcome where
  progressed : Bool
  hasGap : Bool
  deriving DecidableEq, Repr

structure GapOutcome where
  hasGap : Bool
  deriving DecidableEq, Repr

structure Backend (σ : Type) (REASM : Nat) where
  base : ReceiverBase
  occupied : Bitset
  slots : σ
  reasm : Reassembly REASM

/-- `MAX_AHEAD`, the window as a `u16`. -/
def maxAhead (WIN : Nat) : Nat := WIN % 65536

def slotIdx (WIN : Nat) (seq : SequenceCount) : Nat := seq.toNat % WIN

namespace Backend

variable {σ : Type} {REASM : Nat}

def new (S : Slots σ) (REASM : Nat) : Backend σ REASM :=
  ⟨ReceiverBase.new, Bitset.new, S.new, Reassembly.new REASM⟩

/-- Buffer a packet ahead of the expected one.  An occupied slot is left alone. -/
def storeOoo (S : Slots σ) (WIN : Nat) (r : Backend σ REASM) (seq : SequenceCount)
    (flags : SequenceFlag) (payload : Bytes) :
    Option (Backend σ REASM × Except ReceiverError Unit) :=
  let idx := slotIdx WIN seq
  if r.occupied.isSet idx then some (r, .ok ())
  else
    match S.store r.slots idx flags payload with
    | none => none
    | some (_, .error e) => some (r, .error e)
    | some (slots, .ok ()) => some ({ r with slots, occupied := r.occupied.set idx }, .ok ())

/-- Deliver consecutive buffered packets.  Every round empties a slot, so `WIN`
rounds of fuel never run out. -/
def deliverBuffered (S : Slots σ) (WIN : Nat) :
    Nat → Backend σ REASM → Option (Backend σ REASM × Except ReceiverError Unit)
  | 0, r => some ({ r with slots := S.finish r.slots }, .ok ())
  | fuel + 1, r =>
      let idx := slotIdx WIN r.base.expectedSeq
      if r.occupied.isSet idx then
        match S.load r.slots idx with
        | none => none
        | some (flags, payload) =>
            match r.reasm.push flags payload with
            | .error e => some ({ r with occupied := r.occupied.clear idx }, .error e)
            | .ok reasm =>
                deliverBuffered S WIN fuel
                  { r with
                    base := r.base.advance
                    occupied := r.occupied.clear idx
                    reasm }
      else some ({ r with slots := S.finish r.slots }, .ok ())

/-- The result of a `handle_data` call that began in `r` and ended in `r'`. -/
def dataOutcome (WIN : Nat) (r r' : Backend σ REASM) : DataOutcome where
  progressed := r'.base.expectedSeq != r.base.expectedSeq
  hasGap := r'.occupied.any WIN

def handleData (S : Slots σ) (WIN : Nat) (r : Backend σ REASM) (seq : SequenceCount)
    (flags : SequenceFlag) (payload : Bytes) :
    Option (Backend σ REASM × Except ReceiverError DataOutcome) :=
  let distance := r.base.distance seq
  if distance = 0 then
    match r.reasm.push flags payload with
    | .error e => some (r, .error e)
    | .ok reasm =>
        match deliverBuffered S WIN WIN { r with reasm, base := r.base.advance } with
        | none => none
        | some (r', .error e) => some (r', .error e)
        | some (r', .ok ()) => some (r', .ok (dataOutcome WIN r r'))
  else if distance < maxAhead WIN ∧ r.base.isOooDuplicate distance = false then
    match storeOoo S WIN r seq flags payload with
    | none => none
    | some (r', .error e) => some (r', .error e)
    | some (r', .ok ()) =>
        let r'' := { r' with base := r'.base.recordOoo distance }
        some (r'', .ok (dataOutcome WIN r r''))
  else some (r, .ok (dataOutcome WIN r r))

def skipGap (S : Slots σ) (WIN : Nat) (r : Backend σ REASM) :
    Option (Backend σ REASM × Except ReceiverError GapOutcome) :=
  match deliverBuffered S WIN WIN
      { r with reasm := r.reasm.abandon, base := r.base.advance } with
  | none => none
  | some (r', .error e) => some (r', .error e)
  | some (r', .ok ()) => some (r', .ok ⟨r'.occupied.any WIN⟩)

def takeMessage (r : Backend σ REASM) : Option Bytes × Backend σ REASM :=
  (r.reasm.takeMessage.1, { r with reasm := r.reasm.takeMessage.2 })

/-- `consume_message` hands the same bytes to a closure. -/
def consumeMessage {β : Type} (r : Backend σ REASM) (f : Bytes → β) :
    Option β × Backend σ REASM :=
  (r.takeMessage.1.map f, r.takeMessage.2)

end Backend

/-! ## Calls as labels -/

inductive Call where
  | handleData (seq : SequenceCount) (flags : SequenceFlag) (payload : Bytes)
  | skipGap
  | takeMessage
  | consumeMessage
  deriving DecidableEq, Repr

inductive Observation where
  | data (result : Except ReceiverError DataOutcome)
  | gap (result : Except ReceiverError GapOutcome)
  | message (bytes : Option Bytes)

namespace Backend

variable {σ : Type} {REASM : Nat}

def call (S : Slots σ) (WIN : Nat) (r : Backend σ REASM) :
    Call → Option (Backend σ REASM × Observation)
  | .handleData seq flags payload =>
      (r.handleData S WIN seq flags payload).map fun (r', res) => (r', .data res)
  | .skipGap => (r.skipGap S WIN).map fun (r', res) => (r', .gap res)
  | .takeMessage => some (r.takeMessage.2, .message r.takeMessage.1)
  | .consumeMessage => some ((r.consumeMessage id).2, .message (r.consumeMessage id).1)

end Backend

/-! ## The two instances -/

/-- `FastReceiver<WIN, MTU, REASM, WIN * MTU>`. -/
abbrev FastReceiver (REASM : Nat) := Backend FastSlots REASM

abbrev FastReceiver.slotsOf (WIN MTU : Nat) : Slots FastSlots := fastSlots MTU (WIN * MTU)

/-- `PackedReceiver<WIN, BUF, REASM>`. -/
abbrev PackedReceiver (REASM : Nat) := Backend PackedSlots REASM

abbrev PackedReceiver.slotsOf (BUF REASM : Nat) : Slots PackedSlots := packedSlots BUF REASM

end Srspp
end Leodos
