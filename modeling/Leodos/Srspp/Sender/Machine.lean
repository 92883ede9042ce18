/-
The sender state machine: segmentation, buffering, acknowledgement, loss.

The machine owns `WIN` slots and one send buffer.  A slot names a byte range of
the buffer; queueing takes the first empty slot and appends the payload, and when
the buffer is full `compact` slides the live payloads to its front.  Every handler
appends to a bounded action queue that the driver drains.
-/
import Mathlib.Algebra.GroupWithZero.Nat
import Mathlib.Data.List.FinRange
import Mathlib.Logic.Function.Basic
import Leodos.Isl.Address
import Leodos.Memory.Cells
import Leodos.Spp.Sequence

namespace Leodos
namespace Srspp

open Isl Memory Spp

/-- Most actions the queue can hold. -/
def MAX_ACTIONS : Nat := 32

inductive SenderAction where
  | transmit (seq : SequenceCount) (rtoTicks : Nat)
  | stopTimer (seq : SequenceCount)
  | packetLost (seq : SequenceCount)
  | messageLost
  | spaceAvailable (bytes : Nat)
  deriving DecidableEq, Repr

/-- FIFO of pending actions.  The deque never holds more than `MAX_ACTIONS`. -/
structure SenderActions where
  inner : List SenderAction
  bounded : inner.length ≤ MAX_ACTIONS

namespace SenderActions

def new : SenderActions := ⟨[], Nat.zero_le _⟩

/-- Append an action.  The result of `push_back` is ignored, so a push onto a
full queue is lost. -/
def push (q : SenderActions) (a : SenderAction) : SenderActions :=
  if h : q.inner.length < MAX_ACTIONS then
    ⟨q.inner ++ [a], by rw [List.length_append]; exact h⟩
  else q

def pushAll (q : SenderActions) (as : List SenderAction) : SenderActions :=
  as.foldl push q

def popFront (q : SenderActions) : Option (SenderAction × SenderActions) :=
  match h : q.inner with
  | [] => none
  | a :: as => some (a, ⟨as, by have := q.bounded; rw [h] at this; simp at this; omega⟩)

end SenderActions

inductive SenderError where
  | bufferFull
  | windowFull
  deriving DecidableEq, Repr

structure SenderConfig where
  sourceAddress : Address
  rtoTicks : Nat
  maxRetransmits : Nat
  headerOverhead : Nat
  deriving DecidableEq, Repr

inductive SlotState where
  | empty
  | pendingTransmit
  | awaitingAck
  deriving DecidableEq, Repr

structure PacketMeta where
  state : SlotState
  seq : SequenceCount
  flags : SequenceFlag
  target : RawAddress
  retransmitCount : Nat
  offset : Nat
  len : Nat
  isSegmented : Bool
  isEos : Bool
  deriving DecidableEq, Repr

namespace PacketMeta

def default : PacketMeta where
  state := .empty
  seq := 0
  flags := .unsegmented
  target := RawAddress.ofAddress (.ground 0)
  retransmitCount := 0
  offset := 0
  len := 0
  isSegmented := false
  isEos := false

def Occupied (m : PacketMeta) : Prop := m.state ≠ .empty

instance (m : PacketMeta) : Decidable m.Occupied :=
  inferInstanceAs (Decidable (m.state ≠ .empty))

end PacketMeta

structure PayloadInfo where
  seq : SequenceCount
  flags : SequenceFlag
  target : Address
  payload : Bytes
  isEos : Bool
  deriving DecidableEq, Repr

structure SenderMachine (WIN MTU : Nat) where
  config : SenderConfig
  slots : Fin WIN → PacketMeta
  data : Bytes
  writePos : Nat
  nextSeq : SequenceCount
  sendBase : SequenceCount

namespace SenderMachine

variable {WIN MTU : Nat}

def new (config : SenderConfig) (bufSize : Nat) : SenderMachine WIN MTU where
  config := config
  slots := fun _ => .default
  data := List.replicate bufSize 0
  writePos := 0
  nextSeq := 0
  sendBase := 0

def reset (m : SenderMachine WIN MTU) : SenderMachine WIN MTU :=
  { m with slots := fun _ => .default, writePos := 0, nextSeq := 0, sendBase := 0 }

def maxPayloadPerPacket (m : SenderMachine WIN MTU) : Nat := MTU - m.config.headerOverhead

def availableBytes (m : SenderMachine WIN MTU) : Nat := m.data.length - m.writePos

/-- The first slot, in slot order, that satisfies `p`. -/
def findSlot (m : SenderMachine WIN MTU) (p : PacketMeta → Bool) : Option (Fin WIN) :=
  (List.finRange WIN).find? fun i => p (m.slots i)

def setSlot (m : SenderMachine WIN MTU) (i : Fin WIN) (x : PacketMeta) :
    SenderMachine WIN MTU :=
  { m with slots := Function.update m.slots i x }

def unackedCount (m : SenderMachine WIN MTU) : Nat :=
  ((List.finRange WIN).filter fun i => (m.slots i).Occupied).length

def availableWindow (m : SenderMachine WIN MTU) : Nat := WIN - m.unackedCount

def isIdle (m : SenderMachine WIN MTU) : Bool :=
  (List.finRange WIN).all fun i => (m.slots i).state = .empty

def getPayload (m : SenderMachine WIN MTU) (seq : SequenceCount) : Option PayloadInfo :=
  (m.findSlot fun x => x.Occupied ∧ x.seq = seq).map fun i =>
    let x := m.slots i
    { seq := x.seq
      flags := x.flags
      target := x.target.parse
      payload := slice m.data x.offset x.len
      isEos := x.isEos }

/-! ## Compaction -/

/-- Insert slot `i` before the first listed slot with a larger offset. -/
def insertByOffset (m : SenderMachine WIN MTU) (i : Fin WIN) : List (Fin WIN) → List (Fin WIN)
  | [] => [i]
  | j :: js =>
      if (m.slots j).offset > (m.slots i).offset then i :: j :: js
      else j :: m.insertByOffset i js

def liveByOffset (m : SenderMachine WIN MTU) : List (Fin WIN) :=
  (List.finRange WIN).foldl
    (fun acc i => if (m.slots i).Occupied then m.insertByOffset i acc else acc) []

/-- Move one slot's payload down to `newPos`. -/
def moveSlot (m : SenderMachine WIN MTU) (newPos : Nat) (i : Fin WIN) : SenderMachine WIN MTU :=
  let x := m.slots i
  { m with
    data := if newPos ≠ x.offset then copyWithin m.data x.offset x.len newPos else m.data
    slots := Function.update m.slots i { x with offset := newPos } }

/-- Slide the listed slots down one after the other, from `newPos` on. -/
def slideDown : List (Fin WIN) → Nat → SenderMachine WIN MTU → SenderMachine WIN MTU
  | [], newPos, m => { m with writePos := newPos }
  | i :: rest, newPos, m => slideDown rest (newPos + (m.slots i).len) (m.moveSlot newPos i)

def compact (m : SenderMachine WIN MTU) : SenderMachine WIN MTU :=
  slideDown m.liveByOffset 0 m

/-! ## Queueing -/

/-- A machine, its action queue, and what the call returned. -/
abbrev Result (WIN MTU : Nat) :=
  SenderMachine WIN MTU × SenderActions × Except SenderError Unit

/-- Fill slot `i` with a packet that carries the next sequence number. -/
def assign (m : SenderMachine WIN MTU) (i : Fin WIN) (target : Address) (payload : Bytes)
    (flags : SequenceFlag) (isSegmented isEos : Bool) : SenderMachine WIN MTU :=
  { m with
    data := write m.data m.writePos payload
    writePos := m.writePos + payload.length
    slots := Function.update m.slots i
      { state := .pendingTransmit
        seq := m.nextSeq
        flags
        target := RawAddress.ofAddress target
        retransmitCount := 0
        offset := m.writePos
        len := payload.length
        isSegmented
        isEos }
    nextSeq := m.nextSeq + 1 }

def queuePacket (m : SenderMachine WIN MTU) (target : Address) (payload : Bytes)
    (flags : SequenceFlag) (isSegmented : Bool) (actions : SenderActions) : Result WIN MTU :=
  match m.findSlot fun x => x.state = .empty with
  | none => (m, actions, .error .windowFull)
  | some i =>
      let m := if payload.length > m.availableBytes then m.compact else m
      if payload.length > m.availableBytes then (m, actions, .error .bufferFull)
      else
        (m.assign i target payload flags isSegmented false,
          actions.push (.transmit m.nextSeq m.config.rtoTicks), .ok ())

def queueEos (m : SenderMachine WIN MTU) (target : Address) (actions : SenderActions) :
    Result WIN MTU :=
  match m.findSlot fun x => x.state = .empty with
  | none => (m, actions, .error .windowFull)
  | some i =>
      (m.assign i target [] .unsegmented false true,
        actions.push (.transmit m.nextSeq m.config.rtoTicks), .ok ())

/-- The segments that `handle_send_request` cuts `data` into, at most `fuel` of
them.  With `mp = 0` the source loop never gets past the first byte and ends only
when the window is full. -/
def segments (mp : Nat) : Nat → Bool → Bytes → List (SequenceFlag × Bytes)
  | 0, _, _ => []
  | fuel + 1, isFirst, data =>
      if data.isEmpty then []
      else
        let isLast := data.length ≤ mp
        let flags := if isFirst then .first else if isLast then .last else .continuation
        (flags, data.take mp) :: segments mp fuel false (data.drop mp)

/-- Queue segments in order, stopping at the first error. -/
def queueAll (target : Address) : List (SequenceFlag × Bytes) → SenderMachine WIN MTU →
    SenderActions → Result WIN MTU
  | [], m, actions => (m, actions, .ok ())
  | (flags, payload) :: rest, m, actions =>
      match m.queuePacket target payload flags true actions with
      | (m', actions', .ok ()) => queueAll target rest m' actions'
      | failed => failed

/-- Segment if needed and queue.  The fuel covers every segment of `data`, or one
more packet than the window holds. -/
def handleSendRequest (m : SenderMachine WIN MTU) (target : Address) (data : Bytes)
    (actions : SenderActions) : Result WIN MTU :=
  let mp := m.maxPayloadPerPacket
  if data.length ≤ mp then m.queuePacket target data .unsegmented false actions
  else queueAll target (segments mp (data.length + WIN + 1) true data) m actions

/-! ## Acknowledgement and loss -/

/-- Recompute `send_base` from the lowest unacknowledged sequence number. -/
def updateSendBase (m : SenderMachine WIN MTU) : SenderMachine WIN MTU :=
  let scan := (List.finRange WIN).foldl
    (fun (acc : SequenceCount × Bool) i =>
      let x := m.slots i
      if x.Occupied then
        let diff := (acc.1 - x.seq).toNat
        (if diff < 8191 ∧ diff > 0 then x.seq else acc.1, true)
      else acc)
    (m.nextSeq, false)
  { m with sendBase := if scan.2 then scan.1 else m.nextSeq }

/-- `diff < SequenceCount::MAX / 2`: `seq` is at or behind the cumulative ACK. -/
def cumulativelyAcked (ack seq : SequenceCount) : Bool := (ack - seq).toNat < 8191

def freeSlot (x : PacketMeta) : PacketMeta := { x with state := .empty }

/-- The cumulative half of `handle_ack`, with the bytes it frees. -/
def ackCumulative (ack : SequenceCount) (m : SenderMachine WIN MTU) (actions : SenderActions) :
    SenderMachine WIN MTU × SenderActions × Nat :=
  let freed := (List.finRange WIN).filter fun i =>
    (m.slots i).Occupied ∧ cumulativelyAcked ack (m.slots i).seq
  ({ m with
      slots := fun i =>
        if (m.slots i).Occupied ∧ cumulativelyAcked ack (m.slots i).seq then
          freeSlot (m.slots i)
        else m.slots i },
    actions.pushAll (freed.map fun i => .stopTimer (m.slots i).seq),
    (freed.map fun i => (m.slots i).len).sum)

/-- One bit of the selective half: free the first slot that carries
`ack + 1 + bitPos`. -/
def ackBit (ack : SequenceCount) (bitmap : BitVec 16)
    (acc : SenderMachine WIN MTU × SenderActions × Nat) (bitPos : Nat) :
    SenderMachine WIN MTU × SenderActions × Nat :=
  let (m, actions, freed) := acc
  if bitmap.getLsbD bitPos then
    let acked := ack + 1 + BitVec.ofNat 14 bitPos
    match m.findSlot fun x => x.Occupied ∧ x.seq = acked with
    | none => (m, actions, freed)
    | some i =>
        (m.setSlot i (freeSlot (m.slots i)), actions.push (.stopTimer (m.slots i).seq),
          freed + (m.slots i).len)
  else (m, actions, freed)

def handleAck (m : SenderMachine WIN MTU) (cumulativeAck : SequenceCount)
    (selectiveBitmap : BitVec 16) (actions : SenderActions) :
    SenderMachine WIN MTU × SenderActions :=
  let (m, actions, freedBytes) :=
    (List.range 16).foldl (ackBit cumulativeAck selectiveBitmap)
      (ackCumulative cumulativeAck m actions)
  let m := m.updateSendBase
  (m, if freedBytes > 0 then actions.push (.spaceAvailable m.availableBytes) else actions)

/-- Retransmit, or declare loss once `max_retransmits` is reached. -/
def handleTimeout (m : SenderMachine WIN MTU) (seq : SequenceCount) (actions : SenderActions) :
    SenderMachine WIN MTU × SenderActions :=
  match m.findSlot fun x => x.state = .awaitingAck ∧ x.seq = seq with
  | none => (m.updateSendBase, actions)
  | some i =>
      let x := m.slots i
      if x.retransmitCount ≥ m.config.maxRetransmits then
        let actions := actions.push (.packetLost seq)
        ((m.setSlot i (freeSlot x)).updateSendBase,
          if x.isSegmented then actions.push .messageLost else actions)
      else
        ((m.setSlot i { x with
            state := .pendingTransmit
            retransmitCount := x.retransmitCount + 1 }).updateSendBase,
          actions.push (.transmit seq m.config.rtoTicks))

def markTransmitted (m : SenderMachine WIN MTU) (seq : SequenceCount) : SenderMachine WIN MTU :=
  match m.findSlot fun x => x.state = .pendingTransmit ∧ x.seq = seq with
  | none => m
  | some i => m.setSlot i { m.slots i with state := .awaitingAck }

/-! ## Events -/

inductive Event where
  | sendRequest (target : Address) (data : Bytes)
  | ackReceived (cumulativeAck : SequenceCount) (selectiveBitmap : BitVec 16)
  | retransmitTimeout (seq : SequenceCount)
  | sendEos (target : Address)
  deriving DecidableEq, Repr

def handle (m : SenderMachine WIN MTU) (event : Event) (actions : SenderActions) :
    Result WIN MTU :=
  match event with
  | .sendRequest target data => m.handleSendRequest target data actions
  | .ackReceived ack bitmap =>
      let (m, actions) := m.handleAck ack bitmap actions
      (m, actions, .ok ())
  | .retransmitTimeout seq =>
      let (m, actions) := m.handleTimeout seq actions
      (m, actions, .ok ())
  | .sendEos target => m.queueEos target actions

end SenderMachine

end Srspp
end Leodos
