/-
The cFS endpoint, `api/cfs/endpoint.rs`.

An endpoint owns the receive state, which its receiving views share, and sender slots
that are bound to one target each while a view of them lives.  The run loop transmits
what the bound slots have queued, hands a received packet to the stream or the slot it
belongs to, and walks the timers of all of them.  An error is recorded in the receive
state and in every slot.  There is no message store and every target is reachable.
-/
import Leodos.Srspp.Cfs.Sender

namespace Leodos
namespace Srspp
namespace Cfs

open Container Isl Spp

inductive Mode where
  | none
  | listener
  | receivers
  deriving DecidableEq, Repr

/-- Why a view cannot be had. -/
inductive EndpointError where
  | listenerExists
  | listenerActive
  | receiversActive
  | sourceBound (source : Address)
  | targetBound (target : Address)
  | noTxSlots
  | noRxSlots
  deriving DecidableEq, Repr

/-! ## Sender slots -/

namespace SenderState

variable {WIN MTU : Nat}

def new (config : SenderConfig) (bufSize : Nat) : SenderState WIN MTU :=
  ⟨.new config bufSize, .new, .new WIN, none⟩

def reset (s : SenderState WIN MTU) : SenderState WIN MTU :=
  ⟨s.machine.reset, .new, .new WIN, none⟩

/-- `EndpointSender::send`, polled once. -/
def send (s : SenderState WIN MTU) (target : Address) (data : Bytes) :
    SenderState WIN MTU × Option (Except TransportError Unit) :=
  match s.error with
  | some e => (s, some (.error e))
  | none =>
      if s.machine.availableBytes ≥ data.length ∧ s.machine.availableWindow > 0 then
        let (s, res) := s.handle (.sendRequest target data)
        (s, some res)
      else (s, none)

/-- `EndpointSender::send_eos`, polled once. -/
def sendEos (s : SenderState WIN MTU) (target : Address) :
    SenderState WIN MTU × Option (Except TransportError Unit) :=
  match s.error with
  | some e => (s, some (.error e))
  | none =>
      if s.machine.availableWindow > 0 then
        let (s, res) := s.handle (.sendEos target)
        (s, some res)
      else (s, none)

end SenderState

structure TxSlot (WIN MTU : Nat) where
  target : Option Address
  state : SenderState WIN MTU

namespace TxSlot

variable {WIN MTU : Nat} {α : Type}

/-- Apply `f` to the first slot that satisfies `p`. -/
def withFirst (p : TxSlot WIN MTU → Bool) (f : TxSlot WIN MTU → TxSlot WIN MTU × α) :
    List (TxSlot WIN MTU) → Option (List (TxSlot WIN MTU) × α)
  | [] => none
  | slot :: slots =>
      if p slot then some ((f slot).1 :: slots, (f slot).2)
      else (withFirst p f slots).map fun (slots, a) => (slot :: slots, a)

/-- Run `f` on the bound slots in turn, stopping at the first error. -/
def forBound (f : SenderState WIN MTU → Wire → List Bool →
      SenderState WIN MTU × Wire × List Bool × Except TransportError Unit) :
    List (TxSlot WIN MTU) → Wire → List Bool →
      List (TxSlot WIN MTU) × Wire × List Bool × Except TransportError Unit
  | [], w, writes => ([], w, writes, .ok ())
  | slot :: slots, w, writes =>
      if slot.target.isNone then
        let (slots, rest) := forBound f slots w writes
        (slot :: slots, rest)
      else
        match f slot.state w writes with
        | (state, w, writes, .error e) => ({ slot with state } :: slots, w, writes, .error e)
        | (state, w, writes, .ok ()) =>
            let (slots, rest) := forBound f slots w writes
            ({ slot with state } :: slots, rest)

end TxSlot

/-! ## The endpoint -/

structure SrsppEndpoint (σ : Type) (REASM MAX_STREAMS WIN MTU : Nat) where
  txSlots : List (TxSlot WIN MTU)
  rxState : MultiReceiverState σ REASM MAX_STREAMS
  boundSources : List Address
  mode : Mode

namespace SrsppEndpoint

variable {σ : Type} {REASM MAX_STREAMS WIN MTU : Nat}

def new (σ : Type) (REASM MAX_STREAMS WIN MTU MAX_TX bufSize : Nat) (senderConfig : SenderConfig)
    (receiverConfig : ReceiverConfig) : SrsppEndpoint σ REASM MAX_STREAMS WIN MTU where
  txSlots := List.replicate MAX_TX ⟨none, .new senderConfig bufSize⟩
  rxState := .new σ REASM MAX_STREAMS receiverConfig
  boundSources := []
  mode := .none

/-! ### Views -/

/-- Bind a free slot to `target`. -/
def sender (d : SrsppEndpoint σ REASM MAX_STREAMS WIN MTU) (target : Address) :
    Except EndpointError (SrsppEndpoint σ REASM MAX_STREAMS WIN MTU) :=
  if d.txSlots.any fun slot => slot.target = some target then .error (.targetBound target)
  else
    match TxSlot.withFirst (·.target.isNone) (fun slot => (⟨some target, slot.state.reset⟩, ()))
        d.txSlots with
    | none => .error .noTxSlots
    | some (txSlots, ()) => .ok { d with txSlots }

/-- Change the slot bound to `target`, as its view does. -/
def withSender {α : Type} (d : SrsppEndpoint σ REASM MAX_STREAMS WIN MTU) (target : Address)
    (f : TxSlot WIN MTU → TxSlot WIN MTU × α) :
    Option (SrsppEndpoint σ REASM MAX_STREAMS WIN MTU × α) :=
  (TxSlot.withFirst (fun slot => slot.target = some target) f d.txSlots).map
    fun (txSlots, a) => ({ d with txSlots }, a)

def send (d : SrsppEndpoint σ REASM MAX_STREAMS WIN MTU) (target : Address) (data : Bytes) :
    Option (SrsppEndpoint σ REASM MAX_STREAMS WIN MTU × Option (Except TransportError Unit)) :=
  d.withSender target fun slot =>
    ({ slot with state := (slot.state.send target data).1 }, (slot.state.send target data).2)

def sendEos (d : SrsppEndpoint σ REASM MAX_STREAMS WIN MTU) (target : Address) :
    Option (SrsppEndpoint σ REASM MAX_STREAMS WIN MTU × Option (Except TransportError Unit)) :=
  d.withSender target fun slot =>
    ({ slot with state := (slot.state.sendEos target).1 }, (slot.state.sendEos target).2)

def dropSender (d : SrsppEndpoint σ REASM MAX_STREAMS WIN MTU) (target : Address) :
    Option (SrsppEndpoint σ REASM MAX_STREAMS WIN MTU × Unit) :=
  d.withSender target fun slot => (⟨none, slot.state.reset⟩, ())

def receiver (d : SrsppEndpoint σ REASM MAX_STREAMS WIN MTU) (source : Address) :
    Except EndpointError (SrsppEndpoint σ REASM MAX_STREAMS WIN MTU) :=
  if d.mode = .listener then .error .listenerActive
  else if source ∈ d.boundSources then .error (.sourceBound source)
  else if d.boundSources.length < MAX_STREAMS then
    .ok { d with boundSources := d.boundSources ++ [source], mode := .receivers }
  else .error .noRxSlots

def dropReceiver (d : SrsppEndpoint σ REASM MAX_STREAMS WIN MTU) (source : Address) :
    SrsppEndpoint σ REASM MAX_STREAMS WIN MTU :=
  let boundSources :=
    match d.boundSources.findIdx? (· = source) with
    | some idx => swapRemove idx d.boundSources
    | none => d.boundSources
  { d with boundSources, mode := if boundSources.isEmpty then .none else d.mode }

def listener (d : SrsppEndpoint σ REASM MAX_STREAMS WIN MTU) :
    Except EndpointError (SrsppEndpoint σ REASM MAX_STREAMS WIN MTU) :=
  match d.mode with
  | .listener => .error .listenerExists
  | .receivers => .error .receiversActive
  | .none => .ok { d with mode := .listener }

def dropListener (d : SrsppEndpoint σ REASM MAX_STREAMS WIN MTU) :
    SrsppEndpoint σ REASM MAX_STREAMS WIN MTU :=
  { d with mode := .none }

/-! ### The run loop -/

def setErrors (d : SrsppEndpoint σ REASM MAX_STREAMS WIN MTU) (e : TransportError) :
    SrsppEndpoint σ REASM MAX_STREAMS WIN MTU :=
  { d with
    rxState := { d.rxState with error := some e }
    txSlots := d.txSlots.map fun slot =>
      { slot with state := { slot.state with error := some e } } }

/-- DATA and EOS of a source that no view can receive from are ignored. -/
def Admits (d : SrsppEndpoint σ REASM MAX_STREAMS WIN MTU) (source : Address) : Prop :=
  d.mode = .receivers → source ∈ d.boundSources

instance (d : SrsppEndpoint σ REASM MAX_STREAMS WIN MTU) (source : Address) :
    Decidable (d.Admits source) :=
  inferInstanceAs (Decidable (_ → _))

def handleIncoming (S : Slots σ) (RX_WIN now : Nat) (written : Bool)
    (d : SrsppEndpoint σ REASM MAX_STREAMS WIN MTU) (packet : Bytes) :
    Option (SrsppEndpoint σ REASM MAX_STREAMS WIN MTU × Option AckPacket ×
      Except TransportError Unit) :=
  match SrsppPacket.parse packet with
  | .error _ => some (d, none, .ok ())
  | .ok parsed =>
      match parsed.srsppType with
      | .ok .data | .ok .eos =>
          if d.Admits parsed.sourceAddress then
            (d.rxState.processData S RX_WIN now written (.ofBytes packet)).map
              fun (rxState, ack, res) => ({ d with rxState }, ack, res)
          else some (d, none, .ok ())
      | .ok .ack =>
          match SrsppAckPacket.parse packet with
          | .error _ => some (d, none, .ok ())
          | .ok ack =>
              match d.withSender ack.headers.srsppHeader.sourceAddress.parse fun slot =>
                  ({ slot with state := (slot.state.processAck packet).1 },
                    (slot.state.processAck packet).2) with
              | none => some (d, none, .ok ())
              | some (d, res) => some (d, none, res)
      | .error _ => some (d, none, .ok ())

def transmit (ids : PacketIds) (now rto : Nat) (d : SrsppEndpoint σ REASM MAX_STREAMS WIN MTU)
    (w : Wire) (writes : List Bool) :
    SrsppEndpoint σ REASM MAX_STREAMS WIN MTU × Wire × List Bool × Except TransportError Unit :=
  let (txSlots, rest) :=
    TxSlot.forBound (fun s w writes => s.transmit ids now rto w writes) d.txSlots w writes
  ({ d with txSlots }, rest)

/-- Walk the timers of the streams, then those of the bound slots. -/
def handleTimeouts (S : Slots σ) (RX_WIN : Nat) (ids : PacketIds) (now rto : Nat)
    (written : Address → Bool) (d : SrsppEndpoint σ REASM MAX_STREAMS WIN MTU) (w : Wire)
    (writes : List Bool) :
    Option (SrsppEndpoint σ REASM MAX_STREAMS WIN MTU × List AckPacket × Wire × List Bool ×
      Except TransportError Unit) :=
  match d.rxState.handleTimeouts S RX_WIN now written with
  | none => none
  | some (rxState, acks, .error e) => some ({ d with rxState }, acks, w, writes, .error e)
  | some (rxState, acks, .ok ()) =>
      let (txSlots, rest) := TxSlot.forBound
        (fun s w writes => s.handleTimeouts ids now rto w writes) d.txSlots w writes
      some ({ d with rxState, txSlots }, acks, rest)

end SrsppEndpoint

end Cfs
end Srspp
end Leodos
