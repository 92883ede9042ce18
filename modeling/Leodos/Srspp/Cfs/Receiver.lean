/-
The receive side of the cFS endpoint.

One reassembling stream is kept for each source that sent something.  DATA and EOS
packets are both driven through the stream's backend; the empty message that an EOS
packet produces there is drained at once, and the consumer sees the end of the
stream in the sequence state alone.  Every operation returns the state it leaves
behind with its result, also when it fails; `none` is a panic.
-/
import Leodos.Container.LinearMap
import Leodos.Srspp.Receiver.Ack
import Leodos.Srspp.Wire

namespace Leodos
namespace Srspp
namespace Cfs

open Container Isl Spp

inductive TransportError where
  | sender (e : SenderError)
  | receiver (e : ReceiverError)
  | network
  | packet (e : SrsppPacketError)
  deriving DecidableEq, Repr

/-- The fields of an arriving packet that the receive side reads.  Anything that
is neither DATA nor EOS, or does not parse, is `other`. -/
inductive Incoming where
  | data (source : Address) (seq : SequenceCount) (flags : SequenceFlag) (payload : Bytes)
  | eos (source : Address) (seq : SequenceCount) (flags : SequenceFlag)
  | other
  deriving DecidableEq, Repr

/-- What `process_data` reads of a received packet. -/
def Incoming.ofBytes (packet : Bytes) : Incoming :=
  match SrsppPacket.parse packet >>= SrsppPacket.srsppType with
  | .ok .data =>
      match SrsppDataPacket.parse packet with
      | .ok p =>
          .data p.headers.srsppHeader.sourceAddress.parse p.headers.primary.sequenceCount
            p.headers.primary.sequenceFlag p.payload
      | .error _ => .other
  | .ok .eos =>
      match SrsppEosPacket.parse packet with
      | .ok p =>
          .eos p.headers.srsppHeader.sourceAddress.parse p.headers.primary.sequenceCount
            p.headers.primary.sequenceFlag
      | .error _ => .other
  | _ => .other

def Incoming.source : Incoming → Option Address
  | .data source .. | .eos source .. => some source
  | .other => none

structure AckPacket where
  sourceAddress : Address
  target : Address
  cumulativeAck : SequenceCount
  selectiveBitmap : BitVec 16
  deriving DecidableEq, Repr

/-- What a receive call hands to the consumer: the bytes copied into its buffer, or
the end of the stream. -/
inductive RecvEvent where
  | data (copied : Bytes)
  | eos
  deriving DecidableEq, Repr

/-- `seq` lies ahead of `target` by less than half of the sequence space. -/
def seqStrictlyPast (seq target : SequenceCount) : Bool :=
  let delta := (seq - target).toNat
  decide (0 < delta ∧ delta < 8192)

/-- Receive state for one remote sender. -/
structure StreamState (σ : Type) (REASM : Nat) where
  machine : Backend σ REASM
  ackState : AckState
  ackDeadline : Option Nat
  progressDeadline : Option Nat
  eosSeq : Option SequenceCount
  eosObserved : Bool

namespace StreamState

variable {σ : Type} {REASM : Nat}

def new (S : Slots σ) (REASM : Nat) (config : ReceiverConfig) (source : Address) :
    StreamState σ REASM where
  machine := .new S REASM
  ackState := .new config source
  ackDeadline := none
  progressDeadline := none
  eosSeq := none
  eosObserved := false

def eosReached (s : StreamState σ REASM) : Bool :=
  match s.eosSeq with
  | none => false
  | some eos => seqStrictlyPast s.machine.base.expectedSeq eos

def recordEos (s : StreamState σ REASM) (seq : SequenceCount) : StreamState σ REASM :=
  if s.eosSeq.isNone then { s with eosSeq := some seq } else s

/-- Drain the empty message of the EOS slot when the call that began at `before`
passed it. -/
def drainEos (eosSeq : Option SequenceCount) (before : SequenceCount) (r : Backend σ REASM) :
    Backend σ REASM :=
  match eosSeq with
  | none => r
  | some eos =>
      if seqStrictlyPast before eos = false ∧ seqStrictlyPast r.base.expectedSeq eos = true ∧
          r.reasm.completeMessageLen = some 0 then r.takeMessage.2
      else r

/-- What `peek_recv_event` finds ready. -/
inductive PeekOutcome where
  | data
  | eos
  deriving DecidableEq, Repr

def peekRecvEvent (s : StreamState σ REASM) : Option PeekOutcome :=
  if s.machine.reasm.completeMessageLen.isSome then some .data
  else if s.eosObserved = false ∧ s.eosReached = true then some .eos
  else none

/-- Take the next event of the stream into a buffer of `room` bytes. -/
def takeRecvEvent (room : Nat) (s : StreamState σ REASM) :
    Option (RecvEvent × StreamState σ REASM) :=
  let (msg, machine) := s.machine.takeMessage
  match msg with
  | some msg => some (.data (msg.take room), { s with machine })
  | none =>
      if s.eosObserved = false ∧ s.eosReached = true then
        some (.eos, { s with eosObserved := true })
      else none

end StreamState

structure MultiReceiverState (σ : Type) (REASM MAX_STREAMS : Nat) where
  config : ReceiverConfig
  streams : LinearMap Address (StreamState σ REASM) MAX_STREAMS
  ackDelay : Nat
  error : Option TransportError

namespace MultiReceiverState

variable {σ : Type} {REASM MAX_STREAMS : Nat}

def new (σ : Type) (REASM MAX_STREAMS : Nat) (config : ReceiverConfig) :
    MultiReceiverState σ REASM MAX_STREAMS :=
  ⟨config, .new _ _ _, config.ackDelayTicks, none⟩

/-- Open a stream for `source` if there is none and the table has room. -/
def openStream (S : Slots σ) (s : MultiReceiverState σ REASM MAX_STREAMS) (source : Address) :
    MultiReceiverState σ REASM MAX_STREAMS :=
  if s.streams.containsKey source then s
  else { s with streams := s.streams.insert source (.new S REASM s.config source) }

def modifyStream (s : MultiReceiverState σ REASM MAX_STREAMS) (source : Address)
    (f : StreamState σ REASM → StreamState σ REASM) : MultiReceiverState σ REASM MAX_STREAMS :=
  { s with streams := s.streams.modify source f }

/-- DATA that finds its stream past the EOS is taken for a new connection: the
stream is dropped. -/
def reap (s : MultiReceiverState σ REASM MAX_STREAMS) (source : Address) :
    MultiReceiverState σ REASM MAX_STREAMS :=
  if (s.streams.get source).any StreamState.eosReached then
    { s with streams := s.streams.remove source }
  else s

def driveSegment (S : Slots σ) (WIN : Nat) (s : MultiReceiverState σ REASM MAX_STREAMS)
    (source : Address) (seq : SequenceCount) (flags : SequenceFlag) (payload : Bytes) :
    Option (MultiReceiverState σ REASM MAX_STREAMS × Except TransportError HandleResult) :=
  let s := s.openStream S source
  match s.streams.get source with
  | none => some (s, .ok {})
  | some stream =>
      match stream.machine.handleData S WIN seq flags payload with
      | none => none
      | some (machine, .error e) =>
          some (s.modifyStream source fun _ => { stream with machine }, .error (.receiver e))
      | some (machine, .ok outcome) =>
          let machine :=
            StreamState.drainEos stream.eosSeq stream.machine.base.expectedSeq machine
          let (ackState, result) :=
            stream.ackState.onData outcome machine.base.expectedSeq machine.base.recvBitmap
          some (s.modifyStream source fun _ => { stream with machine, ackState }, .ok result)

def deadline (now delay : Nat) (old : Option Nat) : Option TimerAction → Option Nat
  | none => old
  | some (.start _) => some (now + delay)
  | some .stop => none

/-- The delay a `Start` action of the progress timer carries. -/
def startTicks : Option TimerAction → Nat
  | some (.start ticks) => ticks
  | _ => 0

/-- Write the acknowledgement, if there is one, then set the timers.  `written`
says whether the link takes the packet. -/
def driveActions (now : Nat) (written : Bool) (s : MultiReceiverState σ REASM MAX_STREAMS)
    (source : Address) (result : HandleResult) :
    MultiReceiverState σ REASM MAX_STREAMS × Option AckPacket × Except TransportError Unit :=
  if result.ack.isSome && !written then (s, none, .error .network)
  else
    (s.modifyStream source fun stream =>
        { stream with
          ackDeadline := deadline now s.ackDelay stream.ackDeadline result.ackTimer
          progressDeadline := deadline now (startTicks result.progressTimer)
            stream.progressDeadline result.progressTimer },
      result.ack.map fun a =>
        ⟨s.config.localAddress, a.destination, a.cumulativeAck, a.selectiveBitmap⟩,
      .ok ())

/-- `drive_segment` and `drive_actions` in sequence. -/
def drive (S : Slots σ) (WIN now : Nat) (written : Bool)
    (s : MultiReceiverState σ REASM MAX_STREAMS) (source : Address) (seq : SequenceCount)
    (flags : SequenceFlag) (payload : Bytes) :
    Option (MultiReceiverState σ REASM MAX_STREAMS × Option AckPacket ×
      Except TransportError Unit) :=
  match s.driveSegment S WIN source seq flags payload with
  | none => none
  | some (s, .error e) => some (s, none, .error e)
  | some (s, .ok result) => some (s.driveActions now written source result)

def processData (S : Slots σ) (WIN now : Nat) (written : Bool)
    (s : MultiReceiverState σ REASM MAX_STREAMS) :
    Incoming → Option (MultiReceiverState σ REASM MAX_STREAMS × Option AckPacket ×
      Except TransportError Unit)
  | .data source seq flags payload =>
      (s.reap source).drive S WIN now written source seq flags payload
  | .eos source seq flags =>
      ((s.openStream S source).modifyStream source (·.recordEos seq)).drive S WIN now written
        source seq flags []
  | .other => some (s, none, .ok ())

/-! ## Timers -/

def expired (now : Nat) (s : MultiReceiverState σ REASM MAX_STREAMS)
    (deadlineOf : StreamState σ REASM → Option Nat) : List Address :=
  (s.streams.entries.filter fun e => (deadlineOf e.2).any fun d => now ≥ d).map Prod.fst

def fireAck (now : Nat) (written : Bool) (s : MultiReceiverState σ REASM MAX_STREAMS)
    (source : Address) :
    MultiReceiverState σ REASM MAX_STREAMS × Option AckPacket × Except TransportError Unit :=
  match s.streams.get source with
  | none => s.driveActions now written source {}
  | some stream =>
      let (ackState, result) := stream.ackState.onAckTimeout stream.machine.base.expectedSeq
        stream.machine.base.recvBitmap
      (s.modifyStream source fun _ => { stream with ackState, ackDeadline := none }).driveActions
        now written source result

/-- The progress timer of a source has expired: the gap is given up. -/
def fireProgress (S : Slots σ) (WIN now : Nat) (written : Bool)
    (s : MultiReceiverState σ REASM MAX_STREAMS) (source : Address) :
    Option (MultiReceiverState σ REASM MAX_STREAMS × Option AckPacket ×
      Except TransportError Unit) :=
  match s.streams.get source with
  | none => some (s.driveActions now written source {})
  | some stream =>
      match stream.machine.skipGap S WIN with
      | none => none
      | some (machine, .error e) =>
          some (s.modifyStream source fun _ => { stream with machine, progressDeadline := none },
            none, .error (.receiver e))
      | some (machine, .ok outcome) =>
          let (ackState, result) := stream.ackState.onGapSkip outcome
          some ((s.modifyStream source fun _ =>
              { stream with machine, ackState, progressDeadline := none }).driveActions
            now written source result)

/-- Run `f` for the sources in turn, stopping at the first error. -/
def forEach (f : MultiReceiverState σ REASM MAX_STREAMS → Address →
      Option (MultiReceiverState σ REASM MAX_STREAMS × Option AckPacket ×
        Except TransportError Unit)) :
    List Address → MultiReceiverState σ REASM MAX_STREAMS →
      Option (MultiReceiverState σ REASM MAX_STREAMS × List AckPacket × Except TransportError Unit)
  | [], s => some (s, [], .ok ())
  | source :: sources, s =>
      match f s source with
      | none => none
      | some (s, ack, .error e) => some (s, ack.toList, .error e)
      | some (s, ack, .ok ()) =>
          (forEach f sources s).map fun (s, acks, res) => (s, ack.toList ++ acks, res)

/-- Walk the expired ACK timers, then the expired progress timers.  `written` says
whether the link takes the acknowledgement to a source. -/
def handleTimeouts (S : Slots σ) (WIN now : Nat) (written : Address → Bool)
    (s : MultiReceiverState σ REASM MAX_STREAMS) :
    Option (MultiReceiverState σ REASM MAX_STREAMS × List AckPacket ×
      Except TransportError Unit) :=
  match forEach (fun s source => some (s.fireAck now (written source) source))
      (s.expired now StreamState.ackDeadline) s with
  | none => none
  | some (s, acks, .error e) => some (s, acks, .error e)
  | some (s, acks, .ok ()) =>
      (forEach (fun s source => s.fireProgress S WIN now (written source) source)
        (s.expired now StreamState.progressDeadline) s).map
          fun (s, acks', res) => (s, acks ++ acks', res)

/-- The run loop on one packet.  An error is recorded for the consumers and ends the
loop. -/
def runPacket (S : Slots σ) (WIN now : Nat) (written : Bool)
    (s : MultiReceiverState σ REASM MAX_STREAMS) (p : Incoming) :
    Option (MultiReceiverState σ REASM MAX_STREAMS × Option AckPacket) :=
  match s.processData S WIN now written p with
  | none => none
  | some (s, ack, .error e) => some ({ s with error := some e }, ack)
  | some (s, ack, .ok ()) => some (s, ack)

/-- `EndpointListener::recv`, polled once: the first stream with an event gives
it. -/
def listenerRecv (room : Nat) (s : MultiReceiverState σ REASM MAX_STREAMS) :
    Option (Except TransportError (Address × RecvEvent)) ×
      MultiReceiverState σ REASM MAX_STREAMS :=
  match s.error with
  | some e => (some (.error e), s)
  | none =>
      match s.streams.findUpdate (StreamState.takeRecvEvent room) with
      | none => (none, s)
      | some (ev, streams) => (some (.ok ev), { s with streams })

/-- `EndpointReceiver::recv`, polled once. -/
def receiverRecv (source : Address) (room : Nat) (s : MultiReceiverState σ REASM MAX_STREAMS) :
    Option (Except TransportError (Address × RecvEvent)) ×
      MultiReceiverState σ REASM MAX_STREAMS :=
  match s.error with
  | some e => (some (.error e), s)
  | none =>
      match (s.streams.get source).bind (StreamState.takeRecvEvent room) with
      | none => (none, s)
      | some (ev, stream) =>
          (some (.ok (source, ev)), s.modifyStream source fun _ => stream)

end MultiReceiverState

end Cfs
end Srspp
end Leodos
