/-
Runs of the endpoint over a link that never fails.

The steps are those of the run loop, one packet, one walk over the timers or one round of
transmissions each, and the calls of the views, in any order.  A run records, for each
source, the packets that were handed to its stream, the walks that found one of its
timers expired, and what was taken from it.
-/
import Leodos.Srspp.Cfs.Quiet
import Leodos.Srspp.Cfs.Separation
import Leodos.Transition.System

namespace Leodos
namespace Srspp
namespace Cfs

open Container Isl Spp Transition

/-! ## What arrives -/

theorem parse_bind {packet : Bytes} {parsed : SrsppPacket}
    (h : SrsppPacket.parse packet = .ok parsed) :
    (SrsppPacket.parse packet >>= SrsppPacket.srsppType) = parsed.srsppType := by
  rw [h]
  rfl

theorem ofBytes_source {packet : Bytes} {parsed : SrsppPacket}
    (h : SrsppPacket.parse packet = .ok parsed)
    (htype : parsed.srsppType = .ok .data ∨ parsed.srsppType = .ok .eos) :
    (Incoming.ofBytes packet).source = some parsed.sourceAddress := by
  have hbind := parse_bind h
  rw [SrsppPacket.parse] at h
  cases hsplit : Headers.refFromPrefix packet with
  | none =>
    rw [hsplit] at h
    cases h
  | some r =>
    rw [hsplit] at h
    cases h
    rw [Incoming.ofBytes, hbind]
    rcases htype with htype | htype
    · rw [htype]
      dsimp only
      rw [SrsppDataPacket.parse, hsplit]
      rfl
    · have hlen : ¬ packet.length < HEADER_SIZE := by
        intro hlt
        rw [Headers.refFromPrefix_of_lt hlt] at hsplit
        cases hsplit
      rw [htype]
      dsimp only
      rw [SrsppEosPacket.parse, if_neg hlen, Headers.refFromPrefix_take, hsplit]
      rfl

theorem ofBytes_other {packet : Bytes}
    (h : ∀ parsed, SrsppPacket.parse packet = .ok parsed →
      parsed.srsppType ≠ .ok .data ∧ parsed.srsppType ≠ .ok .eos) :
    Incoming.ofBytes packet = .other := by
  cases hparse : SrsppPacket.parse packet with
  | error e =>
    rw [Incoming.ofBytes, hparse]
    rfl
  | ok parsed =>
    obtain ⟨hdata, heos⟩ := h parsed hparse
    rw [Incoming.ofBytes, parse_bind hparse]
    generalize parsed.srsppType = x at hdata heos
    obtain e | _ | _ | _ := x
    · rfl
    · exact absurd rfl hdata
    · rfl
    · exact absurd rfl heos

namespace SrsppEndpoint

variable {σ : Type} {REASM MAX_STREAMS WIN MTU RX_WIN now : Nat} {S : Slots σ}

theorem handleIncoming_cases (S : Slots σ) (RX_WIN now : Nat) (written : Bool)
    (d : SrsppEndpoint σ REASM MAX_STREAMS WIN MTU) (packet : Bytes) :
    (∃ source ∈ (Incoming.ofBytes packet).source, d.Admits source ∧
        d.handleIncoming S RX_WIN now written packet =
          (d.rxState.processData S RX_WIN now written (.ofBytes packet)).map
            fun (rxState, ack, res) => ({ d with rxState }, ack, res)) ∨
      (∀ source ∈ (Incoming.ofBytes packet).source, ¬ d.Admits source) ∧
        ∃ txSlots, d.handleIncoming S RX_WIN now written packet =
            some ({ d with txSlots }, none, .ok ()) ∧
          ((∀ slot ∈ d.txSlots, slot.state.error = none) →
            ∀ slot ∈ txSlots, slot.state.error = none) := by
  rw [handleIncoming]
  cases hparse : SrsppPacket.parse packet with
  | error e =>
    have hother : Incoming.ofBytes packet = .other := ofBytes_other fun parsed h => by
      rw [hparse] at h
      cases h
    rw [hother]
    exact Or.inr ⟨fun source h => (by cases h), d.txSlots, rfl, id⟩
  | ok parsed =>
    have hheard : ∀ t, parsed.srsppType = .ok t → t = .data ∨ t = .eos →
        (Incoming.ofBytes packet).source = some parsed.sourceAddress := by
      intro t ht hor
      refine ofBytes_source hparse (hor.imp ?_ ?_)
      all_goals
        rintro rfl
        exact ht
    have hunheard : (∀ t, parsed.srsppType = .ok t → t = .ack) →
        Incoming.ofBytes packet = .other := fun hall => ofBytes_other fun p hp => by
      rw [hparse] at hp
      cases hp
      exact ⟨fun h => (by cases hall _ h), fun h => (by cases hall _ h)⟩
    dsimp only
    cases htype : parsed.srsppType with
    | error e =>
      rw [hunheard fun t ht => (by rw [htype] at ht; cases ht)]
      exact Or.inr ⟨fun source h => (by cases h), d.txSlots, rfl, id⟩
    | ok t =>
      cases t with
      | data | eos =>
        rw [hheard _ htype (by simp)]
        by_cases hadmits : d.Admits parsed.sourceAddress
        · exact Or.inl ⟨_, rfl, hadmits, if_pos hadmits⟩
        · refine Or.inr ⟨fun source h => ?_, d.txSlots, if_neg hadmits, id⟩
          cases h
          exact hadmits
      | ack =>
        rw [hunheard fun t ht => (by rw [htype] at ht; cases ht; rfl)]
        refine Or.inr ⟨fun source h => (by cases h), ?_⟩
        dsimp only
        cases SrsppAckPacket.parse packet with
        | error e => exact ⟨d.txSlots, rfl, id⟩
        | ok ack =>
          dsimp only
          rw [withSender]
          generalize hfirst : TxSlot.withFirst _ _ d.txSlots = x
          obtain _ | ⟨txSlots, res⟩ := x
          · exact ⟨d.txSlots, rfl, id⟩
          · obtain ⟨-, slot, hres⟩ := TxSlot.withFirst_some (P := fun _ => True)
              (fun _ _ => trivial) hfirst fun _ _ => trivial
            have hok : res = .ok () := hres.trans (slot.state.processAck_ok packet).1
            refine ⟨txSlots, ?_, fun herr => ?_⟩
            · rw [hok]
              rfl
            · exact (TxSlot.withFirst_some (P := fun slot => slot.state.error = none)
                (fun slot h => (slot.state.processAck_ok packet).2.trans h) hfirst herr).1

end SrsppEndpoint

/-! ## Runs -/

inductive ViewCall where
  | sender (target : Address)
  | send (target : Address) (data : Bytes)
  | sendEos (target : Address)
  | dropSender (target : Address)
  | receiver (source : Address)
  | dropReceiver (source : Address)
  | listener
  | dropListener
  | recv (view : Option Address) (room : Nat)
  deriving DecidableEq, Repr

/-- What the run loop does, over a link that never fails. -/
inductive LoopStep where
  | packet (now : Nat) (bytes : Bytes)
  | timeouts (now rto : Nat)
  | transmit (now rto : Nat)
  deriving DecidableEq, Repr

inductive Move where
  | loop (step : LoopStep)
  | view (call : ViewCall)
  deriving DecidableEq, Repr

/-- What happens to the stream of one source. -/
inductive Input where
  | packet (now : Nat) (p : Incoming)
  | timeouts (now : Nat)
  | taken (room : Nat)
  deriving DecidableEq, Repr

/-- An endpoint with its transmit buffer, the record of what happened to each source and
the events that were taken. -/
structure Run (σ : Type) (REASM MAX_STREAMS WIN MTU : Nat) where
  endpoint : SrsppEndpoint σ REASM MAX_STREAMS WIN MTU
  wire : Wire
  inputs : List (Address × Input)
  events : List (Address × RecvEvent)

namespace SrsppEndpoint

variable {σ : Type} {REASM MAX_STREAMS WIN MTU : Nat}

def heard (d : SrsppEndpoint σ REASM MAX_STREAMS WIN MTU) (now : Nat) (packet : Bytes) :
    List (Address × Input) :=
  match (Incoming.ofBytes packet).source with
  | none => []
  | some source =>
      if d.Admits source then [(source, .packet now (.ofBytes packet))] else []

def woken (d : SrsppEndpoint σ REASM MAX_STREAMS WIN MTU) (now : Nat) : List (Address × Input) :=
  (d.rxState.streams.entries.filter fun e =>
    StreamState.isPast now e.2.ackDeadline || StreamState.isPast now e.2.progressDeadline).map
      fun e => (e.1, .timeouts now)

/-- A call of a view that is not a receive call.  A call that fails or waits changes
nothing. -/
def call (d : SrsppEndpoint σ REASM MAX_STREAMS WIN MTU) :
    ViewCall → SrsppEndpoint σ REASM MAX_STREAMS WIN MTU
  | .sender target => (d.sender target).toOption.getD d
  | .send target data => ((d.send target data).map Prod.fst).getD d
  | .sendEos target => ((d.sendEos target).map Prod.fst).getD d
  | .dropSender target => ((d.dropSender target).map Prod.fst).getD d
  | .receiver source => (d.receiver source).toOption.getD d
  | .dropReceiver source => d.dropReceiver source
  | .listener => d.listener.toOption.getD d
  | .dropListener => d.dropListener
  | .recv .. => d

end SrsppEndpoint

namespace Run

variable {σ : Type} {REASM MAX_STREAMS WIN MTU : Nat}

/-- An error is recorded everywhere and ends the loop. -/
def close (d : Run σ REASM MAX_STREAMS WIN MTU) :
    Except TransportError Unit → Run σ REASM MAX_STREAMS WIN MTU × Except TransportError Unit
  | .ok () => (d, .ok ())
  | .error e => ({ d with endpoint := d.endpoint.setErrors e }, .error e)

def loop (S : Slots σ) (RX_WIN : Nat) (ids : PacketIds) (d : Run σ REASM MAX_STREAMS WIN MTU) :
    LoopStep → Option (Run σ REASM MAX_STREAMS WIN MTU × Except TransportError Unit)
  | .packet now bytes =>
      (d.endpoint.handleIncoming S RX_WIN now true bytes).map fun (endpoint, _, res) =>
        close { d with endpoint, inputs := d.inputs ++ d.endpoint.heard now bytes } res
  | .timeouts now rto =>
      (d.endpoint.handleTimeouts S RX_WIN ids now rto (fun _ => true) d.wire []).map
        fun (endpoint, _, wire, _, res) =>
          close { d with endpoint, wire, inputs := d.inputs ++ d.endpoint.woken now } res
  | .transmit now rto =>
      let (endpoint, wire, _, res) := d.endpoint.transmit ids now rto d.wire []
      some (close { d with endpoint, wire } res)

def view (d : Run σ REASM MAX_STREAMS WIN MTU) : ViewCall → Run σ REASM MAX_STREAMS WIN MTU
  | .recv view room =>
      let (res, rxState) := d.endpoint.rxState.recv view room
      let d := { d with endpoint := { d.endpoint with rxState } }
      match res with
      | some (.ok (source, ev)) =>
          { d with
            inputs := d.inputs ++ [(source, .taken room)]
            events := d.events ++ [(source, ev)] }
      | _ => d
  | call => { d with endpoint := d.endpoint.call call }

/-- One step.  After an error the loop does nothing but return it. -/
def next (S : Slots σ) (RX_WIN : Nat) (ids : PacketIds) (d : Run σ REASM MAX_STREAMS WIN MTU) :
    Move → Option (Run σ REASM MAX_STREAMS WIN MTU × Except TransportError Unit)
  | .loop step =>
      match d.endpoint.rxState.error with
      | some e => some (d, .error e)
      | none => d.loop S RX_WIN ids step
  | .view call => some (d.view call, .ok ())

def new (σ : Type) (REASM MAX_STREAMS WIN MTU MAX_TX bufSize : Nat) (senderConfig : SenderConfig)
    (receiverConfig : ReceiverConfig) : Run σ REASM MAX_STREAMS WIN MTU where
  endpoint := .new σ REASM MAX_STREAMS WIN MTU MAX_TX bufSize senderConfig receiverConfig
  wire := ⟨List.replicate MTU 0, []⟩
  inputs := []
  events := []

def inputsOf (d : Run σ REASM MAX_STREAMS WIN MTU) (source : Address) : List Input :=
  (d.inputs.filter fun x => x.1 = source).map Prod.snd

def eventsOf (d : Run σ REASM MAX_STREAMS WIN MTU) (source : Address) : List RecvEvent :=
  (d.events.filter fun x => x.1 = source).map Prod.snd

def streamOf (d : Run σ REASM MAX_STREAMS WIN MTU) (source : Address) :
    Option (StreamState σ REASM) :=
  d.endpoint.rxState.streams.get source

/-- No more sources were active than the endpoint has streams for. -/
def Few (d : Run σ REASM MAX_STREAMS WIN MTU) : Prop :=
  ∃ sources : List Address, sources.length ≤ MAX_STREAMS ∧ ∀ x ∈ d.inputs, x.1 ∈ sources

/-- No error is recorded anywhere. -/
def Quiet (d : Run σ REASM MAX_STREAMS WIN MTU) : Prop :=
  d.endpoint.rxState.error = none ∧ ∀ slot ∈ d.endpoint.txSlots, slot.state.error = none

/-- Whatever the bound slots hold fits the transmit buffer. -/
def PacketsFit (d : Run σ REASM MAX_STREAMS WIN MTU) : Prop :=
  ∀ slot ∈ d.endpoint.txSlots, slot.target.isSome = true → slot.state.machine.PacketsFit

/-- The stream of the source takes the packet, the gaps that are given up can be skipped,
and the packets in the bound slots fit the transmit buffer. -/
def Harmless (S : Slots σ) (RX_WIN : Nat) (d : Run σ REASM MAX_STREAMS WIN MTU) : Move → Prop
  | .loop (.packet _ bytes) =>
      ∀ source ∈ (Incoming.ofBytes bytes).source, d.endpoint.Admits source →
        d.endpoint.rxState.HasRoom source →
          (d.endpoint.rxState.streamOf S source).Hears S RX_WIN d.endpoint.rxState.config
            (.ofBytes bytes)
  | .loop (.timeouts now _) =>
      (∀ e ∈ d.endpoint.rxState.streams.entries,
        StreamState.isPast now e.2.progressDeadline = true → e.2.machine.Skips S RX_WIN) ∧
      d.PacketsFit
  | .loop (.transmit _ _) => d.PacketsFit
  | .view _ => True

instance (d : Run σ REASM MAX_STREAMS WIN MTU) : Decidable d.Quiet :=
  inferInstanceAs (Decidable (_ ∧ ∀ slot ∈ d.endpoint.txSlots, _))

instance (d : Run σ REASM MAX_STREAMS WIN MTU) : Decidable d.PacketsFit :=
  inferInstanceAs (Decidable (∀ slot ∈ d.endpoint.txSlots, _ → _))

instance (S : Slots σ) (RX_WIN : Nat) (d : Run σ REASM MAX_STREAMS WIN MTU) :
    (m : Move) → Decidable (d.Harmless S RX_WIN m)
  | .loop (.packet _ bytes) =>
      inferInstanceAs (Decidable (∀ source ∈ (Incoming.ofBytes bytes).source, _ → _ → _))
  | .loop (.timeouts _ _) =>
      inferInstanceAs (Decidable ((∀ e ∈ d.endpoint.rxState.streams.entries, _ → _) ∧ _))
  | .loop (.transmit _ _) => inferInstanceAs (Decidable d.PacketsFit)
  | .view _ => .isTrue trivial

end Run

def endpointRuns {σ : Type} (S : Slots σ) (RX_WIN : Nat) (ids : PacketIds)
    (REASM MAX_STREAMS WIN MTU MAX_TX bufSize : Nat) (senderConfig : SenderConfig)
    (receiverConfig : ReceiverConfig) : System (Run σ REASM MAX_STREAMS WIN MTU) Move where
  init d := d = .new σ REASM MAX_STREAMS WIN MTU MAX_TX bufSize senderConfig receiverConfig
  step d m d' := ∃ res, d.next S RX_WIN ids m = some (d', res)

end Cfs
end Srspp
end Leodos
