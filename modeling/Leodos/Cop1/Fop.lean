/-
The sender machine of COP-1, `datalink/reliability/cop1/fop.rs`.

A handler returns the actions in the order in which it pushes them.  The vector of
actions ignores a push when it is full, so what an event emits is the first
`MAX_ACTIONS` of them.
-/
import Leodos.Memory.Cells
import Leodos.Cop1.Clcw
import Leodos.Spp.Sequence
import Mathlib.Data.List.Sort

namespace Leodos
namespace Cop1

open Spp Memory

def MAX_ACTIONS : Nat := 16

inductive FopState where
  | active
  | retransmitting
  | initNoBC
  | initWithSetVr
  | initWithUnlock
  | initial
  deriving DecidableEq, Repr

inductive FopEvent where
  | sendAd (fdu : Bytes)
  | sendBd (fdu : Bytes)
  | clcwReceived (clcw : Clcw)
  | timerExpired
  | initAdNoClcw
  | initAdWithClcw
  | initAdSetVr (vr : UInt8)
  | initAdUnlock
  | terminate
  | resume
  deriving DecidableEq

inductive FopAction where
  | transmitAd (seq : UInt8)
  | transmitBd
  | transmitBcUnlock
  | transmitBcSetVr (vr : UInt8)
  | startTimer
  | stopTimer
  | accept
  | reject
  | alert
  | terminated
  | acknowledged (seq : UInt8)
  deriving DecidableEq, Repr

/-- The part of the configuration that the machine reads. -/
structure FopConfig where
  transmissionLimit : UInt8
  deriving DecidableEq

structure FduSlot where
  occupied : Bool
  seq : UInt8
  offset : Nat
  len : Nat
  transmissionCount : UInt8
  deriving DecidableEq

def FduSlot.empty : FduSlot := ⟨false, 0, 0, 0, 0⟩

structure FopMachine (WIN BUF : Nat) where
  state : FopState
  config : FopConfig
  /-- V(S), the number of the next frame. -/
  vs : UInt8
  /-- NN(R), the last N(R) seen. -/
  nnr : UInt8
  sentQueue : List FduSlot
  data : Bytes
  writePos : Nat
  bcTransmissionCount : UInt8
  setVrValue : UInt8
  pendingBd : Option (Nat × Nat)
  slots : sentQueue.length = WIN
  sized : data.length = BUF
  deriving DecidableEq

/-- The frames that N(R) acknowledges: those before it in the sequence space. -/
def FduSlot.Acked (nr : UInt8) (s : FduSlot) : Prop :=
  s.occupied = true ∧ 0 < nr - s.seq ∧ nr - s.seq < 128

instance (nr : UInt8) (s : FduSlot) : Decidable (s.Acked nr) :=
  inferInstanceAs (Decidable (_ ∧ _))

def FduSlot.clear (s : FduSlot) : FduSlot := { s with occupied := false }

def FduSlot.acknowledge (nr : UInt8) (s : FduSlot) : FduSlot := if s.Acked nr then s.clear else s

/-- Count one more transmission of the first frame with this number. -/
def bump (seq : UInt8) : List FduSlot → List FduSlot
  | [] => []
  | s :: rest =>
      if s.occupied ∧ s.seq = seq then
        { s with transmissionCount := s.transmissionCount + 1 } :: rest
      else s :: bump seq rest

theorem length_bump (seq : UInt8) (queue : List FduSlot) :
    (bump seq queue).length = queue.length := by
  induction queue with
  | nil => rfl
  | cons s rest ih =>
    unfold bump
    split
    · rfl
    · rw [List.length_cons, ih, List.length_cons]

def bumpAll (seqs : List UInt8) (queue : List FduSlot) : List FduSlot :=
  seqs.foldl (fun queue seq => bump seq queue) queue

theorem length_bumpAll (seqs : List UInt8) (queue : List FduSlot) :
    (bumpAll seqs queue).length = queue.length := by
  unfold bumpAll
  induction seqs generalizing queue with
  | nil => rfl
  | cons seq seqs ih => exact (ih _).trans (length_bump seq queue)

/-- The order of retransmission: by distance from `nnr`.  The sorted part of the
array is kept in reverse, and each number is inserted from its end. -/
def sortFrom (nnr : UInt8) (seqs : List UInt8) : List UInt8 :=
  (seqs.foldl (fun sorted seq =>
    sorted.orderedInsert (fun key prev => prev - nnr ≤ key - nnr) seq) []).reverse

namespace FopMachine

variable {WIN BUF : Nat}

theorem empty_slots (WIN : Nat) : (List.replicate WIN FduSlot.empty).length = WIN :=
  List.length_replicate

theorem empty_data (BUF : Nat) : (List.replicate BUF (0 : UInt8)).length = BUF :=
  List.length_replicate

def new (WIN BUF : Nat) (config : FopConfig) : FopMachine WIN BUF where
  state := .initial
  config := config
  vs := 0
  nnr := 0
  sentQueue := List.replicate WIN .empty
  data := List.replicate BUF 0
  writePos := 0
  bcTransmissionCount := 0
  setVrValue := 0
  pendingBd := none
  slots := empty_slots WIN
  sized := empty_data BUF

def sent (m : FopMachine WIN BUF) : List FduSlot := m.sentQueue.filter fun s => s.occupied

def sentCount (m : FopMachine WIN BUF) : Nat := m.sent.length

def getFdu (m : FopMachine WIN BUF) (seq : UInt8) : Option Bytes :=
  (m.sentQueue.find? fun s => s.occupied ∧ s.seq = seq).map fun s => slice m.data s.offset s.len

def findEmptySlot (m : FopMachine WIN BUF) : Option Nat :=
  m.sentQueue.findIdx? fun s => !s.occupied

theorem write_sized (m : FopMachine WIN BUF) (fdu : Bytes) :
    (write m.data m.writePos fdu).length = BUF :=
  (write_length _ _ _).trans m.sized

theorem set_slots (m : FopMachine WIN BUF) (i : Nat) (s : FduSlot) :
    (m.sentQueue.set i s).length = WIN :=
  List.length_set.trans m.slots

theorem map_slots (m : FopMachine WIN BUF) (f : FduSlot → FduSlot) :
    (m.sentQueue.map f).length = WIN :=
  (List.length_map _).trans m.slots

def bufferFdu (m : FopMachine WIN BUF) (fdu : Bytes) : Option (Nat × FopMachine WIN BUF) :=
  if BUF < m.writePos + fdu.length then none
  else some (m.writePos, { m with
    data := write m.data m.writePos fdu
    sized := m.write_sized fdu
    writePos := m.writePos + fdu.length })

def setSlot (m : FopMachine WIN BUF) (i : Nat) (s : FduSlot) : FopMachine WIN BUF :=
  { m with sentQueue := m.sentQueue.set i s, slots := m.set_slots i s }

def purgeSentQueue (m : FopMachine WIN BUF) : FopMachine WIN BUF :=
  { m with
    sentQueue := m.sentQueue.map FduSlot.clear
    slots := m.map_slots .clear
    writePos := 0 }

def alert (m : FopMachine WIN BUF) : FopMachine WIN BUF × List FopAction :=
  ({ m.purgeSentQueue with state := .initial }, [.stopTimer, .alert])

def removeAcknowledged (m : FopMachine WIN BUF) (nr : UInt8) :
    FopMachine WIN BUF × List FopAction :=
  ({ m with
      sentQueue := m.sentQueue.map (FduSlot.acknowledge nr)
      slots := m.map_slots (.acknowledge nr) },
    (m.sentQueue.filter fun s => s.Acked nr).map fun s => .acknowledged s.seq)

theorem bumpAll_slots (m : FopMachine WIN BUF) (seqs : List UInt8) :
    (bumpAll seqs m.sentQueue).length = WIN :=
  (length_bumpAll seqs m.sentQueue).trans m.slots

def initiateRetransmission (m : FopMachine WIN BUF) : FopMachine WIN BUF × List FopAction :=
  let seqs := sortFrom m.nnr (m.sent.map FduSlot.seq)
  ({ m with
      sentQueue := bumpAll seqs m.sentQueue
      slots := m.bumpAll_slots seqs },
    seqs.map .transmitAd ++ if seqs.isEmpty then [] else [.startTimer])

def handleSendAd (m : FopMachine WIN BUF) (fdu : Bytes) : FopMachine WIN BUF × List FopAction :=
  if m.state = .active ∨ m.state = .retransmitting then
    match m.findEmptySlot with
    | none => (m, [.reject])
    | some i =>
        match m.bufferFdu fdu with
        | none => (m, [.reject])
        | some (offset, m) =>
            let seq := m.vs
            -- a frame is sent at once only in the active state
            let count := if m.state = .active then 1 else 0
            ({ m.setSlot i ⟨true, seq, offset, fdu.length, count⟩ with vs := m.vs + 1 },
              if m.state = .active then [.transmitAd seq, .startTimer] else [])
  else (m, [.reject])

def handleSendBd (m : FopMachine WIN BUF) (fdu : Bytes) : FopMachine WIN BUF × List FopAction :=
  match m.bufferFdu fdu with
  | none => (m, [.reject])
  | some (offset, m) => ({ m with pendingBd := some (offset, fdu.length) }, [.transmitBd])

/-- Enter the active state, whichever directive led to it. -/
def enterActive (m : FopMachine WIN BUF) (vs nr : UInt8) : FopMachine WIN BUF × List FopAction :=
  ({ m.purgeSentQueue with vs := vs, nnr := nr, state := .active }, [.stopTimer, .accept])

def handleClcw (m : FopMachine WIN BUF) (clcw : Clcw) : FopMachine WIN BUF × List FopAction :=
  let nr := clcw.reportValue
  match m.state with
  | .active =>
      if clcw.lockout then m.alert
      else
        let (m, acks) := m.removeAcknowledged nr
        let m := { m with nnr := nr }
        if clcw.retransmit then
          let (m, sends) := m.initiateRetransmission
          ({ m with state := .retransmitting }, acks ++ sends)
        else (m, acks ++ if m.sentCount = 0 then [.stopTimer] else [])
  | .retransmitting =>
      if clcw.lockout then m.alert
      else
        let (m, acks) := m.removeAcknowledged nr
        let m := { m with nnr := nr }
        if clcw.retransmit then (m, acks)
        else ({ m with state := .active }, acks ++ if m.sentCount = 0 then [.stopTimer] else [])
  | .initWithSetVr =>
      if nr = m.setVrValue ∧ clcw.lockout = false ∧ clcw.retransmit = false then
        m.enterActive m.setVrValue nr
      else (m, [])
  | .initWithUnlock =>
      if clcw.lockout = false ∧ clcw.retransmit = false then m.enterActive nr nr
      else (m, [])
  | .initNoBC | .initial => (m, [])

def limitExceeded (m : FopMachine WIN BUF) : Bool :=
  m.sentQueue.any fun s => s.occupied && decide (m.config.transmissionLimit ≤ s.transmissionCount)

def repeatDirective (m : FopMachine WIN BUF) (frame : FopAction) :
    FopMachine WIN BUF × List FopAction :=
  let m := { m with bcTransmissionCount := m.bcTransmissionCount + 1 }
  if m.config.transmissionLimit ≤ m.bcTransmissionCount then m.alert
  else (m, [frame, .startTimer])

def handleTimerExpired (m : FopMachine WIN BUF) : FopMachine WIN BUF × List FopAction :=
  match m.state with
  | .active | .retransmitting =>
      if m.limitExceeded then m.alert
      else
        let (m, sends) := m.initiateRetransmission
        ({ m with state := .retransmitting }, sends)
  | .initWithSetVr => m.repeatDirective (.transmitBcSetVr m.setVrValue)
  | .initWithUnlock => m.repeatDirective .transmitBcUnlock
  | .initNoBC | .initial => (m, [])

def handleInitNoClcw (m : FopMachine WIN BUF) : FopMachine WIN BUF × List FopAction :=
  if m.state = .initial then ({ m.purgeSentQueue with state := .active }, [.accept])
  else (m, [.reject])

def handleInitWithClcw (m : FopMachine WIN BUF) : FopMachine WIN BUF × List FopAction :=
  if m.state = .initial then ({ m.purgeSentQueue with state := .initNoBC }, [.startTimer])
  else (m, [.reject])

def handleInitSetVr (m : FopMachine WIN BUF) (vr : UInt8) : FopMachine WIN BUF × List FopAction :=
  if m.state = .initial then
    ({ m.purgeSentQueue with
        setVrValue := vr, bcTransmissionCount := 1, state := .initWithSetVr },
      [.transmitBcSetVr vr, .startTimer])
  else (m, [.reject])

def handleInitUnlock (m : FopMachine WIN BUF) : FopMachine WIN BUF × List FopAction :=
  if m.state = .initial then
    ({ m.purgeSentQueue with bcTransmissionCount := 1, state := .initWithUnlock },
      [.transmitBcUnlock, .startTimer])
  else (m, [.reject])

def handleTerminate (m : FopMachine WIN BUF) : FopMachine WIN BUF × List FopAction :=
  ({ m.purgeSentQueue with state := .initial }, [.stopTimer, .terminated])

def handleResume (m : FopMachine WIN BUF) : FopMachine WIN BUF × List FopAction :=
  if m.state = .initial then ({ m with state := .active }, [.accept])
  else (m, [.reject])

def react (m : FopMachine WIN BUF) : FopEvent → FopMachine WIN BUF × List FopAction
  | .sendAd fdu => m.handleSendAd fdu
  | .sendBd fdu => m.handleSendBd fdu
  | .clcwReceived clcw => m.handleClcw clcw
  | .timerExpired => m.handleTimerExpired
  | .initAdNoClcw => m.handleInitNoClcw
  | .initAdWithClcw => m.handleInitWithClcw
  | .initAdSetVr vr => m.handleInitSetVr vr
  | .initAdUnlock => m.handleInitUnlock
  | .terminate => m.handleTerminate
  | .resume => m.handleResume

def handle (m : FopMachine WIN BUF) (event : FopEvent) : FopMachine WIN BUF × List FopAction :=
  ((m.react event).1, (m.react event).2.take MAX_ACTIONS)

end FopMachine

end Cop1
end Leodos
