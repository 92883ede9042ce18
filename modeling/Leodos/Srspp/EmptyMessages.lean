/-
Empty messages next to the end of the stream, in the tokio and the cFS receive path.

Both paths push the EOS through the backend as an empty message and drain it again.
Each of them follows a mailbox, so each hands over every empty message exactly when no
empty one meets a message that waits.
-/
import Leodos.Srspp.Cfs.Connection
import Leodos.Srspp.Mailbox
import Leodos.Srspp.Tokio.Receiver

namespace Leodos
namespace Srspp

open Cfs Container Isl Spp

section Serving

variable {σ : Type} {S : Slots σ} {REASM WIN : Nat}

/-- The receive state of a stream that has taken `n` packets in order. -/
structure Serving (machine : Backend σ REASM) (eosSeq : Option SequenceCount)
    (eosObserved : Bool) (n : Nat) (b : Mailbox) : Prop where
  inOrder : InOrder machine n b
  live : b.ended = false → eosSeq = none
  passed : b.ended = true → ∃ eos, eosSeq = some eos ∧
    seqStrictlyPast machine.base.expectedSeq eos = true
  observed : eosObserved = b.observed

variable {machine : Backend σ REASM} {eosSeq : Option SequenceCount} {eosObserved : Bool}
variable {n : Nat} {b : Mailbox}

theorem serving_new (S : Slots σ) (REASM : Nat) :
    Serving (.new S REASM) none false 0 .empty :=
  ⟨inOrder_new S REASM, fun _ => rfl, nofun, rfl⟩

theorem Serving.exclusive (h : Serving machine eosSeq eosObserved n b) : b.Exclusive := by
  intro hw
  obtain ⟨m, hm⟩ := Option.isSome_iff_exists.mp hw
  rw [← h.inOrder.opened]
  exact Reassembly.partialMessage_eq_none_of_message (h.inOrder.waiting.trans hm)

theorem Serving.data (h : Serving machine eosSeq eosObserved n b) (hend : b.ended = false)
    (S : Slots σ) (WIN : Nat) {p : Packet} (hfit : Fits REASM b.opened p) :
    ∃ r outcome, machine.handleData S WIN (seqOf n) p.1 p.2 = some (r, .ok outcome) ∧
      Serving r eosSeq eosObserved (n + 1) (b.arrive p) := by
  obtain ⟨r, outcome, hr, hin⟩ := h.inOrder.handleData S WIN hfit
  obtain ⟨hended, hobserved⟩ := b.arrive_ended p
  refine ⟨r, outcome, hr, hin, fun _ => h.live hend, fun he => ?_, h.observed.trans hobserved.symm⟩
  rw [hended, hend] at he
  cases he

theorem Serving.eos (h : Serving machine eosSeq eosObserved n b) (S : Slots σ) (WIN : Nat) :
    ∃ r outcome, machine.handleData S WIN (seqOf n) .unsegmented [] = some (r, .ok outcome) ∧
      Serving (StreamState.drainEos (some (seqOf n)) machine.base.expectedSeq r)
        (some (seqOf n)) eosObserved (n + 1) b.close := by
  have hfit : Fits REASM b.opened (.unsegmented, []) := Nat.zero_le REASM
  obtain ⟨r, outcome, hr, hin⟩ := h.inOrder.handleData S WIN hfit
  obtain ⟨hopened, hwaiting⟩ := arrive_eos b h.exclusive
  have hbefore : seqStrictlyPast machine.base.expectedSeq (seqOf n) = false := by
    rw [h.inOrder.expected]
    exact seqStrictlyPast_self _
  have hafter : seqStrictlyPast r.base.expectedSeq (seqOf n) = true := by
    rw [hin.expected]
    exact seqStrictlyPast_succ n
  have hlen : r.reasm.completeMessageLen = some 0 ↔
      (b.arrive (.unsegmented, [])).waiting = some [] := by
    rw [← hin.waiting, ← Reassembly.message_length, Option.map_eq_some_iff]
    constructor
    · rintro ⟨m, hm, hz⟩
      rw [hm, List.length_eq_zero_iff.mp hz]
    · intro hm
      exact ⟨[], hm, rfl⟩
  have hclosed : b.close.ended = false → some (seqOf n) = none := fun hlive => by cases hlive
  refine ⟨r, outcome, hr, ?_⟩
  rw [StreamState.drainEos]
  by_cases hw : (b.arrive (.unsegmented, [])).waiting = some []
  · rw [if_pos hw] at hwaiting
    rw [if_pos ⟨hbefore, hafter, hlen.mpr hw⟩]
    exact ⟨⟨hin.expected, hin.occupied, hin.opened.trans hopened, hwaiting⟩, hclosed,
      fun _ => ⟨_, rfl, hafter⟩, h.observed⟩
  · rw [if_neg hw] at hwaiting
    rw [if_neg fun hd => hw (hlen.mp hd.2.2)]
    exact ⟨⟨hin.expected, hin.occupied, hin.opened.trans hopened, hin.waiting.trans hwaiting⟩,
      hclosed, fun _ => ⟨_, rfl, hafter⟩, h.observed⟩

theorem Serving.ready_iff (h : Serving machine eosSeq eosObserved n b) {reached : Bool}
    (hnone : eosSeq = none → reached = false)
    (hsome : ∀ eos, eosSeq = some eos →
      reached = seqStrictlyPast machine.base.expectedSeq eos) :
    (eosObserved = false ∧ reached = true) ↔ (b.ended = true ∧ b.observed = false) := by
  rw [h.observed, and_comm]
  refine and_congr_left fun _ => ?_
  cases hend : b.ended with
  | false => rw [hnone (h.live hend)]
  | true =>
    obtain ⟨eos, heos, hpast⟩ := h.passed hend
    rw [hsome eos heos, hpast]

theorem Serving.takeMessage (h : Serving machine eosSeq eosObserved n b) :
    Serving machine.takeMessage.2 eosSeq eosObserved n { b with waiting := none } :=
  ⟨h.inOrder.takeMessage, h.live, h.passed, h.observed⟩

theorem Serving.observe (h : Serving machine eosSeq eosObserved n b) :
    Serving machine eosSeq true n { b with observed := true } :=
  ⟨⟨h.inOrder.expected, h.inOrder.occupied, h.inOrder.opened, h.inOrder.waiting⟩, h.live, h.passed,
    rfl⟩

end Serving

/-! ## The tokio path -/

section Tokio

variable {σ : Type} {S : Slots σ} {REASM WIN room : Nat}

/-- `SrsppReceiver` under packets of one source, over a link that takes its
acknowledgements. -/
def tokioDriver (S : Slots σ) (WIN REASM room : Nat) (config : ReceiverConfig)
    (source : Address) : Driver (SrsppReceiver σ REASM) where
  start := .new S REASM config source
  data n p s :=
    match s.handleIncoming S WIN true (.data source (seqOf n) p.1 p.2) with
    | some (s', _, .ok ()) => some s'
    | _ => none
  eos n s :=
    match s.handleIncoming S WIN true (.eos source (seqOf n) .unsegmented) with
    | some (s', _, .ok ()) => some s'
    | _ => none
  take := SrsppReceiver.recv room

def TokioServing (n : Nat) (b : Mailbox) (s : SrsppReceiver σ REASM) : Prop :=
  Serving s.machine s.eosSeq s.eosObserved n b

theorem onData_written (s : SrsppReceiver σ REASM) (outcome : DataOutcome) :
    ∃ s' ack, s.onData true outcome = (s', ack, .ok ()) ∧ s'.machine = s.machine ∧
      s'.eosSeq = s.eosSeq ∧ s'.eosObserved = s.eosObserved := by
  simp only [SrsppReceiver.onData, SrsppReceiver.applyResult, Bool.not_true, Bool.and_false,
    Bool.false_eq_true, if_false]
  exact ⟨_, _, rfl, rfl, rfl, rfl⟩

theorem tokio_eosReached (s : SrsppReceiver σ REASM) :
    (s.eosSeq = none → s.eosReached = false) ∧ ∀ eos, s.eosSeq = some eos →
      s.eosReached = seqStrictlyPast s.machine.base.expectedSeq eos := by
  unfold SrsppReceiver.eosReached
  refine ⟨fun h => ?_, fun eos h => ?_⟩
  · rw [h]
  · rw [h]

theorem tokio_simulates (S : Slots σ) (WIN REASM room : Nat) (config : ReceiverConfig)
    (source : Address) :
    Simulates (tokioDriver S WIN REASM room config source) REASM room TokioServing where
  start := serving_new S REASM
  data := by
    intro n b s p h hend hfit
    obtain ⟨r, outcome, hr, hserving⟩ := Serving.data h hend S WIN hfit
    obtain ⟨s', ack, hs', hmachine, heos, hobs⟩ := onData_written { s with machine := r } outcome
    refine ⟨s', ?_, ?_⟩
    · simp only [tokioDriver, SrsppReceiver.handleIncoming, hr, hs']
    · unfold TokioServing
      rw [hmachine, heos, hobs]
      exact hserving
  refuse := by
    intro n b s p h hend hfit
    obtain ⟨e, he⟩ := h.inOrder.handleData_error S WIN hfit
    simp only [tokioDriver, SrsppReceiver.handleIncoming, he]
  eos := by
    intro n b s h hend
    obtain ⟨r, outcome, hr, hserving⟩ := Serving.eos h S WIN
    have hnone : s.eosSeq = none := h.live hend
    obtain ⟨s', ack, hs', hmachine, heos, hobs⟩ := onData_written
      { s with
        eosSeq := some (seqOf n)
        machine := StreamState.drainEos (some (seqOf n)) s.machine.base.expectedSeq r } outcome
    refine ⟨s', ?_, ?_⟩
    · simp only [tokioDriver, SrsppReceiver.handleIncoming, hnone, Option.isNone_none, if_true, hr,
        hs']
    · unfold TokioServing
      rw [hmachine, heos, hobs]
      exact hserving
  takeNone := by
    intro n b s h htake
    have hready := h.ready_iff (tokio_eosReached s).1 (tokio_eosReached s).2
    cases hw : b.waiting with
    | some m => simp [Mailbox.take, hw] at htake
    | none =>
      have hmsg : s.machine.takeMessage.1 = none := h.inOrder.waiting.trans hw
      by_cases hend : b.ended = true ∧ b.observed = false
      · simp [Mailbox.take, hw, hend] at htake
      · show s.recv room = none
        simp only [SrsppReceiver.recv, hmsg, if_neg fun hr => hend (hready.mp hr)]
  takeSome := by
    intro n b s e b' h htake
    have hready := h.ready_iff (tokio_eosReached s).1 (tokio_eosReached s).2
    cases hw : b.waiting with
    | some m =>
      have hmsg : s.machine.takeMessage.1 = some m := h.inOrder.waiting.trans hw
      simp only [Mailbox.take, hw, Option.some.injEq, Prod.mk.injEq] at htake
      obtain ⟨rfl, rfl⟩ := htake
      refine ⟨{ s with machine := s.machine.takeMessage.2 }, ?_, Serving.takeMessage h⟩
      show s.recv room = _
      simp only [SrsppReceiver.recv, hmsg]
    | none =>
      have hmsg : s.machine.takeMessage.1 = none := h.inOrder.waiting.trans hw
      by_cases hend : b.ended = true ∧ b.observed = false
      · simp only [Mailbox.take, hw, if_pos hend, Option.some.injEq, Prod.mk.injEq] at htake
        obtain ⟨rfl, rfl⟩ := htake
        refine ⟨{ s with machine := s.machine.takeMessage.2, eosObserved := true }, ?_, ?_⟩
        · show s.recv room = _
          simp only [SrsppReceiver.recv, hmsg, if_pos (hready.mpr hend)]
        · exact (Serving.takeMessage h).observe
      · simp [Mailbox.take, hw, hend] at htake

end Tokio

/-! ## The cFS path -/

section Cfs

variable {σ : Type} {S : Slots σ} {REASM MAX_STREAMS WIN room : Nat}

/-- The endpoint under packets of one source, received through the view of that
source, over a link that takes its acknowledgements. -/
def cfsDriver (S : Slots σ) (WIN REASM MAX_STREAMS room : Nat) (config : ReceiverConfig)
    (now : Nat → Nat) (source : Address) : Driver (MultiReceiverState σ REASM MAX_STREAMS) where
  start := .new σ REASM MAX_STREAMS config
  data n p s :=
    match s.processData S WIN (now n) true (.data source (seqOf n) p.1 p.2) with
    | some (s', _, .ok ()) => some s'
    | _ => none
  eos n s :=
    match s.processData S WIN (now n) true (.eos source (seqOf n) .unsegmented) with
    | some (s', _, .ok ()) => some s'
    | _ => none
  take s :=
    match s.receiverRecv source room with
    | (some (.ok (_, .data copied)), s') => some (some copied, s')
    | (some (.ok (_, .eos)), s') => some (none, s')
    | _ => none

structure CfsServing (S : Slots σ) (source : Address) (n : Nat) (b : Mailbox)
    (s : MultiReceiverState σ REASM MAX_STREAMS) : Prop where
  room : s.HasRoom source
  healthy : s.error = none
  /-- Nothing is taken from a stream that is not open yet. -/
  fresh : s.streams.get source = none → b = .empty
  serving : Serving (s.streamOf S source).machine (s.streamOf S source).eosSeq
    (s.streamOf S source).eosObserved n b

theorem cfs_eosReached (s : StreamState σ REASM) :
    (s.eosSeq = none → s.eosReached = false) ∧ ∀ eos, s.eosSeq = some eos →
      s.eosReached = seqStrictlyPast s.machine.base.expectedSeq eos := by
  unfold StreamState.eosReached
  refine ⟨fun h => ?_, fun eos h => ?_⟩
  · rw [h]
  · rw [h]

variable {source : Address} {n : Nat} {b : Mailbox} {s : MultiReceiverState σ REASM MAX_STREAMS}

theorem drive_serving {seq : SequenceCount} {flags : SequenceFlag} {payload : Bytes}
    (hroom : s.HasRoom source) (now : Nat) {machine : Backend σ REASM} {outcome : DataOutcome}
    (hcall : (s.streamOf S source).machine.handleData S WIN seq flags payload =
      some (machine, .ok outcome))
    (hserving : Serving (StreamState.drainEos (s.streamOf S source).eosSeq
      (s.streamOf S source).machine.base.expectedSeq machine) (s.streamOf S source).eosSeq
        (s.streamOf S source).eosObserved n b) (hhealthy : s.error = none) :
    ∃ s' ack, s.drive S WIN now true source seq flags payload = some (s', ack, .ok ()) ∧
      CfsServing S source n b s' := by
  obtain ⟨s', stream', ack, res, hd, hget, hdriven, hwritten⟩ :=
    MultiReceiverState.drive_ok now true hroom hcall
  obtain ⟨rfl, -⟩ := hwritten rfl
  have herror := (MultiReceiverState.frame_drive hd).error
  have hstream : s'.streamOf S source = stream' := MultiReceiverState.streamOf_of_get hget
  refine ⟨s', ack, hd, MultiReceiverState.hasRoom_of_get hget, herror.trans hhealthy,
    fun hnone => ?_, ?_⟩
  · rw [hget] at hnone
    cases hnone
  · rw [hstream, hdriven.machine, hdriven.eosSeq, hdriven.eosObserved]
    exact hserving

theorem drive_error {seq : SequenceCount} {flags : SequenceFlag} {payload : Bytes}
    (hroom : s.HasRoom source) (now : Nat) {machine : Backend σ REASM} {e : ReceiverError}
    (hcall : (s.streamOf S source).machine.handleData S WIN seq flags payload =
      some (machine, .error e)) :
    ∃ s', s.drive S WIN now true source seq flags payload =
      some (s', none, .error (.receiver e)) := by
  have hget := MultiReceiverState.get_openStream (S := S) hroom
  simp only [MultiReceiverState.drive, MultiReceiverState.driveSegment, hget, hcall]
  exact ⟨_, rfl⟩

theorem CfsServing.modify (h : CfsServing S source n b s) {stream : StreamState σ REASM}
    (hget : s.streams.get source = some stream) (stream' : StreamState σ REASM) {b' : Mailbox}
    (hserving : Serving stream'.machine stream'.eosSeq stream'.eosObserved n b') :
    CfsServing S source n b' (s.modifyStream source fun _ => stream') := by
  have hget' : (s.modifyStream source fun _ => stream').streams.get source = some stream' := by
    simp only [MultiReceiverState.modifyStream]
    rw [LinearMap.get_modify_self, hget, Option.map_some]
  refine ⟨MultiReceiverState.hasRoom_of_get hget', h.healthy, fun hnone => ?_, ?_⟩
  · rw [hget'] at hnone
    cases hnone
  · rw [MultiReceiverState.streamOf_of_get hget']
    exact hserving

theorem takeRecvEvent_message {stream : StreamState σ REASM}
    (h : Serving stream.machine stream.eosSeq stream.eosObserved n b) {m : Bytes}
    (hw : b.waiting = some m) :
    stream.takeRecvEvent room =
      some (.data (m.take room), { stream with machine := stream.machine.takeMessage.2 }) := by
  have hmsg : stream.machine.takeMessage.1 = some m := h.inOrder.waiting.trans hw
  simp only [StreamState.takeRecvEvent, hmsg]

theorem takeRecvEvent_end {stream : StreamState σ REASM}
    (h : Serving stream.machine stream.eosSeq stream.eosObserved n b) (hw : b.waiting = none) :
    stream.takeRecvEvent room =
      if b.ended = true ∧ b.observed = false then
        some (.eos, { stream with eosObserved := true })
      else none := by
  have hmsg : stream.machine.takeMessage.1 = none := h.inOrder.waiting.trans hw
  have hready := h.ready_iff (cfs_eosReached stream).1 (cfs_eosReached stream).2
  simp only [StreamState.takeRecvEvent, hmsg, hready]

theorem cfsDriver_take (h : CfsServing S source n b s) (config : ReceiverConfig)
    (now : Nat → Nat) :
    (cfsDriver S WIN REASM MAX_STREAMS room config now source).take s =
      match (s.streams.get source).bind (StreamState.takeRecvEvent room) with
      | some (.data copied, stream) => some (some copied, s.modifyStream source fun _ => stream)
      | some (.eos, stream) => some (none, s.modifyStream source fun _ => stream)
      | none => none := by
  simp only [cfsDriver, MultiReceiverState.receiverRecv, h.healthy]
  cases (s.streams.get source).bind (StreamState.takeRecvEvent room) with
  | none => rfl
  | some x =>
    obtain ⟨copied | _, stream⟩ := x
    · rfl
    · rfl

theorem cfs_simulates (S : Slots σ) (WIN REASM room : Nat) {MAX_STREAMS : Nat}
    (hstreams : 0 < MAX_STREAMS) (config : ReceiverConfig) (now : Nat → Nat) (source : Address) :
    Simulates (cfsDriver S WIN REASM MAX_STREAMS room config now source) REASM room
      (CfsServing S source) where
  start := ⟨Or.inr hstreams, rfl, fun _ => rfl, serving_new S REASM⟩
  data := by
    intro n b s p h hend hfit
    obtain ⟨r, outcome, hr, hserving⟩ := h.serving.data hend S WIN hfit
    have hnone : (s.streamOf S source).eosSeq = none := h.serving.live hend
    have hlive : (s.streamOf S source).eosReached = false := (cfs_eosReached _).1 hnone
    have hdrain : StreamState.drainEos (s.streamOf S source).eosSeq
        (s.streamOf S source).machine.base.expectedSeq r = r := by
      rw [hnone]
      rfl
    obtain ⟨s', ack, hd, hserves⟩ :=
      drive_serving h.room (now n) hr (hdrain.symm ▸ hserving) h.healthy
    refine ⟨s', ?_, hserves⟩
    simp only [cfsDriver, MultiReceiverState.processData, MultiReceiverState.reap_live hlive, hd]
  refuse := by
    intro n b s p h hend hfit
    obtain ⟨e, he⟩ := h.serving.inOrder.handleData_error S WIN hfit
    have hlive : (s.streamOf S source).eosReached = false :=
      (cfs_eosReached _).1 (h.serving.live hend)
    obtain ⟨s', hd⟩ := drive_error h.room (now n) he
    simp only [cfsDriver, MultiReceiverState.processData, MultiReceiverState.reap_live hlive, hd]
  eos := by
    intro n b s h hend
    obtain ⟨r, outcome, hr, hserving⟩ := h.serving.eos S WIN
    obtain ⟨hroom, hstream⟩ := MultiReceiverState.streamOf_recordEos S (seqOf n) h.room
    have hnone : (s.streamOf S source).eosSeq = none := h.serving.live hend
    have hrecord : (s.streamOf S source).recordEos (seqOf n) =
        { s.streamOf S source with eosSeq := some (seqOf n) } := by
      rw [StreamState.recordEos, hnone]
      rfl
    have hhealthy : ((s.openStream S source).modifyStream source
        (·.recordEos (seqOf n))).error = none :=
      (MultiReceiverState.frame_openStream (S := S)).error.trans h.healthy
    rw [hrecord] at hstream
    obtain ⟨s', ack, hd, hserves⟩ := drive_serving hroom (now n)
      (by rw [hstream]; exact hr) (by rw [hstream]; exact hserving) hhealthy
    refine ⟨s', ?_, hserves⟩
    simp only [cfsDriver, MultiReceiverState.processData, hd]
  takeNone := by
    intro n b s h htake
    rw [cfsDriver_take h]
    cases hget : s.streams.get source with
    | none => rfl
    | some stream =>
      have hserving := h.serving
      rw [MultiReceiverState.streamOf_of_get hget] at hserving
      cases hw : b.waiting with
      | some m => simp [Mailbox.take, hw] at htake
      | none =>
        by_cases hend : b.ended = true ∧ b.observed = false
        · simp [Mailbox.take, hw, hend] at htake
        · simp only [Option.bind_some, takeRecvEvent_end hserving hw, if_neg hend]
  takeSome := by
    intro n b s e b' h htake
    rw [cfsDriver_take h]
    cases hget : s.streams.get source with
    | none =>
      rw [h.fresh hget] at htake
      cases htake
    | some stream =>
      have hserving := h.serving
      rw [MultiReceiverState.streamOf_of_get hget] at hserving
      cases hw : b.waiting with
      | some m =>
        simp only [Mailbox.take, hw, Option.some.injEq, Prod.mk.injEq] at htake
        obtain ⟨rfl, rfl⟩ := htake
        refine ⟨_, ?_, h.modify hget { stream with machine := stream.machine.takeMessage.2 }
          hserving.takeMessage⟩
        simp only [Option.bind_some, takeRecvEvent_message hserving hw]
      | none =>
        by_cases hend : b.ended = true ∧ b.observed = false
        · simp only [Mailbox.take, hw, if_pos hend, Option.some.injEq, Prod.mk.injEq] at htake
          obtain ⟨rfl, rfl⟩ := htake
          have hobserve := hserving.observe
          rw [hw] at hobserve
          refine ⟨_, ?_, h.modify hget { stream with eosObserved := true } hobserve⟩
          simp only [Option.bind_some, takeRecvEvent_end hserving hw, if_pos hend]
        · simp [Mailbox.take, hw, hend] at htake

end Cfs

/-! ## Both paths -/

/-- The packets go through and no empty message is lost, in both paths, exactly when the
packets make messages that fit and no empty one meets a message that waits. -/
theorem empties_survive_iff {σ : Type} (S : Slots σ) (WIN REASM : Nat) {MAX_STREAMS room : Nat}
    (hstreams : 0 < MAX_STREAMS) (hroom : 0 < room) (config : ReceiverConfig) (now : Nat → Nat)
    (source : Address) (items : List (Packet × Nat)) (last : Nat) :
    ((tokioDriver S WIN REASM room config source).Survives room items last ↔
      FitsAll REASM none (packetsOf items) ∧ NoEmptyMeets none none items) ∧
    ((cfsDriver S WIN REASM MAX_STREAMS room config now source).Survives room items last ↔
      FitsAll REASM none (packetsOf items) ∧ NoEmptyMeets none none items) :=
  ⟨(tokio_simulates S WIN REASM room config source).survives_iff hroom items last,
    (cfs_simulates S WIN REASM room hstreams config now source).survives_iff hroom items last⟩

section Examples

abbrev groundLink : ReceiverConfig := ⟨.ground 1, true, 0, none⟩

abbrev tokioFast := tokioDriver (FastReceiver.slotsOf 4 8) 4 16 8 groundLink (.ground 2)

abbrev cfsFast :=
  cfsDriver (FastReceiver.slotsOf 4 8) 4 16 2 8 groundLink (fun n => n) (.ground 2)

/-- An empty message that is taken at once, before one of two segments. -/
theorem empties_survive_taken :
    tokioFast.Survives 8 [((.unsegmented, []), 1), ((.first, [1]), 0), ((.last, [2]), 0)] 0 ∧
      cfsFast.Survives 8 [((.unsegmented, []), 1), ((.first, [1]), 0), ((.last, [2]), 0)] 0 := by
  obtain ⟨htokio, hcfs⟩ := empties_survive_iff (FastReceiver.slotsOf 4 8) 4 16
    (show 0 < 2 by decide) (show 0 < 8 by decide) groundLink (fun n => n) (.ground 2)
    [((.unsegmented, []), 1), ((.first, [1]), 0), ((.last, [2]), 0)] 0
  exact ⟨htokio.2 ⟨by decide, by decide⟩, hcfs.2 ⟨by decide, by decide⟩⟩

/-- The end of the stream takes an empty message with it that still waits. -/
theorem empty_message_lost_at_end :
    tokioFast.events [((.unsegmented, []), 0)] 0 = some [none] ∧
      cfsFast.events [((.unsegmented, []), 0)] 0 = some [none] ∧
      ¬ tokioFast.Survives 8 [((.unsegmented, []), 0)] 0 ∧
      ¬ cfsFast.Survives 8 [((.unsegmented, []), 0)] 0 := by
  have hlost : ¬ EmptiesSurvive 8 (messagesOf [((.unsegmented, []), 0)]) [none] := by
    rintro ⟨seen, hseen, -, hcount⟩
    have hnil : seen = [] := by
      have hlen := congrArg List.length hseen
      simpa using hlen
    rw [hnil] at hcount
    exact absurd hcount (by decide)
  have htokio : tokioFast.events [((.unsegmented, []), 0)] 0 = some [none] := by decide
  have hcfs : cfsFast.events [((.unsegmented, []), 0)] 0 = some [none] := by decide
  refine ⟨htokio, hcfs, ?_, ?_⟩
  · rintro ⟨events, hev, hs⟩
    exact hlost (Option.some.inj (htokio.symm.trans hev) ▸ hs)
  · rintro ⟨events, hev, hs⟩
    exact hlost (Option.some.inj (hcfs.symm.trans hev) ▸ hs)

end Examples

end Srspp
end Leodos
