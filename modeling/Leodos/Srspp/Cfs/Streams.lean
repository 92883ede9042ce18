/-
What the receive operations do to the stream of one source.

A packet changes the stream of its own source only, and when the table has room for
that stream the packet is driven through it.  A receive call changes the stream whose
event it returns.
-/
import Leodos.Srspp.Cfs.Receiver

namespace Leodos
namespace Srspp
namespace Cfs

open Container Isl Spp

variable {σ : Type} {REASM MAX_STREAMS WIN now : Nat} {S : Slots σ} {written : Bool}

namespace MultiReceiverState

variable {s s' s'' : MultiReceiverState σ REASM MAX_STREAMS} {source : Address}
variable {seq : SequenceCount} {flags : SequenceFlag} {payload : Bytes}

/-- The stream of a source, or the one that a packet of it would open. -/
def streamOf (S : Slots σ) (s : MultiReceiverState σ REASM MAX_STREAMS) (source : Address) :
    StreamState σ REASM :=
  (s.streams.get source).getD (.new S REASM s.config source)

/-- A packet of the source finds a stream. -/
def HasRoom (s : MultiReceiverState σ REASM MAX_STREAMS) (source : Address) : Prop :=
  s.streams.containsKey source = true ∨ s.streams.entries.length < MAX_STREAMS

instance (s : MultiReceiverState σ REASM MAX_STREAMS) (source : Address) :
    Decidable (s.HasRoom source) :=
  inferInstanceAs (Decidable (_ ∨ _))

theorem streamOf_of_get {stream : StreamState σ REASM}
    (h : s.streams.get source = some stream) : s.streamOf S source = stream := by
  rw [streamOf, h, Option.getD_some]

theorem hasRoom_of_get {stream : StreamState σ REASM}
    (h : s.streams.get source = some stream) : s.HasRoom source := by
  refine Or.inl ?_
  rw [LinearMap.containsKey, h]
  rfl

/-! ## The other streams -/

/-- Only the stream of `source` differs. -/
structure Frame (source : Address) (s s' : MultiReceiverState σ REASM MAX_STREAMS) : Prop where
  config : s'.config = s.config
  ackDelay : s'.ackDelay = s.ackDelay
  error : s'.error = s.error
  others : ∀ k, k ≠ source → s'.streams.get k = s.streams.get k

namespace Frame

theorem refl (source : Address) (s : MultiReceiverState σ REASM MAX_STREAMS) : Frame source s s :=
  ⟨rfl, rfl, rfl, fun _ _ => rfl⟩

theorem trans (h : Frame source s s') (h' : Frame source s' s'') : Frame source s s'' :=
  ⟨h'.config.trans h.config, h'.ackDelay.trans h.ackDelay, h'.error.trans h.error,
    fun k hk => (h'.others k hk).trans (h.others k hk)⟩

theorem streamOf (h : Frame source s s') {k : Address} (hk : k ≠ source) :
    s'.streamOf S k = s.streamOf S k := by
  rw [MultiReceiverState.streamOf, MultiReceiverState.streamOf, h.others k hk, h.config]

end Frame

theorem frame_openStream : Frame source s (s.openStream S source) := by
  unfold openStream
  by_cases hc : s.streams.containsKey source = true
  · rw [if_pos hc]
    exact Frame.refl source s
  · rw [if_neg hc]
    exact ⟨rfl, rfl, rfl, fun k hk => LinearMap.get_insert_of_ne _ hk _⟩

theorem frame_modifyStream (f : StreamState σ REASM → StreamState σ REASM) :
    Frame source s (s.modifyStream source f) :=
  ⟨rfl, rfl, rfl, fun _ hk => LinearMap.get_modify_of_ne _ hk f⟩

theorem frame_reap : Frame source s (s.reap source) := by
  unfold reap
  by_cases hr : (s.streams.get source).any StreamState.eosReached = true
  · rw [if_pos hr]
    exact ⟨rfl, rfl, rfl, fun k hk => LinearMap.get_remove_of_ne _ hk⟩
  · rw [if_neg hr]
    exact Frame.refl source s

theorem frame_driveSegment {res : Except TransportError HandleResult}
    (h : s.driveSegment S WIN source seq flags payload = some (s', res)) : Frame source s s' := by
  unfold driveSegment at h
  cases hget : (s.openStream S source).streams.get source with
  | none =>
    simp only [hget, Option.some.injEq, Prod.mk.injEq] at h
    exact h.1 ▸ frame_openStream
  | some stream =>
    cases hcall : stream.machine.handleData S WIN seq flags payload with
    | none => simp only [hget, hcall, reduceCtorEq] at h
    | some r =>
      obtain ⟨machine, _ | outcome⟩ := r <;>
        simp only [hget, hcall, Option.some.injEq, Prod.mk.injEq] at h <;>
        exact h.1 ▸ frame_openStream.trans (frame_modifyStream _)

theorem frame_driveActions (now : Nat) (written : Bool) (s : MultiReceiverState σ REASM MAX_STREAMS)
    (source : Address) (result : HandleResult) :
    Frame source s (s.driveActions now written source result).1 := by
  unfold driveActions
  by_cases hw : (result.ack.isSome && !written) = true
  · rw [if_pos hw]
    exact Frame.refl source s
  · rw [if_neg hw]
    exact frame_modifyStream _

theorem frame_drive {r : Option AckPacket × Except TransportError Unit}
    (h : s.drive S WIN now written source seq flags payload = some (s', r)) :
    Frame source s s' := by
  unfold drive at h
  cases hd : s.driveSegment S WIN source seq flags payload with
  | none => simp only [hd, reduceCtorEq] at h
  | some x =>
    obtain ⟨s₁, _ | result⟩ := x
    · simp only [hd, Option.some.injEq, Prod.mk.injEq] at h
      exact h.1 ▸ frame_driveSegment hd
    · simp only [hd, Option.some.injEq] at h
      have ha := frame_driveActions now written s₁ source result
      rw [h] at ha
      exact (frame_driveSegment hd).trans ha

theorem frame_processData {p : Incoming} {r : Option AckPacket × Except TransportError Unit}
    (h : s.processData S WIN now written p = some (s', r)) :
    s'.config = s.config ∧ s'.error = s.error ∧
      ∀ k, p.source ≠ some k → s'.streams.get k = s.streams.get k := by
  cases p with
  | data source seq flags payload =>
    have hf := frame_reap.trans (frame_drive h)
    exact ⟨hf.config, hf.error, fun k hk => hf.others k fun he => hk (congrArg some he.symm)⟩
  | eos source seq flags =>
    have hf := (frame_openStream.trans (frame_modifyStream _)).trans (frame_drive h)
    exact ⟨hf.config, hf.error, fun k hk => hf.others k fun he => hk (congrArg some he.symm)⟩
  | other =>
    simp only [processData, Option.some.injEq, Prod.mk.injEq] at h
    rw [← h.1]
    exact ⟨rfl, rfl, fun _ _ => rfl⟩

/-! ## The stream of the source -/

theorem get_openStream (h : s.HasRoom source) :
    (s.openStream S source).streams.get source = some (s.streamOf S source) := by
  unfold openStream
  by_cases hc : s.streams.containsKey source = true
  · rw [if_pos hc]
    obtain ⟨stream, hg⟩ := Option.isSome_iff_exists.1 hc
    rw [streamOf_of_get hg, hg]
  · rw [if_neg hc, LinearMap.get_insert_self _ _ h, streamOf]
    have hg : s.streams.get source = none := by
      simpa [LinearMap.containsKey] using hc
    rw [hg, Option.getD_none]

theorem openStream_full (h : ¬ s.HasRoom source) : s.openStream S source = s := by
  unfold openStream
  rw [if_neg fun hc => h (Or.inl hc), LinearMap.insert_full _ h]

theorem get_of_full (h : ¬ s.HasRoom source) : s.streams.get source = none := by
  cases hg : s.streams.get source with
  | none => rfl
  | some stream => exact absurd (hasRoom_of_get hg) h

/-- What a segment that the backend takes leaves behind in its stream. -/
structure Driven (stream : StreamState σ REASM) (machine : Backend σ REASM)
    (outcome : DataOutcome) (stream' : StreamState σ REASM) : Prop where
  machine : stream'.machine =
    StreamState.drainEos stream.eosSeq stream.machine.base.expectedSeq machine
  ackState : stream'.ackState = (stream.ackState.onData outcome stream'.machine.base.expectedSeq
    stream'.machine.base.recvBitmap).1
  eosSeq : stream'.eosSeq = stream.eosSeq
  eosObserved : stream'.eosObserved = stream.eosObserved

theorem drive_ok (now : Nat) (written : Bool) (hroom : s.HasRoom source) {machine : Backend σ REASM}
    {outcome : DataOutcome}
    (hcall : (s.streamOf S source).machine.handleData S WIN seq flags payload =
      some (machine, .ok outcome)) :
    ∃ s' stream' ack res, s.drive S WIN now written source seq flags payload =
        some (s', ack, res) ∧
      s'.streams.get source = some stream' ∧
      Driven (s.streamOf S source) machine outcome stream' ∧
      (written = true → res = .ok () ∧
        ack = ((s.streamOf S source).ackState.onData outcome stream'.machine.base.expectedSeq
          stream'.machine.base.recvBitmap).2.ack.map fun a =>
            ⟨s.config.localAddress, a.destination, a.cumulativeAck, a.selectiveBitmap⟩) := by
  have hget := get_openStream (S := S) hroom
  have hconfig : (s.openStream S source).config = s.config := frame_openStream.config
  generalize hopen : s.openStream S source = s₁ at hget hconfig
  generalize s.streamOf S source = stream at hcall hget
  simp only [drive, driveSegment, hopen, hget, hcall]
  generalize hm : StreamState.drainEos stream.eosSeq stream.machine.base.expectedSeq machine = m
  generalize hon : stream.ackState.onData outcome m.base.expectedSeq m.base.recvBitmap = on
  obtain ⟨ackState, result⟩ := on
  have hget' : (s₁.modifyStream source fun _ => { stream with machine := m, ackState }).streams.get
      source = some { stream with machine := m, ackState } := by
    simp only [modifyStream]
    rw [LinearMap.get_modify_self, hget, Option.map_some]
  unfold driveActions
  by_cases hw : (result.ack.isSome && !written) = true
  · rw [if_pos hw]
    refine ⟨_, _, _, _, rfl, hget', ⟨hm.symm, ?_, rfl, rfl⟩, fun h => ?_⟩
    · simp only [hon]
    · rw [h] at hw
      simp at hw
  · rw [if_neg hw]
    have hset := (LinearMap.get_modify_self _ source _).trans (congrArg (Option.map fun stream' =>
      { stream' with
        ackDeadline := deadline now s₁.ackDelay stream'.ackDeadline result.ackTimer
        progressDeadline := deadline now (startTicks result.progressTimer)
          stream'.progressDeadline result.progressTimer }) hget')
    refine ⟨_, _, _, _, rfl, hset, ⟨hm.symm, ?_, rfl, rfl⟩, fun _ => ⟨rfl, ?_⟩⟩
    · simp only [hon]
    · simp only [hon, modifyStream, hconfig]

theorem drive_full (S : Slots σ) (WIN now : Nat) (written : Bool) (seq : SequenceCount)
    (flags : SequenceFlag) (payload : Bytes) (hroom : ¬ s.HasRoom source) :
    ∃ s', s.drive S WIN now written source seq flags payload = some (s', none, .ok ()) ∧
      s'.streams.get source = none := by
  have hget := get_of_full hroom
  simp only [drive, driveSegment, openStream_full hroom, hget]
  refine ⟨_, rfl, ?_⟩
  exact (LinearMap.get_modify_self _ source _).trans (congrArg (Option.map _) hget)

theorem reap_live (h : (s.streamOf S source).eosReached = false) : s.reap source = s := by
  unfold reap
  rw [if_neg]
  cases hg : s.streams.get source with
  | none => simp
  | some stream =>
    rw [streamOf_of_get hg] at h
    simp [h]

theorem streamOf_recordEos (S : Slots σ) (seq : SequenceCount) (hroom : s.HasRoom source) :
    ((s.openStream S source).modifyStream source (·.recordEos seq)).HasRoom source ∧
      ((s.openStream S source).modifyStream source (·.recordEos seq)).streamOf S source =
        (s.streamOf S source).recordEos seq := by
  have hget : ((s.openStream S source).modifyStream source (·.recordEos seq)).streams.get source =
      some ((s.streamOf S source).recordEos seq) := by
    simp only [modifyStream]
    rw [LinearMap.get_modify_self, get_openStream hroom, Option.map_some]
  exact ⟨hasRoom_of_get hget, streamOf_of_get hget⟩

theorem not_hasRoom_recordEos (S : Slots σ) (seq : SequenceCount) (hroom : ¬ s.HasRoom source) :
    ¬ ((s.openStream S source).modifyStream source (·.recordEos seq)).HasRoom source := by
  rw [openStream_full hroom]
  rintro (hc | hl)
  · rw [LinearMap.containsKey, modifyStream, LinearMap.get_modify_self, get_of_full hroom] at hc
    cases hc
  · rw [modifyStream, LinearMap.modify, List.length_map] at hl
    exact hroom (Or.inr hl)

theorem runPacket_of_processData {p : Incoming} {ack : Option AckPacket}
    {res : Except TransportError Unit}
    (h : s.processData S WIN now written p = some (s', ack, res)) :
    ∃ s'', s.runPacket S WIN now written p = some (s'', ack) ∧ s''.streams = s'.streams ∧
      s''.config = s'.config ∧ (res = .ok () → s'' = s') := by
  unfold runPacket
  rw [h]
  cases res with
  | error e => exact ⟨_, rfl, rfl, rfl, fun h => by cases h⟩
  | ok u => exact ⟨_, rfl, rfl, rfl, fun _ => rfl⟩

theorem processData_of_runPacket {p : Incoming} {ack : Option AckPacket}
    (h : s.runPacket S WIN now written p = some (s', ack)) :
    ∃ s₁ res, s.processData S WIN now written p = some (s₁, ack, res) ∧
      s'.streams = s₁.streams ∧ s'.config = s₁.config := by
  unfold runPacket at h
  cases hp : s.processData S WIN now written p with
  | none => simp only [hp, reduceCtorEq] at h
  | some r =>
    obtain ⟨s₁, ack', _ | u⟩ := r
    all_goals
      simp only [hp, Option.some.injEq, Prod.mk.injEq] at h
      obtain ⟨rfl, rfl⟩ := h
      exact ⟨s₁, _, rfl, rfl, rfl⟩

end MultiReceiverState

/-! ## Receive calls -/

theorem takeRecvEvent_cases {room : Nat} {stream stream' : StreamState σ REASM} {ev : RecvEvent}
    (h : stream.takeRecvEvent room = some (ev, stream')) :
    (∃ msg, stream.machine.reasm.message = some msg ∧ ev = .data (msg.take room) ∧
      stream' = { stream with machine := stream.machine.takeMessage.2 }) ∨
    (stream.machine.reasm.message = none ∧ ev = .eos ∧ stream.eosObserved = false ∧
      stream.eosReached = true ∧ stream' = { stream with eosObserved := true }) := by
  have htake : stream.machine.takeMessage.1 = stream.machine.reasm.message := rfl
  cases hmsg : stream.machine.reasm.message with
  | some msg =>
    simp only [StreamState.takeRecvEvent, htake, hmsg, Option.some.injEq, Prod.mk.injEq] at h
    exact Or.inl ⟨msg, rfl, h.1.symm, h.2.symm⟩
  | none =>
    simp only [StreamState.takeRecvEvent, htake, hmsg] at h
    by_cases heos : stream.eosObserved = false ∧ stream.eosReached = true
    · rw [if_pos heos, Option.some.injEq, Prod.mk.injEq] at h
      exact Or.inr ⟨rfl, h.1.symm, heos.1, heos.2, h.2.symm⟩
    · rw [if_neg heos] at h
      cases h

namespace MultiReceiverState

variable {s s' : MultiReceiverState σ REASM MAX_STREAMS}

def recv (view : Option Address) (room : Nat) (s : MultiReceiverState σ REASM MAX_STREAMS) :
    Option (Except TransportError (Address × RecvEvent)) ×
      MultiReceiverState σ REASM MAX_STREAMS :=
  match view with
  | none => s.listenerRecv room
  | some source => s.receiverRecv source room

theorem recv_cases {view : Option Address} {room : Nat}
    {res : Option (Except TransportError (Address × RecvEvent))}
    (h : s.recv view room = (res, s')) :
    (s' = s ∧ ∀ x, res ≠ some (.ok x)) ∨
    ∃ source ev stream stream', res = some (.ok (source, ev)) ∧
      s.streams.get source = some stream ∧ stream.takeRecvEvent room = some (ev, stream') ∧
      s' = s.modifyStream source fun _ => stream' := by
  cases view with
  | none =>
    simp only [recv, listenerRecv] at h
    cases herr : s.error with
    | some e =>
      simp only [herr, Prod.mk.injEq] at h
      exact Or.inl ⟨h.2.symm, fun x => by rw [← h.1]; simp⟩
    | none =>
      cases hf : s.streams.findUpdate (StreamState.takeRecvEvent room) with
      | none =>
        simp only [herr, hf, Prod.mk.injEq] at h
        exact Or.inl ⟨h.2.symm, fun x => by rw [← h.1]; simp⟩
      | some r =>
        obtain ⟨⟨source, ev⟩, streams⟩ := r
        simp only [herr, hf, Prod.mk.injEq] at h
        obtain ⟨stream, stream', hg, ht, rfl⟩ := LinearMap.findUpdate_some hf
        exact Or.inr ⟨source, ev, stream, stream', h.1.symm, hg, ht,
          by rw [← h.2, modifyStream, herr]⟩
  | some source =>
    simp only [recv, receiverRecv] at h
    cases herr : s.error with
    | some e =>
      simp only [herr, Prod.mk.injEq] at h
      exact Or.inl ⟨h.2.symm, fun x => by rw [← h.1]; simp⟩
    | none =>
      cases hf : (s.streams.get source).bind (StreamState.takeRecvEvent room) with
      | none =>
        simp only [herr, hf, Prod.mk.injEq] at h
        exact Or.inl ⟨h.2.symm, fun x => by rw [← h.1]; simp⟩
      | some r =>
        obtain ⟨ev, stream'⟩ := r
        simp only [herr, hf, Prod.mk.injEq] at h
        obtain ⟨stream, hg, ht⟩ := Option.bind_eq_some_iff.1 hf
        exact Or.inr ⟨source, ev, stream, stream', h.1.symm, hg, ht, h.2.symm⟩

end MultiReceiverState

end Cfs
end Srspp
end Leodos
