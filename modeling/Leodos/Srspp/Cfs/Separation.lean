/-
The streams of different sources do not meet.

`hear`, `fireAck` and `fireProgress` on one stream say what a packet and the expired
timers of a source do to its stream.  An operation of the receive state acts on the
stream of its source in that way and leaves the other streams alone; the walk over the
expired timers acts on every stream in that way.
-/
import Leodos.Srspp.Cfs.Streams
import Leodos.Srspp.Receiver.Acceptance

namespace Leodos
namespace Srspp
namespace Cfs

open Container Isl Spp

variable {σ : Type} {REASM MAX_STREAMS WIN now : Nat} {S : Slots σ} {written : Bool}

/-! ## One stream -/

namespace StreamState

/-- What executing the actions of `result` does to the stream. -/
def settle (now : Nat) (written : Bool) (config : ReceiverConfig) (ackDelay : Nat)
    (stream : StreamState σ REASM) (result : HandleResult) :
    StreamState σ REASM × Option AckPacket × Except TransportError Unit :=
  if result.ack.isSome && !written then (stream, none, .error .network)
  else
    ({ stream with
        ackDeadline :=
          MultiReceiverState.deadline now ackDelay stream.ackDeadline result.ackTimer
        progressDeadline :=
          MultiReceiverState.deadline now (MultiReceiverState.startTicks result.progressTimer)
            stream.progressDeadline result.progressTimer },
      result.ack.map fun a =>
        ⟨config.localAddress, a.destination, a.cumulativeAck, a.selectiveBitmap⟩,
      .ok ())

def drive (S : Slots σ) (WIN now : Nat) (written : Bool) (config : ReceiverConfig) (ackDelay : Nat)
    (stream : StreamState σ REASM) (seq : SequenceCount) (flags : SequenceFlag) (payload : Bytes) :
    Option (StreamState σ REASM × Option AckPacket × Except TransportError Unit) :=
  match stream.machine.handleData S WIN seq flags payload with
  | none => none
  | some (machine, .error e) => some ({ stream with machine }, none, .error (.receiver e))
  | some (machine, .ok outcome) =>
      let machine := drainEos stream.eosSeq stream.machine.base.expectedSeq machine
      let (ackState, result) :=
        stream.ackState.onData outcome machine.base.expectedSeq machine.base.recvBitmap
      some (settle now written config ackDelay { stream with machine, ackState } result)

/-- The stream after DATA, which restarts a stream past its EOS, has found it. -/
def renewed (S : Slots σ) (config : ReceiverConfig) (source : Address)
    (stream : StreamState σ REASM) : StreamState σ REASM :=
  if stream.eosReached then .new S REASM config source else stream

def hear (S : Slots σ) (WIN now : Nat) (written : Bool) (config : ReceiverConfig) (ackDelay : Nat)
    (stream : StreamState σ REASM) :
    Incoming → Option (StreamState σ REASM × Option AckPacket × Except TransportError Unit)
  | .data source seq flags payload =>
      (stream.renewed S config source).drive S WIN now written config ackDelay seq flags payload
  | .eos _ seq flags => (stream.recordEos seq).drive S WIN now written config ackDelay seq flags []
  | .other => some (stream, none, .ok ())

def fireAck (now : Nat) (written : Bool) (config : ReceiverConfig) (ackDelay : Nat)
    (stream : StreamState σ REASM) :
    StreamState σ REASM × Option AckPacket × Except TransportError Unit :=
  let (ackState, result) := stream.ackState.onAckTimeout stream.machine.base.expectedSeq
    stream.machine.base.recvBitmap
  settle now written config ackDelay { stream with ackState, ackDeadline := none } result

def fireProgress (S : Slots σ) (WIN now : Nat) (written : Bool) (config : ReceiverConfig)
    (ackDelay : Nat) (stream : StreamState σ REASM) :
    Option (StreamState σ REASM × Option AckPacket × Except TransportError Unit) :=
  match stream.machine.skipGap S WIN with
  | none => none
  | some (machine, .error e) =>
      some ({ stream with machine, progressDeadline := none }, none, .error (.receiver e))
  | some (machine, .ok outcome) =>
      let (ackState, result) := stream.ackState.onGapSkip outcome
      some (settle now written config ackDelay
        { stream with machine, ackState, progressDeadline := none } result)

def isPast (now : Nat) (deadline : Option Nat) : Bool := deadline.any fun d => now ≥ d

/-- The stream that a call leaves behind when it succeeds. -/
def succeeded (x : Option (StreamState σ REASM × Option AckPacket × Except TransportError Unit)) :
    Option (StreamState σ REASM) :=
  match x with
  | some (stream, _, .ok ()) => some stream
  | _ => none

/-- A walk over the expired ACK timers that succeeds. -/
def ackTimeout (now : Nat) (config : ReceiverConfig) (ackDelay : Nat)
    (stream : StreamState σ REASM) : Option (StreamState σ REASM) :=
  if isPast now stream.ackDeadline then
    succeeded (some (stream.fireAck now true config ackDelay))
  else some stream

/-- A walk over the expired progress timers that succeeds. -/
def progressTimeout (S : Slots σ) (WIN now : Nat) (config : ReceiverConfig) (ackDelay : Nat)
    (stream : StreamState σ REASM) : Option (StreamState σ REASM) :=
  if isPast now stream.progressDeadline then
    succeeded (stream.fireProgress S WIN now true config ackDelay)
  else some stream

def timeouts (S : Slots σ) (WIN now : Nat) (config : ReceiverConfig) (ackDelay : Nat)
    (stream : StreamState σ REASM) : Option (StreamState σ REASM) :=
  (stream.ackTimeout now config ackDelay).bind (progressTimeout S WIN now config ackDelay)

/-! ### Success -/

def Hears (S : Slots σ) (WIN : Nat) (config : ReceiverConfig) (stream : StreamState σ REASM) :
    Incoming → Prop
  | .data source seq flags payload =>
      (stream.renewed S config source).machine.Takes S WIN seq flags payload
  | .eos _ seq flags => stream.machine.Takes S WIN seq flags []
  | .other => True

instance (config : ReceiverConfig) (stream : StreamState σ REASM) :
    (p : Incoming) → Decidable (stream.Hears S WIN config p)
  | .data source seq flags payload =>
      inferInstanceAs (Decidable ((stream.renewed S config source).machine.Takes S WIN seq flags
        payload))
  | .eos _ seq flags => inferInstanceAs (Decidable (stream.machine.Takes S WIN seq flags []))
  | .other => .isTrue trivial

theorem settle_written (now : Nat) (config : ReceiverConfig) (ackDelay : Nat)
    (stream : StreamState σ REASM) (result : HandleResult) :
    (settle now true config ackDelay stream result).2.2 = .ok () := by
  have hw : ¬ (result.ack.isSome && !true) = true := by simp
  rw [settle, if_neg hw]

theorem drive_ok_iff (config : ReceiverConfig) (ackDelay : Nat) (stream : StreamState σ REASM)
    (seq : SequenceCount) (flags : SequenceFlag) (payload : Bytes) :
    (∃ stream' ack, stream.drive S WIN now true config ackDelay seq flags payload =
      some (stream', ack, .ok ())) ↔ stream.machine.Takes S WIN seq flags payload := by
  rw [← Backend.handleData_ok_iff, drive]
  generalize stream.machine.handleData S WIN seq flags payload = x
  obtain _ | ⟨machine, e | outcome⟩ := x
  · exact ⟨fun ⟨_, _, h⟩ => (by cases h), fun ⟨_, _, h⟩ => (by cases h)⟩
  · exact ⟨fun ⟨_, _, h⟩ => (by cases h), fun ⟨_, _, h⟩ => (by cases h)⟩
  · refine ⟨fun _ => ⟨machine, outcome, rfl⟩, fun _ => ⟨_, _, congrArg some (Prod.ext rfl
      (Prod.ext rfl ?_))⟩⟩
    exact settle_written ..

theorem hear_ok_iff (S : Slots σ) (WIN now : Nat) (config : ReceiverConfig) (ackDelay : Nat)
    (stream : StreamState σ REASM) (p : Incoming) :
    (∃ stream' ack, stream.hear S WIN now true config ackDelay p = some (stream', ack, .ok ())) ↔
      stream.Hears S WIN config p := by
  cases p with
  | data source seq flags payload => exact drive_ok_iff ..
  | eos source seq flags =>
    have hmachine : (stream.recordEos seq).machine = stream.machine := by
      rw [recordEos]
      by_cases hn : stream.eosSeq.isNone = true
      · rw [if_pos hn]
      · rw [if_neg hn]
    rw [hear, drive_ok_iff, hmachine]
    exact Iff.rfl
  | other => exact ⟨fun _ => trivial, fun _ => ⟨_, _, rfl⟩⟩

theorem fireAck_ok (now : Nat) (config : ReceiverConfig) (ackDelay : Nat)
    (stream : StreamState σ REASM) :
    ∃ stream' ack, stream.fireAck now true config ackDelay = (stream', ack, .ok ()) ∧
      stream'.machine = stream.machine ∧ stream'.progressDeadline = stream.progressDeadline := by
  have hw : ∀ result : HandleResult, ¬ (result.ack.isSome && !true) = true := by simp
  rw [fireAck, AckState.onAckTimeout]
  by_cases hpending : stream.ackState.ackPending = true
  · simp only [hpending, if_true, AckState.emitAck]
    rw [settle, if_neg (hw _)]
    exact ⟨_, _, rfl, rfl, rfl⟩
  · simp only [hpending]
    rw [settle, if_neg (hw _)]
    exact ⟨_, _, rfl, rfl, rfl⟩

theorem ackTimeout_some (now : Nat) (config : ReceiverConfig) (ackDelay : Nat)
    {stream stream' : StreamState σ REASM}
    (h : stream.ackTimeout now config ackDelay = some stream') :
    stream'.machine = stream.machine ∧ stream'.progressDeadline = stream.progressDeadline := by
  rw [ackTimeout] at h
  by_cases hpast : isPast now stream.ackDeadline = true
  · obtain ⟨stream₁, ack, hfire, hsame⟩ := fireAck_ok now config ackDelay stream
    rw [if_pos hpast, hfire, succeeded, Option.some.injEq] at h
    rw [← h]
    exact hsame
  · rw [if_neg hpast, Option.some.injEq] at h
    rw [h]
    exact ⟨rfl, rfl⟩

theorem fireProgress_ok_iff (config : ReceiverConfig) (ackDelay : Nat)
    (stream : StreamState σ REASM) :
    (∃ stream' ack, stream.fireProgress S WIN now true config ackDelay =
      some (stream', ack, .ok ())) ↔ stream.machine.Skips S WIN := by
  rw [← Backend.skipGap_ok_iff, fireProgress]
  generalize stream.machine.skipGap S WIN = x
  obtain _ | ⟨machine, e | outcome⟩ := x
  · exact ⟨fun ⟨_, _, h⟩ => (by cases h), fun ⟨_, _, h⟩ => (by cases h)⟩
  · exact ⟨fun ⟨_, _, h⟩ => (by cases h), fun ⟨_, _, h⟩ => (by cases h)⟩
  · refine ⟨fun _ => ⟨machine, outcome, rfl⟩, fun _ => ⟨_, _, congrArg some (Prod.ext rfl
      (Prod.ext rfl ?_))⟩⟩
    exact settle_written ..

end StreamState

namespace MultiReceiverState

variable {s s' s'' : MultiReceiverState σ REASM MAX_STREAMS} {source : Address}
variable {seq : SequenceCount} {flags : SequenceFlag} {payload : Bytes}

theorem hasRoom_reap
    (hpast : (s.streamOf S source).eosReached = true) :
    (s.reap source).HasRoom source ∧
      (s.reap source).streamOf S source = .new S REASM s.config source := by
  cases hget : s.streams.get source with
  | none =>
    rw [streamOf, hget] at hpast
    cases hpast
  | some stream =>
    rw [streamOf_of_get hget] at hpast
    have hreap : s.reap source = { s with streams := s.streams.remove source } := by
      rw [reap, hget]
      exact if_pos hpast
    rw [hreap]
    refine ⟨Or.inr ?_, ?_⟩
    · exact LinearMap.length_remove_lt (LinearMap.mem_of_get hget)
    · show ((s.streams.remove source).get source).getD _ = _
      rw [LinearMap.get_remove_self]
      rfl

/-- The call with outcome `x` does to the stream of `source` what `y` says, and nothing to
the other streams. -/
def ActsAs (source : Address) (s : MultiReceiverState σ REASM MAX_STREAMS)
    (x : Option (MultiReceiverState σ REASM MAX_STREAMS × Option AckPacket ×
      Except TransportError Unit))
    (y : Option (StreamState σ REASM × Option AckPacket × Except TransportError Unit)) : Prop :=
  match y with
  | none => x = none
  | some (stream', ack, res) =>
      ∃ s', x = some (s', ack, res) ∧ Frame source s s' ∧ s'.streams.get source = some stream'

theorem ActsAs.of_frame {x : Option (MultiReceiverState σ REASM MAX_STREAMS × Option AckPacket ×
      Except TransportError Unit)}
    {y : Option (StreamState σ REASM × Option AckPacket × Except TransportError Unit)}
    (hf : Frame source s s') (h : ActsAs source s' x y) : ActsAs source s x y := by
  cases y with
  | none => exact h
  | some r =>
    obtain ⟨s'', hx, hf', hget⟩ := h
    exact ⟨s'', hx, hf.trans hf', hget⟩

theorem get_modifyStream {stream : StreamState σ REASM}
    (h : s.streams.get source = some stream) (f : StreamState σ REASM → StreamState σ REASM) :
    (s.modifyStream source f).streams.get source = some (f stream) := by
  show (s.streams.modify source f).get source = _
  rw [LinearMap.get_modify_self, h, Option.map_some]

theorem actsAs_driveActions (now : Nat) (written : Bool) {stream : StreamState σ REASM}
    (h : s.streams.get source = some stream) (result : HandleResult) :
    ActsAs source s (some (s.driveActions now written source result))
      (some (stream.settle now written s.config s.ackDelay result)) := by
  have hframe := frame_driveActions now written s source result
  rw [driveActions] at hframe ⊢
  rw [StreamState.settle]
  by_cases hw : (result.ack.isSome && !written) = true
  · rw [if_pos hw] at hframe
    rw [if_pos hw, if_pos hw]
    exact ⟨s, rfl, hframe, h⟩
  · rw [if_neg hw] at hframe
    rw [if_neg hw, if_neg hw]
    exact ⟨_, rfl, hframe, get_modifyStream h _⟩

theorem actsAs_drive (S : Slots σ) (WIN : Nat) (hroom : s.HasRoom source) (now : Nat)
    (written : Bool) (seq : SequenceCount) (flags : SequenceFlag) (payload : Bytes) :
    ActsAs source s (s.drive S WIN now written source seq flags payload)
      ((s.streamOf S source).drive S WIN now written s.config s.ackDelay seq flags payload) := by
  have hopen : Frame source s (s.openStream S source) := frame_openStream
  have hget := get_openStream (S := S) hroom
  refine ActsAs.of_frame hopen ?_
  rw [← hopen.config, ← hopen.ackDelay]
  generalize hs₁ : s.openStream S source = s₁ at hget ⊢
  generalize s.streamOf S source = stream at hget ⊢
  simp only [drive, driveSegment, hs₁, hget, StreamState.drive]
  cases hcall : stream.machine.handleData S WIN seq flags payload with
  | none => rfl
  | some r =>
    obtain ⟨machine, e | outcome⟩ := r
    · exact ⟨_, rfl, frame_modifyStream _, get_modifyStream hget _⟩
    · exact ActsAs.of_frame (frame_modifyStream _)
        (actsAs_driveActions now written (get_modifyStream hget _) _)

theorem actsAs_processData (S : Slots σ) (WIN : Nat) {p : Incoming} (hp : p.source = some source)
    (hroom : s.HasRoom source) (now : Nat) (written : Bool) :
    ActsAs source s (s.processData S WIN now written p)
      ((s.streamOf S source).hear S WIN now written s.config s.ackDelay p) := by
  cases p with
  | data _ seq flags payload =>
    cases hp
    have hreap : Frame source s (s.reap source) := frame_reap
    have hrenewed : (s.reap source).HasRoom source ∧
        (s.reap source).streamOf S source =
          (s.streamOf S source).renewed S s.config source := by
      rw [StreamState.renewed]
      by_cases hpast : (s.streamOf S source).eosReached = true
      · rw [if_pos hpast]
        exact hasRoom_reap hpast
      · rw [if_neg hpast, reap_live (Bool.eq_false_iff.2 hpast)]
        exact ⟨hroom, rfl⟩
    refine ActsAs.of_frame hreap ?_
    have hdrive := actsAs_drive S WIN hrenewed.1 now written seq flags payload
    rw [hrenewed.2, hreap.config, hreap.ackDelay] at hdrive
    exact hdrive
  | eos _ seq flags =>
    cases hp
    have hrec : Frame source s ((s.openStream S source).modifyStream source (·.recordEos seq)) :=
      frame_openStream.trans (frame_modifyStream _)
    obtain ⟨hroom', hstream⟩ := streamOf_recordEos S seq hroom
    refine ActsAs.of_frame hrec ?_
    have hdrive := actsAs_drive S WIN hroom' now written seq flags []
    rw [hstream, hrec.config, hrec.ackDelay] at hdrive
    exact hdrive
  | other => cases hp

theorem actsAs_fireAck (now : Nat) (written : Bool) {stream : StreamState σ REASM}
    (h : s.streams.get source = some stream) :
    ActsAs source s (some (s.fireAck now written source))
      (some (stream.fireAck now written s.config s.ackDelay)) := by
  simp only [fireAck, h, StreamState.fireAck]
  exact ActsAs.of_frame (frame_modifyStream _)
    (actsAs_driveActions now written (get_modifyStream h _) _)

theorem actsAs_fireProgress (S : Slots σ) (WIN now : Nat) (written : Bool)
    {stream : StreamState σ REASM} (h : s.streams.get source = some stream) :
    ActsAs source s (s.fireProgress S WIN now written source)
      (stream.fireProgress S WIN now written s.config s.ackDelay) := by
  simp only [fireProgress, h, StreamState.fireProgress]
  cases hcall : stream.machine.skipGap S WIN with
  | none => rfl
  | some r =>
    obtain ⟨machine, e | outcome⟩ := r
    · exact ⟨_, rfl, frame_modifyStream _, get_modifyStream h _⟩
    · exact ActsAs.of_frame (frame_modifyStream _)
        (actsAs_driveActions now written (get_modifyStream h _) _)

/-! ## The walk over the timers -/

theorem mem_expired {deadlineOf : StreamState σ REASM → Option Nat} :
    source ∈ s.expired now deadlineOf ↔
      ∃ stream, s.streams.get source = some stream ∧
        StreamState.isPast now (deadlineOf stream) = true := by
  rw [expired, List.mem_map]
  constructor
  · rintro ⟨e, he, rfl⟩
    obtain ⟨hmem, hpast⟩ := List.mem_filter.1 he
    exact ⟨e.2, LinearMap.get_of_mem hmem, hpast⟩
  · rintro ⟨stream, hget, hpast⟩
    exact ⟨(source, stream), List.mem_filter.2 ⟨LinearMap.mem_of_get hget, hpast⟩, rfl⟩

theorem nodup_expired (now : Nat) (s : MultiReceiverState σ REASM MAX_STREAMS)
    (deadlineOf : StreamState σ REASM → Option Nat) : (s.expired now deadlineOf).Nodup :=
  s.streams.nodup.sublist ((List.filter_sublist).map Prod.fst)

/-- `s'` has the settings of `s`. -/
structure SameSettings (s s' : MultiReceiverState σ REASM MAX_STREAMS) : Prop where
  config : s'.config = s.config
  ackDelay : s'.ackDelay = s.ackDelay
  error : s'.error = s.error

section Walks

variable {f : MultiReceiverState σ REASM MAX_STREAMS → Address →
    Option (MultiReceiverState σ REASM MAX_STREAMS × Option AckPacket ×
      Except TransportError Unit)}
  {g : ReceiverConfig → Nat → StreamState σ REASM →
    Option (StreamState σ REASM × Option AckPacket × Except TransportError Unit)}
  (hf : ∀ s source stream, s.streams.get source = some stream →
    ActsAs source s (f s source) (g s.config s.ackDelay stream))

include hf

theorem forEach_ok {sources : List Address} (hnodup : sources.Nodup)
    (hok : ∀ k ∈ sources, ∃ stream, s.streams.get k = some stream ∧
      ∃ stream' ack, g s.config s.ackDelay stream = some (stream', ack, .ok ())) :
    ∃ s' acks, forEach f sources s = some (s', acks, .ok ()) ∧ SameSettings s s' ∧
      ∀ k, s'.streams.get k =
        if k ∈ sources then
          (s.streams.get k).bind fun stream =>
            StreamState.succeeded (g s.config s.ackDelay stream)
        else s.streams.get k := by
  induction sources generalizing s with
  | nil => exact ⟨s, [], rfl, ⟨rfl, rfl, rfl⟩, fun k => (if_neg List.not_mem_nil).symm⟩
  | cons source sources ih =>
    obtain ⟨hfresh, hnodup⟩ := List.nodup_cons.1 hnodup
    obtain ⟨stream, hget, stream', ack, hg⟩ := hok source List.mem_cons_self
    have hact := hf s source stream hget
    rw [hg] at hact
    obtain ⟨s₁, hfs, hframe, hget₁⟩ := hact
    have hne : ∀ k ∈ sources, k ≠ source := fun k hk he => hfresh (he ▸ hk)
    obtain ⟨s', acks, hrun, hset, hstreams⟩ := ih (s := s₁) hnodup (by
      intro k hk
      rw [hframe.others k (hne k hk), hframe.config, hframe.ackDelay]
      exact hok k (List.mem_cons_of_mem _ hk))
    refine ⟨s', ack.toList ++ acks, ?_, ⟨hset.config.trans hframe.config,
      hset.ackDelay.trans hframe.ackDelay, hset.error.trans hframe.error⟩, fun k => ?_⟩
    · rw [forEach, hfs]
      show (forEach f sources s₁).map _ = _
      rw [hrun]
      rfl
    · rw [hstreams k, hframe.config, hframe.ackDelay]
      by_cases hk : k = source
      · rw [hk, if_neg hfresh, if_pos List.mem_cons_self, hget₁, hget]
        show some stream' = StreamState.succeeded (g s.config s.ackDelay stream)
        rw [hg]
        rfl
      · rw [hframe.others k hk]
        by_cases hmem : k ∈ sources
        · rw [if_pos hmem, if_pos (List.mem_cons_of_mem _ hmem)]
        · rw [if_neg hmem, if_neg fun h => (List.mem_cons.1 h).elim hk hmem]

theorem walk_ok (now : Nat) (deadlineOf : StreamState σ REASM → Option Nat)
    (hok : ∀ source stream, s.streams.get source = some stream →
      StreamState.isPast now (deadlineOf stream) = true →
      ∃ stream' ack, g s.config s.ackDelay stream = some (stream', ack, .ok ())) :
    ∃ s' acks, forEach f (s.expired now deadlineOf) s = some (s', acks, .ok ()) ∧
      SameSettings s s' ∧
      ∀ k, s'.streams.get k = (s.streams.get k).bind fun stream =>
        if StreamState.isPast now (deadlineOf stream) then
          StreamState.succeeded (g s.config s.ackDelay stream)
        else some stream := by
  obtain ⟨s', acks, hrun, hset, hstreams⟩ := forEach_ok hf (nodup_expired now s deadlineOf)
    (fun k hk => by
      obtain ⟨stream, hget, hpast⟩ := mem_expired.1 hk
      exact ⟨stream, hget, hok k stream hget hpast⟩)
  refine ⟨s', acks, hrun, hset, fun k => ?_⟩
  rw [hstreams k]
  cases hget : s.streams.get k with
  | none => rw [Option.bind_none, Option.bind_none, ite_self]
  | some stream =>
    have hmem : k ∈ s.expired now deadlineOf ↔
        StreamState.isPast now (deadlineOf stream) = true := by
      rw [mem_expired, hget]
      exact ⟨fun ⟨_, h, hpast⟩ => Option.some.inj h ▸ hpast, fun hpast => ⟨stream, rfl, hpast⟩⟩
    show _ = if StreamState.isPast now (deadlineOf stream) then _ else _
    by_cases hpast : StreamState.isPast now (deadlineOf stream) = true
    · rw [if_pos (hmem.2 hpast), if_pos hpast]
      rfl
    · rw [if_neg fun h => hpast (hmem.1 h), if_neg hpast]

end Walks

theorem handleTimeouts_ok (S : Slots σ) (WIN now : Nat)
    (s : MultiReceiverState σ REASM MAX_STREAMS)
    (hskips : ∀ source stream, s.streams.get source = some stream →
      StreamState.isPast now stream.progressDeadline = true → stream.machine.Skips S WIN) :
    ∃ s' acks, s.handleTimeouts S WIN now (fun _ => true) = some (s', acks, .ok ()) ∧
      SameSettings s s' ∧
      ∀ k, s'.streams.get k =
        (s.streams.get k).bind (StreamState.timeouts S WIN now s.config s.ackDelay) := by
  obtain ⟨s₁, acks₁, hacks, hset₁, hget₁⟩ := walk_ok
    (f := fun s source => some (s.fireAck now true source))
    (g := fun config ackDelay stream => some (stream.fireAck now true config ackDelay))
    (fun s source stream h => actsAs_fireAck now true h) now StreamState.ackDeadline
    (fun source stream _ _ => by
      obtain ⟨stream', ack, hfire, -⟩ := StreamState.fireAck_ok now s.config s.ackDelay stream
      exact ⟨stream', ack, congrArg some hfire⟩)
  obtain ⟨s₂, acks₂, hgaps, hset₂, hget₂⟩ := walk_ok (s := s₁)
    (f := fun s source => s.fireProgress S WIN now true source)
    (g := fun config ackDelay stream => stream.fireProgress S WIN now true config ackDelay)
    (fun s source stream h => actsAs_fireProgress S WIN now true h) now
    StreamState.progressDeadline
    (fun source stream₁ hget hpast => by
      rw [StreamState.fireProgress_ok_iff]
      rw [hget₁] at hget
      obtain ⟨stream, hstream, htimeout⟩ := Option.bind_eq_some_iff.1 hget
      have hack : stream.ackTimeout now s.config s.ackDelay = some stream₁ := htimeout
      obtain ⟨hmachine, hprogress⟩ := StreamState.ackTimeout_some now s.config s.ackDelay hack
      rw [hprogress] at hpast
      rw [hmachine]
      exact hskips source stream hstream hpast)
  refine ⟨s₂, acks₁ ++ acks₂, ?_, ⟨hset₂.config.trans hset₁.config,
    hset₂.ackDelay.trans hset₁.ackDelay, hset₂.error.trans hset₁.error⟩, fun k => ?_⟩
  · rw [handleTimeouts, hacks]
    show (forEach _ _ s₁).map _ = _
    rw [hgaps]
    rfl
  · rw [hget₂, hget₁, Option.bind_assoc, hset₁.config, hset₁.ackDelay]
    rfl

end MultiReceiverState

end Cfs
end Srspp
end Leodos
