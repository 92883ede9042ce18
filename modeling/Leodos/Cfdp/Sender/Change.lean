/-
What one event can do to a transaction of the sending machine.

An event other than a `PutRequest` concerns one transaction.  `Change` lists what it
does to the entry of that transaction and what the driver gets to execute, one
constructor for each way through the handlers; `change_handle` says that the list is
complete.  The invariants of runs are proved by cases on `Change`.
-/
import Leodos.Cfdp.Sender.Machine

namespace Leodos
namespace Cfdp
namespace Sender

open Spp Container

def Action.transactionId : Action → TransactionId
  | .sendMetadata t _ _ _ _ _ | .sendFileData t _ _ _ | .sendEof t _ _ _ _ | .sendAck t _ _ _ _
  | .sendPrompt t _ _ | .readDataSegment t _ _ | .readDataSegmentBatch t _ | .startTimer t _ _
  | .stopTimer t _ | .terminateTransaction t _ | .calculateChecksum t _ | .notifyFault t _
  | .notifySuspended t | .notifyResumed t _ => t

def Event.transactionId? : Event → Option TransactionId
  | .putRequest .. => none
  | .promptRequest t _ | .suspendRequest t | .resumeRequest t | .pduReceived t _
  | .timerExpired t _ | .dataSegmentReady t _ _ | .checksumReady t _ => some t

/-- The action that follows a segment which ends at `progress`. -/
def continueAt (t : TransactionId) (config : TransactionConfig) (progress : Nat) : Action :=
  if progress ≥ config.fileSize then .calculateChecksum t config.checksumType
  else SenderMachine.readNext t progress

def eofActions (t : TransactionId) (config : TransactionConfig) (seconds : Nat)
    (checksum : UInt32) : List Action :=
  [.sendEof t config.destinationId .noError config.fileSize checksum, .startTimer t .ack seconds]

/-- What is left of the entry `tr` of `t` after an event, and what is to be executed. -/
inductive Change (t : TransactionId) (tr : Transaction) :
    Event → Option Transaction → List Action → Prop where
  | prompt (ty : PromptType) {l : List Action} :
      (l = [] ∨ l = [.sendPrompt t tr.config.destinationId ty]) →
      Change t tr (.promptRequest t ty) (some tr) l
  | suspended : tr.suspended = true → Change t tr (.suspendRequest t) (some tr) []
  | suspend : tr.suspended = false →
      Change t tr (.suspendRequest t) (some { tr with suspended := true })
        [.stopTimer t none, .notifySuspended t]
  | running : tr.suspended = false → Change t tr (.resumeRequest t) (some tr) []
  | resumeSending : tr.suspended = true → tr.state = .sendingFileData →
      Change t tr (.resumeRequest t) (some { tr with suspended := false })
        [SenderMachine.readNext t tr.progress, .notifyResumed t tr.progress]
  | resumeEof (seconds : Nat) (checksum : UInt32) : tr.suspended = true →
      tr.state = .waitingForEofAck → tr.fileChecksum = some checksum →
      Change t tr (.resumeRequest t)
        (some { tr with suspended := false, state := .waitingForEofAck })
        (eofActions t tr.config seconds checksum ++ [.notifyResumed t tr.progress])
  | resumeFails : tr.suspended = true → tr.state = .waitingForEofAck → tr.fileChecksum = none →
      Change t tr (.resumeRequest t) (some { tr with suspended := false }) []
  | resumeFinished (seconds : Nat) : tr.suspended = true → tr.state = .waitingForFinishedPdu →
      Change t tr (.resumeRequest t) (some { tr with suspended := false })
        [.startTimer t .inactivity seconds, .notifyResumed t tr.progress]
  | resumeChecksum : tr.suspended = true → tr.state = .waitingForChecksum →
      Change t tr (.resumeRequest t) (some { tr with suspended := false })
        [.calculateChecksum t tr.config.checksumType, .notifyResumed t tr.progress]
  | ignored (pdu : Pdu) : Change t tr (.pduReceived t pdu) (some tr) []
  | finished (pdu : Pdu) (c : ConditionCode) : tr.state = .waitingForFinishedPdu →
      Change t tr (.pduReceived t pdu) none
        [.stopTimer t none, .sendAck t tr.config.destinationId .finished c .terminated,
          .terminateTransaction t c]
  | acked (pdu : Pdu) : tr.state = .waitingForEofAck →
      Change t tr (.pduReceived t pdu) (some { tr with state := .waitingForFinishedPdu })
        [.stopTimer t (some .ack), .startTimer t .inactivity tr.config.inactivityTimeoutSecs]
  | nak (pdu : Pdu) (v : NakPdu) : pdu.variant = .ok (.nak v) → tr.suspended = false →
      Change t tr (.pduReceived t pdu) (some tr)
        [.stopTimer t (some .ack), .readDataSegmentBatch t v.segmentRequests]
  | keepAlive (pdu : Pdu) (progress : Nat) :
      Change t tr (.pduReceived t pdu) (some { tr with lastReceiverProgress := progress }) []
  | keepAliveFault (pdu : Pdu) :
      Change t tr (.pduReceived t pdu) none [.terminateTransaction t .keepAliveLimitReached]
  | dropped (data : Bytes) (offset : Nat) : tr.suspended = true →
      Change t tr (.dataSegmentReady t data offset) (some tr) []
  | data (data : Bytes) (offset : Nat) : tr.suspended = false →
      Change t tr (.dataSegmentReady t data offset)
        (some { tr with progress := wrappingAdd offset data.length })
        [.sendFileData t tr.config.destinationId offset data,
          continueAt t tr.config (wrappingAdd offset data.length)]
  | checksum (seconds : Nat) (c : UInt32) :
      Change t tr (.checksumReady t c)
        (some { tr with fileChecksum := some c, state := .waitingForEofAck })
        (eofActions t tr.config seconds c)
  | ackFault : tr.ackLimit ≤ tr.ackRetries →
      Change t tr (.timerExpired t .ack) none [.terminateTransaction t .ackLimitReached]
  | ackRetry (seconds : Nat) (c : UInt32) : tr.ackRetries < tr.ackLimit →
      tr.state = .waitingForEofAck → tr.fileChecksum = some c →
      Change t tr (.timerExpired t .ack)
        (some { tr with ackRetries := tr.ackRetries + 1, state := .waitingForEofAck })
        (eofActions t tr.config seconds c)
  | ackIdle : tr.ackRetries < tr.ackLimit →
      tr.state ≠ .waitingForEofAck ∨ tr.fileChecksum = none →
      Change t tr (.timerExpired t .ack) (some { tr with ackRetries := tr.ackRetries + 1 }) []
  | inactive : tr.state ≠ .waitingForFinishedPdu →
      Change t tr (.timerExpired t .inactivity) (some tr) []
  | inactivityFault : tr.state = .waitingForFinishedPdu →
      Change t tr (.timerExpired t .inactivity) none [.terminateTransaction t .inactivityDetected]
  | otherTimer (ty : TimerType) : ty ≠ .ack → ty ≠ .inactivity →
      Change t tr (.timerExpired t ty) (some tr) []

theorem Change.config {t : TransactionId} {tr tr' : Transaction} {e : Event} {l : List Action}
    (h : Change t tr e (some tr') l) : tr'.config = tr.config := by
  cases h <;> rfl

theorem transactionId_continueAt (t : TransactionId) (config : TransactionConfig) (p : Nat) :
    (continueAt t config p).transactionId = t := by
  unfold continueAt
  split_ifs <;> rfl

theorem Change.about {t : TransactionId} {tr : Transaction} {e : Event} {o : Option Transaction}
    {l : List Action} (h : Change t tr e o l) : ∀ a ∈ l, a.transactionId = t := by
  cases h with
  | prompt ty hl => rcases hl with rfl | rfl <;> simp [Action.transactionId]
  | data data offset hsus =>
    intro a ha
    rcases List.mem_cons.1 ha with rfl | ha
    · rfl
    · rw [List.mem_singleton.1 ha]
      exact transactionId_continueAt _ _ _
  | _ => simp [eofActions, SenderMachine.readNext, Action.transactionId]

/-! ## Entries -/

/-- An entry carries its own key, and every fault cancels it. -/
structure Proper (t : TransactionId) (tr : Transaction) : Prop where
  key : tr.config.transactionId = t
  cancels : tr.config.faultHandlers = FaultHandlerSet.default

namespace SenderMachine

def Proper (m : SenderMachine) : Prop :=
  ∀ t tr, m.transactions.get t = some tr → Sender.Proper t tr

theorem proper_new (id : EntityId) (ackTimeoutSecs keepAliveLimit : Nat) :
    (new id ackTimeoutSecs keepAliveLimit).Proper := by
  intro t tr h
  rw [new, LinearMap.get_new] at h
  cases h

@[simp] theorem get_update_self (m : SenderMachine) (t : TransactionId)
    (f : Transaction → Transaction) :
    (m.update t f).transactions.get t = (m.transactions.get t).map f :=
  LinearMap.get_modify_self _ _ _

theorem get_update_of_ne (m : SenderMachine) {t t' : TransactionId} (hne : t' ≠ t)
    (f : Transaction → Transaction) :
    (m.update t f).transactions.get t' = m.transactions.get t' :=
  LinearMap.get_modify_of_ne _ hne _

/-- Only the entry of `t` may differ. -/
structure Frame (m : SenderMachine) (t : TransactionId) (m' : SenderMachine) : Prop where
  others : ∀ t', t' ≠ t → m'.transactions.get t' = m.transactions.get t'
  nextId : m'.nextId = m.nextId

theorem Frame.refl (m : SenderMachine) (t : TransactionId) : m.Frame t m := ⟨fun _ _ => rfl, rfl⟩

theorem Frame.trans {m m' m'' : SenderMachine} {t : TransactionId} (h : m.Frame t m')
    (h' : m'.Frame t m'') : m.Frame t m'' :=
  ⟨fun t' hne => (h'.others t' hne).trans (h.others t' hne), h'.nextId.trans h.nextId⟩

theorem frame_update (m : SenderMachine) (t : TransactionId) (f : Transaction → Transaction) :
    m.Frame t (m.update t f) :=
  ⟨fun _ hne => get_update_of_ne m hne f, rfl⟩

/-- What an event of `t` does to the machine, given the entry `tr` of `t`. -/
structure Effect (m : SenderMachine) (t : TransactionId) (tr : Transaction) (e : Event)
    (o : Step) : Prop where
  frame : m.Frame t o.machine
  change : Change t tr e (o.machine.transactions.get t) o.delivered

section

variable {m : SenderMachine} {t : TransactionId} {tr : Transaction} {e : Event}

theorem Effect.keep (hget : m.transactions.get t = some tr) {l : List Action}
    {r : Except CfdpError Unit}
    (h : Change t tr e (some tr) (⟨m, l, r⟩ : Step).delivered) : Effect m t tr e ⟨m, l, r⟩ :=
  ⟨Frame.refl m t, by rw [hget]; exact h⟩

theorem Effect.write (hget : m.transactions.get t = some tr) {f : Transaction → Transaction}
    {l : List Action} {r : Except CfdpError Unit}
    (h : Change t tr e (some (f tr)) (⟨m.update t f, l, r⟩ : Step).delivered) :
    Effect m t tr e ⟨m.update t f, l, r⟩ :=
  ⟨frame_update m t f, by rw [get_update_self, hget]; exact h⟩

theorem sendEof_eq (hget : m.transactions.get t = some tr) (c : UInt32) :
    m.sendEof t c = .ok (m.update t fun tr => { tr with state := .waitingForEofAck })
      (eofActions t tr.config m.ackTimeoutSecs c) := by
  unfold sendEof
  rw [hget]
  rfl

theorem Effect.writeEof (hget : m.transactions.get t = some tr) {f : Transaction → Transaction}
    (hf : (f tr).config = tr.config) {c : UInt32} {after : List Action}
    (h : Change t tr e (some { f tr with state := .waitingForEofAck })
      (eofActions t tr.config m.ackTimeoutSecs c ++ after)) :
    Effect m t tr e (.ok ((m.update t f).sendEof t c).machine
      (((m.update t f).sendEof t c).actions ++ after)) := by
  have hget' : (m.update t f).transactions.get t = some (f tr) := by
    rw [get_update_self, hget]
    rfl
  rw [sendEof_eq hget', hf]
  refine ⟨(frame_update m t f).trans (frame_update _ t _), ?_⟩
  rw [Outcome.ok_machine, Outcome.ok_machine, get_update_self, hget']
  exact h

theorem sendEof_ok (hget : m.transactions.get t = some tr) {f : Transaction → Transaction}
    (c : UInt32) : (m.update t f).sendEof t c =
      .ok ((m.update t f).sendEof t c).machine (((m.update t f).sendEof t c).actions ++ []) := by
  have hget' : (m.update t f).transactions.get t = some (f tr) := by
    rw [get_update_self, hget]
    rfl
  rw [sendEof_eq hget', List.append_nil]
  rfl

theorem terminate_eq (hp : Sender.Proper t tr) (hget : m.transactions.get t = some tr)
    (c : ConditionCode) :
    m.handleTerminate t c = .ok { m with transactions := m.transactions.remove t }
      [.terminateTransaction t c] := by
  unfold handleTerminate
  rw [hget, ← hp.key]

theorem fault_eq (hp : Sender.Proper t tr) (hget : m.transactions.get t = some tr)
    (c : ConditionCode) : m.handleFault t c = m.handleTerminate t c := by
  unfold handleFault
  rw [hget]
  dsimp only
  rw [hp.cancels, FaultHandlerSet.getHandler_default]

theorem Effect.terminate (hp : Sender.Proper t tr) (hget : m.transactions.get t = some tr)
    {c : ConditionCode} {l : List Action}
    (h : Change t tr e none (l ++ [.terminateTransaction t c])) :
    Effect m t tr e ((m.handleTerminate t c).after l) := by
  rw [terminate_eq hp hget]
  refine ⟨⟨fun t' hne => LinearMap.get_remove_of_ne _ hne, rfl⟩, ?_⟩
  rw [Outcome.after_machine, Outcome.ok_machine, LinearMap.get_remove_self]
  exact h

theorem Effect.writeFault (hp : Sender.Proper t tr) (hget : m.transactions.get t = some tr)
    {f : Transaction → Transaction} (hf : (f tr).config = tr.config) {c : ConditionCode}
    (h : Change t tr e none [.terminateTransaction t c]) :
    Effect m t tr e ((m.update t f).handleFault t c) := by
  have hget' : (m.update t f).transactions.get t = some (f tr) := by
    rw [get_update_self, hget]
    rfl
  have hp' : Sender.Proper t (f tr) := ⟨by rw [hf]; exact hp.key, by rw [hf]; exact hp.cancels⟩
  rw [fault_eq hp' hget', terminate_eq hp' hget']
  refine ⟨(frame_update m t f).trans ⟨fun t' hne => LinearMap.get_remove_of_ne _ hne, rfl⟩, ?_⟩
  rw [Outcome.ok_machine, LinearMap.get_remove_self]
  exact h

/-! ## The handlers -/

theorem effect_prompt (hget : m.transactions.get t = some tr) (ty : PromptType) :
    Effect m t tr (.promptRequest t ty) (m.handlePrompt t ty) := by
  cases ty with
  | nak =>
    dsimp only [handlePrompt, handlePromptNak]
    rw [hget]
    dsimp only
    by_cases hstate : tr.state ≠ .sendingFileData
    · rw [if_pos hstate]
      exact Effect.keep hget (.prompt _ (Or.inl rfl))
    · rw [if_neg hstate]
      exact Effect.keep hget (.prompt _ (Or.inr rfl))
  | keepAlive =>
    dsimp only [handlePrompt, handlePromptKeepAlive]
    rw [hget]
    dsimp only
    by_cases hask : tr.state = .sendingFileData ∧ (!tr.suspended) = true
    · rw [if_pos hask]
      exact Effect.keep hget (.prompt _ (Or.inr rfl))
    · rw [if_neg hask]
      exact Effect.keep hget (.prompt _ (Or.inl rfl))

theorem effect_suspend (hget : m.transactions.get t = some tr) :
    Effect m t tr (.suspendRequest t) (m.handleSuspend t) := by
  unfold handleSuspend
  rw [hget]
  dsimp only
  cases hsus : tr.suspended with
  | true => exact Effect.keep hget (.suspended hsus)
  | false => exact Effect.write hget (.suspend hsus)

theorem effect_resume (hget : m.transactions.get t = some tr) :
    Effect m t tr (.resumeRequest t) (m.handleResume t) := by
  unfold handleResume
  rw [hget]
  dsimp only
  cases hsus : tr.suspended with
  | false => exact Effect.keep hget (.running hsus)
  | true =>
    cases hstate : tr.state with
    | sendingFileData => exact Effect.write hget (.resumeSending hsus hstate)
    | waitingForChecksum => exact Effect.write hget (.resumeChecksum hsus hstate)
    | waitingForFinishedPdu => exact Effect.write hget (.resumeFinished _ hsus hstate)
    | waitingForEofAck =>
      cases hsum : tr.fileChecksum with
      | none => exact Effect.write hget (.resumeFails hsus hstate hsum)
      | some c => exact Effect.writeEof hget rfl (.resumeEof _ c hsus hstate hsum)

theorem effect_data (hget : m.transactions.get t = some tr) (data : Bytes) (offset : Nat) :
    Effect m t tr (.dataSegmentReady t data offset) (m.handleDataSegmentReady t offset data) := by
  unfold handleDataSegmentReady
  rw [hget]
  dsimp only
  cases hsus : tr.suspended with
  | true => exact Effect.keep hget (.dropped data offset hsus)
  | false => exact Effect.write hget (.data data offset hsus)

theorem effect_checksum (hget : m.transactions.get t = some tr) (c : UInt32) :
    Effect m t tr (.checksumReady t c) (m.handleChecksum t c) := by
  unfold handleChecksum
  rw [hget]
  dsimp only
  rw [sendEof_ok hget]
  refine Effect.writeEof hget rfl ?_
  rw [List.append_nil]
  exact .checksum _ c

theorem effect_ackExpired (hp : Sender.Proper t tr) (hget : m.transactions.get t = some tr) :
    Effect m t tr (.timerExpired t .ack) (m.handleTimerExpired t .ack) := by
  unfold handleTimerExpired
  rw [hget]
  dsimp only
  by_cases hlim : tr.ackRetries ≥ tr.ackLimit
  · rw [if_pos hlim]
    exact Effect.terminate hp hget (l := []) (.ackFault hlim)
  · rw [if_neg hlim]
    have hlt : tr.ackRetries < tr.ackLimit := Nat.lt_of_not_le hlim
    by_cases hstate : tr.state ≠ .waitingForEofAck
    · rw [if_pos hstate]
      exact Effect.write hget (.ackIdle hlt (Or.inl hstate))
    · rw [if_neg hstate]
      cases hsum : tr.fileChecksum with
      | none => exact Effect.write hget (.ackIdle hlt (Or.inr hsum))
      | some c =>
        dsimp only
        rw [sendEof_ok hget]
        refine Effect.writeEof hget rfl ?_
        rw [List.append_nil]
        exact .ackRetry _ c hlt (not_not.1 hstate) hsum

theorem effect_timerExpired (hp : Sender.Proper t tr) (hget : m.transactions.get t = some tr)
    (ty : TimerType) : Effect m t tr (.timerExpired t ty) (m.handleTimerExpired t ty) := by
  cases ty with
  | ack => exact effect_ackExpired hp hget
  | inactivity =>
    unfold handleTimerExpired
    rw [hget]
    dsimp only
    by_cases hstate : tr.state ≠ .waitingForFinishedPdu
    · rw [if_pos hstate]
      exact Effect.keep hget (.inactive hstate)
    · rw [if_neg hstate, fault_eq hp hget]
      exact Effect.terminate hp hget (l := []) (.inactivityFault (not_not.1 hstate))
  | nak => exact Effect.keep hget (.otherTimer .nak (by decide) (by decide))
  | keepAlive => exact Effect.keep hget (.otherTimer .keepAlive (by decide) (by decide))

theorem effect_finished (hp : Sender.Proper t tr) (hget : m.transactions.get t = some tr)
    (pdu : Pdu) (fin : FinishedPdu) :
    Effect m t tr (.pduReceived t pdu) (m.handleFinished t fin) := by
  unfold handleFinished
  rw [hget]
  dsimp only
  by_cases hstate : tr.state ≠ .waitingForFinishedPdu
  · rw [if_pos hstate]
    exact Effect.keep hget (.ignored pdu)
  · rw [if_neg hstate]
    refine Outcome.attempt_rule (fun e => Effect.keep hget (.ignored pdu)) fun c _ => ?_
    exact Effect.terminate hp hget (.finished pdu c (not_not.1 hstate))

theorem effect_ack (hget : m.transactions.get t = some tr) (pdu : Pdu) (ack : AckPdu) :
    Effect m t tr (.pduReceived t pdu) (m.handleAck t ack) := by
  unfold handleAck
  rw [hget]
  refine Outcome.attempt_rule (fun e => Effect.keep hget (.ignored pdu)) fun code _ => ?_
  cases hstate : tr.state with
  | waitingForEofAck =>
    cases code with
    | eof => exact Effect.write hget (.acked pdu hstate)
    | finished => exact Effect.keep hget (.ignored pdu)
  | _ => exact Effect.keep hget (.ignored pdu)

theorem effect_keepAlive (hp : Sender.Proper t tr) (hget : m.transactions.get t = some tr)
    (pdu : Pdu) (keepalive : KeepAlivePdu) :
    Effect m t tr (.pduReceived t pdu) (m.handleKeepAlive t keepalive) := by
  unfold handleKeepAlive
  rw [hget]
  dsimp only
  split_ifs
  · exact Effect.writeFault hp hget rfl (.keepAliveFault pdu)
  · exact Effect.write hget (.keepAlive pdu _)

theorem effect_pduReceived (hp : Sender.Proper t tr) (hget : m.transactions.get t = some tr)
    (pdu : Pdu) : Effect m t tr (.pduReceived t pdu) (m.handlePduReceived t pdu) := by
  unfold handlePduReceived
  rw [hget]
  refine Outcome.attempt_rule (fun e => Effect.keep hget (.ignored pdu)) fun variant hv => ?_
  cases variant with
  | finished v => exact effect_finished hp hget pdu v
  | ack v => exact effect_ack hget pdu v
  | nak v =>
    cases hsus : tr.suspended with
    | true => exact Effect.keep hget (.ignored pdu)
    | false =>
      dsimp only [handleNak]
      rw [hget]
      exact Effect.keep hget (.nak pdu v hv hsus)
  | keepAlive v =>
    cases hsus : tr.suspended with
    | true => exact Effect.keep hget (.ignored pdu)
    | false => exact effect_keepAlive hp hget pdu v
  | _ => exact Effect.keep hget (.ignored pdu)

theorem effect_handle (hp : m.Proper) (hget : m.transactions.get t = some tr)
    (he : e.transactionId? = some t) : Effect m t tr e (m.handle e) := by
  have hpt := hp t tr hget
  cases e with
  | putRequest => cases he
  | promptRequest t' ty =>
    cases he
    exact effect_prompt hget ty
  | suspendRequest t' =>
    cases he
    exact effect_suspend hget
  | resumeRequest t' =>
    cases he
    exact effect_resume hget
  | pduReceived t' pdu =>
    cases he
    exact effect_pduReceived hpt hget pdu
  | timerExpired t' ty =>
    cases he
    exact effect_timerExpired hpt hget ty
  | dataSegmentReady t' data offset =>
    cases he
    exact effect_data hget data offset
  | checksumReady t' c =>
    cases he
    exact effect_checksum hget c

theorem handle_absent (hget : m.transactions.get t = none) (he : e.transactionId? = some t) :
    m.handle e = .ok m [] := by
  cases e with
  | putRequest => cases he
  | promptRequest t' ty =>
    cases he
    cases ty <;> simp [handle, handlePrompt, handlePromptNak, handlePromptKeepAlive, hget]
  | timerExpired t' ty =>
    cases he
    cases ty <;> simp [handle, handleTimerExpired, hget]
  | _ =>
    cases he
    simp [handle, handleSuspend, handleResume, handlePduReceived, handleDataSegmentReady,
      handleChecksum, hget]

end

/-! ## All events -/

/-- The transaction that an event is about; a `PutRequest` is about the next one. -/
def target (m : SenderMachine) (e : Event) : TransactionId := e.transactionId?.getD m.nextId

/-- A `PutRequest` registers its transaction or leaves the entries alone. -/
theorem putRequest_cases (m : SenderMachine) (source destination : FileId)
    (destinationId : EntityId) (fileSize : UInt64) (checksumType : ChecksumType) :
    ((∀ t, (m.handlePutRequest destinationId source destination fileSize
          checksumType).machine.transactions.get t = m.transactions.get t) ∧
        (m.handlePutRequest destinationId source destination fileSize
          checksumType).delivered = []) ∨
      ((m.handlePutRequest destinationId source destination fileSize
          checksumType).machine.transactions.get m.nextId =
          some (m.newTransaction destinationId source destination fileSize checksumType) ∧
        (∀ t, t ≠ m.nextId → (m.handlePutRequest destinationId source destination fileSize
          checksumType).machine.transactions.get t = m.transactions.get t) ∧
        (m.handlePutRequest destinationId source destination fileSize checksumType).delivered =
          [.sendMetadata m.nextId destinationId 0 source destination checksumType,
            .readDataSegment m.nextId 0 FILE_DATA_CHUNK_SIZE]) := by
  unfold handlePutRequest
  by_cases hroom : m.transactions.containsKey m.nextId = true ∨
      m.transactions.entries.length < MAX_CONCURRENT_TRANSACTIONS
  · refine Or.inr ?_
    dsimp only
    rw [if_pos hroom]
    exact ⟨LinearMap.get_insert_self _ _ hroom,
      fun t hne => LinearMap.get_insert_of_ne _ hne _, rfl⟩
  · refine Or.inl ?_
    dsimp only
    rw [if_neg hroom]
    exact ⟨fun _ => rfl, rfl⟩

theorem handle_others {m : SenderMachine} (hp : m.Proper) (e : Event) {t : TransactionId}
    (hne : t ≠ m.target e) : (m.handle e).machine.transactions.get t = m.transactions.get t := by
  cases he : e.transactionId? with
  | none =>
    cases e with
    | putRequest source destination destinationId fileSize checksumType =>
      rcases putRequest_cases m source destination destinationId fileSize checksumType with
        ⟨hall, -⟩ | ⟨-, hrest, -⟩
      · exact hall t
      · exact hrest t hne
    | _ => cases he
  | some t' =>
    rw [target, he, Option.getD_some] at hne
    cases hget : m.transactions.get t' with
    | none => rw [handle_absent hget he, Outcome.ok_machine]
    | some tr => exact (effect_handle hp hget he).frame.others t hne

theorem handle_about {m : SenderMachine} (hp : m.Proper) (e : Event) :
    ∀ a ∈ (m.handle e).delivered, a.transactionId = m.target e := by
  cases he : e.transactionId? with
  | none =>
    cases e with
    | putRequest source destination destinationId fileSize checksumType =>
      intro a ha
      rcases putRequest_cases m source destination destinationId fileSize checksumType with
        ⟨-, hnil⟩ | ⟨-, -, hlist⟩
      · rw [handle, hnil] at ha
        cases ha
      · rw [handle, hlist] at ha
        rcases List.mem_cons.1 ha with rfl | ha
        · rfl
        · rw [List.mem_singleton.1 ha]
          rfl
    | _ => cases he
  | some t' =>
    rw [target, he, Option.getD_some]
    cases hget : m.transactions.get t' with
    | none =>
      rw [handle_absent hget he, Outcome.delivered_ok]
      exact fun a ha => absurd ha List.not_mem_nil
    | some tr => exact (effect_handle hp hget he).change.about

theorem handle_proper {m : SenderMachine} (hp : m.Proper) (e : Event) :
    (m.handle e).machine.Proper := by
  intro t tr' h
  by_cases hne : t ≠ m.target e
  · rw [handle_others hp e hne] at h
    exact hp t tr' h
  · have ht : t = m.target e := not_not.1 hne
    cases he : e.transactionId? with
    | none =>
      cases e with
      | putRequest source destination destinationId fileSize checksumType =>
        rcases putRequest_cases m source destination destinationId fileSize checksumType with
          ⟨hall, -⟩ | ⟨hnew, -, -⟩
        · rw [handle, hall] at h
          exact hp t tr' h
        · rw [ht] at h ⊢
          cases Option.some.inj (hnew.symm.trans h)
          exact ⟨rfl, rfl⟩
      | _ => cases he
    | some t' =>
      rw [target, he, Option.getD_some] at ht
      subst ht
      cases hget : m.transactions.get t with
      | none =>
        rw [handle_absent hget he, Outcome.ok_machine, hget] at h
        cases h
      | some tr =>
        have hchange := (effect_handle hp hget he).change
        rw [h] at hchange
        have hpt := hp t tr hget
        exact ⟨by rw [hchange.config]; exact hpt.key, by rw [hchange.config]; exact hpt.cancels⟩

end SenderMachine

end Sender
end Cfdp
end Leodos
