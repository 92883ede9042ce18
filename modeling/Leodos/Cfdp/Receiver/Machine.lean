/-
The receiving machine of CFDP class 2, `class2/machine/receiver`.
-/
import Leodos.Cfdp.Tracking
import Leodos.Cfdp.Transaction

namespace Leodos
namespace Cfdp
namespace Receiver

open Spp Container

structure FilestoreRequest where
  action : FilestoreAction
  firstFileName : FileId
  secondFileName : Option FileId
  deriving DecidableEq

structure FilestoreResponse where
  action : FilestoreAction
  firstFileName : FileId
  secondFileName : FileId
  deriving DecidableEq

inductive TransactionState where
  | receivingFileData
  | waitingForNakData
  | verifyingChecksum
  | waitingForFilestoreResponses
  deriving DecidableEq, Repr

structure Transaction where
  tracker : SegmentTracker
  config : TransactionConfig
  filestoreRequests : List FilestoreRequest
  progress : Nat
  nakTimeoutSecs : Nat
  keepAliveIntervalSecs : Nat
  state : TransactionState
  nakRetries : Nat
  nakLimit : Nat
  suspended : Bool
  deriving DecidableEq

inductive Event where
  | pduReceived (transactionId : TransactionId) (pdu : Pdu)
  | timerExpired (transactionId : TransactionId) (timerType : TimerType)
  | fileDataWritten (transactionId : TransactionId) (offset len : Nat)
  | checksumVerified (transactionId : TransactionId) (isValid : Bool)
  | suspendRequest (transactionId : TransactionId)
  | resumeRequest (transactionId : TransactionId)
  | filestoreResponsesReceived (transactionId : TransactionId) (responses : List FilestoreResponse)

def Event.transactionId : Event → TransactionId
  | pduReceived t _ | timerExpired t _ | fileDataWritten t _ _ | checksumVerified t _
  | suspendRequest t | resumeRequest t | filestoreResponsesReceived t _ => t

inductive Action where
  | sendAck (transactionId : TransactionId) (destinationId : EntityId)
      (directiveCode : DirectiveCode) (conditionCode : ConditionCode)
      (transactionStatus : TransactionStatus)
  | sendFinished (filestoreResponses : List FilestoreResponse) (transactionId : TransactionId)
      (destinationId : EntityId) (conditionCode : ConditionCode)
  | sendNak (transactionId : TransactionId) (destinationId : EntityId)
      (startOfScope endOfScope : Nat)
  | sendKeepAlive (transactionId : TransactionId) (destinationId : EntityId) (progress : Nat)
  | writeFileData (transactionId : TransactionId) (data : Bytes) (offset : Nat)
  | startTimer (transactionId : TransactionId) (seconds : Nat) (timerType : TimerType)
  | stopTimer (transactionId : TransactionId) (timerType : Option TimerType)
  | terminateTransaction (transactionId : TransactionId) (conditionCode : ConditionCode)
  | notifyFileReceived (transactionId : TransactionId) (fileSize : Nat) (fileName : FileId)
  | verifyChecksum (transactionId : TransactionId) (expectedChecksum : UInt32)
      (checksumType : ChecksumType)
  | notifyFault (transactionId : TransactionId) (conditionCode : ConditionCode)
  | notifySuspended (transactionId : TransactionId)
  | notifyResumed (transactionId : TransactionId) (progress : Nat)
  | executeFilestoreRequests (requests : List FilestoreRequest) (transactionId : TransactionId)
  deriving DecidableEq

def Action.transactionId : Action → TransactionId
  | sendAck t _ _ _ _ | sendFinished _ t _ _ | sendNak t _ _ _ | sendKeepAlive t _ _
  | writeFileData t _ _ | startTimer t _ _ | stopTimer t _ | terminateTransaction t _
  | notifyFileReceived t _ _ | verifyChecksum t _ _ | notifyFault t _ | notifySuspended t
  | notifyResumed t _ | executeFilestoreRequests _ t => t

structure ReceiverMachine where
  transactions : LinearMap TransactionId Transaction MAX_CONCURRENT_TRANSACTIONS
  id : EntityId

namespace ReceiverMachine

def new (id : EntityId) : ReceiverMachine := ⟨LinearMap.new _ _ _, id⟩

/-- Change the entry of `t` in place. -/
def update (m : ReceiverMachine) (t : TransactionId) (f : Transaction → Transaction) :
    ReceiverMachine :=
  { m with transactions := m.transactions.modify t f }

abbrev Step := Outcome ReceiverMachine Action

/-! ## Termination and faults -/

def terminateTransaction (m : ReceiverMachine) (t : TransactionId)
    (conditionCode : ConditionCode) : Step :=
  match m.transactions.get t with
  | none => .ok m []
  | some transaction =>
      .ok { m with transactions := m.transactions.remove t }
        [.terminateTransaction transaction.config.transactionId conditionCode]

def handleSuspendRequest (m : ReceiverMachine) (t : TransactionId) : Step :=
  match m.transactions.get t with
  | none => .ok m []
  | some transaction =>
      if transaction.suspended then .ok m []
      else .ok (m.update t fun tr => { tr with suspended := true })
        [.stopTimer t none, .notifySuspended t]

def handleFault (m : ReceiverMachine) (t : TransactionId) (conditionCode : ConditionCode) : Step :=
  match m.transactions.get t with
  | none => .ok m []
  | some transaction =>
      match transaction.config.faultHandlers.getHandler conditionCode with
      | .cancel => m.terminateTransaction t conditionCode
      | .ignore => .ok m [.notifyFault t conditionCode]
      | .suspend => m.handleSuspendRequest t
      | .abandon => m.terminateTransaction t conditionCode

/-! ## Timers -/

def sendNak (m : ReceiverMachine) (t : TransactionId) : Step :=
  match m.transactions.get t with
  | none => .ok m []
  | some transaction =>
      .ok (m.update t fun tr => { tr with state := .waitingForNakData })
        [.sendNak t transaction.config.transactionId.sourceId 0 transaction.config.fileSize,
          .startTimer transaction.config.transactionId transaction.nakTimeoutSecs .nak]

def handleNakTimeout (m : ReceiverMachine) (t : TransactionId) : Step :=
  match m.transactions.get t with
  | none => .ok m []
  | some transaction =>
      if transaction.nakRetries ≥ transaction.nakLimit then m.handleFault t .nakLimitReached
      else (m.update t fun tr => { tr with nakRetries := tr.nakRetries + 1 }).sendNak t

def handleInactivity (m : ReceiverMachine) (t : TransactionId) : Step :=
  m.handleFault t .keepAliveLimitReached

/-- The keep-alive timer, unless its interval turns it off. -/
def startKeepAlive (t : TransactionId) (transaction : Transaction) : List Action :=
  if transaction.keepAliveIntervalSecs ≠ 0 then
    [.startTimer t transaction.keepAliveIntervalSecs .keepAlive]
  else []

def handleTimerExpired (m : ReceiverMachine) (timerType : TimerType) (t : TransactionId) : Step :=
  match timerType with
  | .nak => m.handleNakTimeout t
  | .inactivity => m.handleInactivity t
  | .ack => .ok m []
  | .keepAlive =>
      match m.transactions.get t with
      | none => .ok m []
      | some transaction =>
          .ok m (.sendKeepAlive t transaction.config.transactionId.sourceId transaction.progress ::
            startKeepAlive t transaction)

def handleResumeRequest (m : ReceiverMachine) (t : TransactionId) : Step :=
  match m.transactions.get t with
  | none => .ok m []
  | some transaction =>
      let timers : List Action := match transaction.state with
        | .waitingForNakData =>
            [.startTimer t transaction.nakTimeoutSecs .nak,
              .startTimer t transaction.config.inactivityTimeoutSecs .inactivity]
        | .receivingFileData =>
            startKeepAlive t transaction ++
              [.startTimer t transaction.config.inactivityTimeoutSecs .inactivity]
        | _ => []
      .ok (m.update t fun tr => { tr with suspended := false })
        (timers ++ [.notifyResumed t transaction.progress])

/-! ## Completion -/

/-- Report the file, answer the sender and terminate. -/
def finish (m : ReceiverMachine) (t : TransactionId) (transaction : Transaction)
    (responses : List FilestoreResponse) : Step :=
  (m.terminateTransaction t .noError).after
    [.notifyFileReceived t transaction.config.fileSize transaction.config.destinationFileId,
      .sendAck t transaction.config.transactionId.sourceId .eof .noError .active,
      .sendFinished responses t transaction.config.transactionId.sourceId .noError]

def handleFilestoreResponses (m : ReceiverMachine) (t : TransactionId)
    (responses : List FilestoreResponse) : Step :=
  match m.transactions.get t with
  | none => .ok m []
  | some transaction =>
      if transaction.state ≠ .waitingForFilestoreResponses then .ok m []
      else m.finish t transaction responses

def handleChecksumVerified (m : ReceiverMachine) (t : TransactionId) (isValid : Bool) : Step :=
  match m.transactions.get t with
  | none => .ok m []
  | some transaction =>
      if transaction.state ≠ .verifyingChecksum then .ok m []
      else if !isValid then m.handleFault t .fileChecksumFailure
      else if transaction.filestoreRequests ≠ [] then
        .ok (m.update t fun tr => { tr with state := .waitingForFilestoreResponses })
          [.executeFilestoreRequests transaction.filestoreRequests t]
      else m.finish t transaction []

/-! ## File data -/

def handleFileDataWritten (m : ReceiverMachine) (t : TransactionId) (offset len : Nat) : Step :=
  match m.transactions.get t with
  | none => .ok m []
  | some _ =>
      .ok (m.update t fun tr =>
        { tr with
          progress := wrappingAdd offset len
          tracker := tr.tracker.addSegment offset len }) []

def handleFileData (m : ReceiverMachine) (t : TransactionId) (largeFileFlag : Bool)
    (fileData : FileDataPdu) : Step :=
  match m.transactions.get t with
  | none => .ok m []
  | some transaction =>
      let stopped : List Action := [.stopTimer t (some .inactivity)]
      .attempt m stopped (fileData.fileData largeFileFlag) fun data =>
      .attempt m stopped (fileData.offset largeFileFlag) fun offset =>
      .ok m (stopped ++ [.writeFileData t data offset] ++
        if !transaction.suspended then
          [.startTimer t transaction.config.inactivityTimeoutSecs .inactivity]
        else [])

def handleEof (m : ReceiverMachine) (t : TransactionId) (pdu : Pdu) (eof : EofPdu) : Step :=
  .attempt m [] eof.conditionCode fun conditionCode =>
  match m.transactions.get t with
  | none =>
      .attempt m [] pdu.sourceEntityId fun source =>
      .ok m [.sendAck t source .eof conditionCode .active]
  | some transaction =>
      let acked : List Action :=
        [.stopTimer t (some .inactivity),
          .sendAck t transaction.config.transactionId.sourceId .eof conditionCode .active]
      match conditionCode with
      | .noError =>
          if transaction.tracker.isComplete then
            .ok (m.update t fun tr => { tr with state := .verifyingChecksum })
              (acked ++ [.verifyChecksum t eof.fileChecksum transaction.config.checksumType])
          else (m.sendNak t).after acked
      | _ => (m.handleFault t conditionCode).after acked

/-! ## Creation -/

def createTransaction (m : ReceiverMachine) (store : FileStore) (t : TransactionId)
    (sourceFileName destinationFileName : Bytes) (fileSize : Nat) (checksumType : ChecksumType)
    (faultHandlers : FaultHandlerSet) : Except CfdpError ReceiverMachine := do
  let sourceFileId ← store.intern sourceFileName
  let destinationFileId ← store.intern destinationFileName
  let config : TransactionConfig :=
    { transactionId := t
      destinationId := m.id
      sourceFileId := sourceFileId
      destinationFileId := destinationFileId
      fileSize := fileSize
      inactivityTimeoutSecs := 30
      checksumType := checksumType
      faultHandlers := faultHandlers }
  let transaction : Transaction :=
    { config := config
      state := .receivingFileData
      suspended := false
      progress := 0
      tracker := SegmentTracker.new fileSize
      nakRetries := 0
      nakLimit := 0
      nakTimeoutSecs := 10
      keepAliveIntervalSecs := 60
      filestoreRequests := [] }
  if m.transactions.containsKey t ∨
      m.transactions.entries.length < MAX_CONCURRENT_TRANSACTIONS then
    return { m with transactions := m.transactions.insert t transaction }
  else throw (.custom "Too many concurrent transactions")

def readRequest (store : FileStore) (tlv : Tlv) : Except CfdpError FilestoreRequest := do
  let req ← TlvFilestoreRequest.fromTlv tlv
  let id1 ← store.intern (← req.firstFileName)
  -- the second name is interned before the action is read, but fails only after it
  let id2 := (← req.secondFileName).map store.intern
  let action ← req.action
  match id2 with
  | none => return ⟨action, id1, none⟩
  | some interned => return ⟨action, id1, some (← interned)⟩

def pushRequest (store : FileStore) (requests : List FilestoreRequest) (tlv : Tlv) :
    Except CfdpError (List FilestoreRequest) := do
  let request ← readRequest store tlv
  if requests.length < 4 then return requests ++ [request]
  else throw (.custom "Too many filestore requests in Metadata PDU")

def readRequests (store : FileStore) (pdu : MetadataPdu) (largeFileFlag : Bool) :
    Except CfdpError (List FilestoreRequest) := do
  (← pdu.filestoreRequests largeFileFlag).foldlM (pushRequest store) []

/-- The requests are read after the transaction is registered, so a failure there
leaves it registered. -/
def handleMetadata (m : ReceiverMachine) (store : FileStore) (t : TransactionId)
    (pdu : MetadataPdu) (largeFileFlag : Bool) : Step :=
  if m.transactions.containsKey t then .ok m []
  else
    .attempt m [] (pdu.variableFields largeFileFlag) fun names =>
    .attempt m [] (pdu.fileSize largeFileFlag) fun fileSize =>
    .attempt m [] pdu.checksumType fun checksumType =>
    .attempt m [] (pdu.faultHandlerOverrides largeFileFlag) fun faultHandlers =>
    .attempt m [] (m.createTransaction store t names.1 names.2.1 fileSize checksumType
      faultHandlers) fun m =>
    match m.transactions.get t with
    | none => .ok m []
    | some transaction =>
        .attempt m [] (readRequests store pdu largeFileFlag) fun requests =>
        .ok (m.update t fun tr => { tr with filestoreRequests := requests })
          (startKeepAlive t transaction ++ [.startTimer t 30 .inactivity])

/-! ## Dispatch -/

def handlePduReceived (m : ReceiverMachine) (store : FileStore) (t : TransactionId) (pdu : Pdu) :
    Step :=
  match m.transactions.get t with
  | some transaction =>
      .attempt m [] pdu.variant fun
        | .fileData data => m.handleFileData t pdu.largeFileFlag data
        | .eof eof => m.handleEof t pdu eof
        | .prompt prompt =>
            if !transaction.suspended && prompt.promptResponse = .keepAlive then
              .ok m [.sendKeepAlive t transaction.config.transactionId.sourceId
                transaction.progress]
            else .ok m []
        | _ => .ok m []
  | none =>
      .attempt m [] pdu.variant fun
        | .metadata metadata => m.handleMetadata store t metadata pdu.largeFileFlag
        | .eof eof =>
            .attempt m [] pdu.sourceEntityId fun source =>
            .attempt m [] eof.conditionCode fun conditionCode =>
            .ok m [.sendAck t source .eof conditionCode .unrecognized]
        | _ => .ok m []

def handle (m : ReceiverMachine) (store : FileStore) : Event → Step
  | .pduReceived t pdu => m.handlePduReceived store t pdu
  | .fileDataWritten t offset len => m.handleFileDataWritten t offset len
  | .timerExpired t timerType => m.handleTimerExpired timerType t
  | .checksumVerified t isValid => m.handleChecksumVerified t isValid
  | .suspendRequest t => m.handleSuspendRequest t
  | .resumeRequest t => m.handleResumeRequest t
  | .filestoreResponsesReceived t responses => m.handleFilestoreResponses t responses

/-! ## The buffer of actions -/

section

variable (m : ReceiverMachine) (t : TransactionId)

theorem short_terminate (c : ConditionCode) : (m.terminateTransaction t c).Short 1 := by
  unfold terminateTransaction
  cases m.transactions.get t <;> exact Outcome.short_ok (by simp)

theorem short_suspend : (m.handleSuspendRequest t).Short 2 := by
  unfold handleSuspendRequest
  cases m.transactions.get t with
  | none => exact Outcome.short_ok (by simp)
  | some tr =>
    dsimp only
    split_ifs <;> exact Outcome.short_ok (by simp)

theorem short_fault (c : ConditionCode) : (m.handleFault t c).Short 2 := by
  unfold handleFault
  cases m.transactions.get t with
  | none => exact Outcome.short_ok (by simp)
  | some tr =>
    dsimp only
    cases tr.config.faultHandlers.getHandler c with
    | cancel => exact (short_terminate m t c).mono (by decide)
    | abandon => exact (short_terminate m t c).mono (by decide)
    | suspend => exact short_suspend m t
    | ignore => exact Outcome.short_ok (by simp)

theorem short_sendNak : (m.sendNak t).Short 2 := by
  unfold sendNak
  cases m.transactions.get t <;> exact Outcome.short_ok (by simp)

theorem length_startKeepAlive_le (tr : Transaction) : (startKeepAlive t tr).length ≤ 1 := by
  unfold startKeepAlive
  split_ifs <;> simp

theorem short_timerExpired (timerType : TimerType) :
    (m.handleTimerExpired timerType t).Short 2 := by
  unfold handleTimerExpired
  cases timerType with
  | nak =>
    dsimp only [handleNakTimeout]
    cases m.transactions.get t with
    | none => exact Outcome.short_ok (by simp)
    | some tr =>
      dsimp only
      split_ifs
      · exact short_fault m t _
      · exact short_sendNak _ t
  | inactivity => exact short_fault m t _
  | ack => exact Outcome.short_ok (by simp)
  | keepAlive =>
    dsimp only
    cases m.transactions.get t with
    | none => exact Outcome.short_ok (by simp)
    | some tr => exact Outcome.short_ok (Nat.succ_le_succ (length_startKeepAlive_le t tr))

theorem short_resume : (m.handleResumeRequest t).Short 3 := by
  unfold handleResumeRequest
  cases m.transactions.get t with
  | none => exact Outcome.short_ok (by simp)
  | some tr =>
    have hkeep := length_startKeepAlive_le t tr
    refine Outcome.short_ok ?_
    rw [List.length_append]
    cases tr.state with
    | receivingFileData =>
      dsimp only
      rw [List.length_append]
      exact Nat.add_le_add_right (Nat.add_le_add_right hkeep 1) 1
    | _ => simp

theorem short_finish (tr : Transaction) (responses : List FilestoreResponse) :
    (m.finish t tr responses).Short 4 :=
  (short_terminate m t .noError).after (by simp)

theorem short_fileData (largeFileFlag : Bool) (fileData : FileDataPdu) :
    (m.handleFileData t largeFileFlag fileData).Short 3 := by
  unfold handleFileData
  cases m.transactions.get t with
  | none => exact Outcome.short_ok (by simp)
  | some tr =>
    refine Outcome.short_attempt (by simp) fun data => ?_
    refine Outcome.short_attempt (by simp) fun offset => Outcome.short_ok ?_
    split_ifs <;> simp

theorem short_eof (pdu : Pdu) (eof : EofPdu) : (m.handleEof t pdu eof).Short 4 := by
  unfold handleEof
  refine Outcome.short_attempt (by simp) fun conditionCode => ?_
  cases m.transactions.get t with
  | none => exact Outcome.short_attempt (by simp) fun source => Outcome.short_ok (by simp)
  | some tr =>
    cases conditionCode with
    | noError =>
      dsimp only
      split_ifs
      · exact Outcome.short_ok (by simp)
      · exact (short_sendNak m t).after (by simp)
    | _ => exact (short_fault m t _).after (by simp)

theorem short_metadata (store : FileStore) (pdu : MetadataPdu) (largeFileFlag : Bool) :
    (m.handleMetadata store t pdu largeFileFlag).Short 2 := by
  unfold handleMetadata
  split_ifs
  · exact Outcome.short_ok (by simp)
  · refine Outcome.short_attempt (by simp) fun names => ?_
    refine Outcome.short_attempt (by simp) fun fileSize => ?_
    refine Outcome.short_attempt (by simp) fun checksumType => ?_
    refine Outcome.short_attempt (by simp) fun faultHandlers => ?_
    refine Outcome.short_attempt (by simp) fun m' => ?_
    cases m'.transactions.get t with
    | none => exact Outcome.short_ok (by simp)
    | some tr =>
      refine Outcome.short_attempt (by simp) fun requests => Outcome.short_ok ?_
      rw [List.length_append]
      exact Nat.add_le_add_right (length_startKeepAlive_le t tr) 1

theorem short_pduReceived (store : FileStore) (pdu : Pdu) :
    (m.handlePduReceived store t pdu).Short 4 := by
  unfold handlePduReceived
  cases m.transactions.get t with
  | some tr =>
    refine Outcome.short_attempt (by simp) fun variant => ?_
    cases variant with
    | fileData data => exact (short_fileData m t _ data).mono (by decide)
    | eof eof => exact short_eof m t pdu eof
    | prompt prompt =>
      dsimp only
      split_ifs <;> exact Outcome.short_ok (by simp)
    | _ => exact Outcome.short_ok (by simp)
  | none =>
    refine Outcome.short_attempt (by simp) fun variant => ?_
    cases variant with
    | metadata metadata => exact (short_metadata m t store metadata _).mono (by decide)
    | eof eof =>
      refine Outcome.short_attempt (by simp) fun source => ?_
      exact Outcome.short_attempt (by simp) fun conditionCode => Outcome.short_ok (by simp)
    | _ => exact Outcome.short_ok (by simp)

theorem short_checksumVerified (isValid : Bool) :
    (m.handleChecksumVerified t isValid).Short 4 := by
  unfold handleChecksumVerified
  cases m.transactions.get t with
  | none => exact Outcome.short_ok (by simp)
  | some tr =>
    dsimp only
    split_ifs
    · exact Outcome.short_ok (by simp)
    · exact (short_fault m t _).mono (by decide)
    · exact Outcome.short_ok (by simp)
    · exact short_finish m t tr []

theorem short_filestoreResponses (responses : List FilestoreResponse) :
    (m.handleFilestoreResponses t responses).Short 4 := by
  unfold handleFilestoreResponses
  cases m.transactions.get t with
  | none => exact Outcome.short_ok (by simp)
  | some tr =>
    dsimp only
    split_ifs
    · exact Outcome.short_ok (by simp)
    · exact short_finish m t tr responses

end

/-- No event fills the buffer, so no push fails. -/
theorem receiver_actions_fit (m : ReceiverMachine) (store : FileStore) (e : Event) :
    (m.handle store e).Short MAX_ACTIONS_PER_EVENT := by
  cases e with
  | pduReceived t pdu => exact (short_pduReceived m t store pdu).mono (by decide)
  | timerExpired t timerType => exact (short_timerExpired m t timerType).mono (by decide)
  | fileDataWritten t offset len =>
    dsimp only [handle, handleFileDataWritten]
    cases m.transactions.get t <;> exact Outcome.short_ok (by simp)
  | checksumVerified t isValid => exact (short_checksumVerified m t isValid).mono (by decide)
  | suspendRequest t => exact (short_suspend m t).mono (by decide)
  | resumeRequest t => exact (short_resume m t).mono (by decide)
  | filestoreResponsesReceived t responses =>
    exact (short_filestoreResponses m t responses).mono (by decide)

end ReceiverMachine

end Receiver
end Cfdp
end Leodos
