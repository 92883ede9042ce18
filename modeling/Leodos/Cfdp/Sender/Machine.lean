/-
The sending machine of CFDP class 2, `class2/machine/sender`.
-/
import Leodos.Cfdp.Transaction
import Mathlib.Tactic.SplitIfs

namespace Leodos
namespace Cfdp
namespace Sender

open Spp Container

inductive TransactionState where
  | sendingFileData
  | waitingForChecksum
  | waitingForEofAck
  | waitingForFinishedPdu
  deriving DecidableEq, Repr

structure Transaction where
  config : TransactionConfig
  progress : Nat
  lastReceiverProgress : Nat
  keepAliveLimit : Nat
  fileChecksum : Option UInt32
  ackLimit : Nat
  state : TransactionState
  suspended : Bool
  ackRetries : Nat
  deriving DecidableEq

inductive Event where
  | putRequest (sourceFileName destinationFileName : FileId) (destinationId : EntityId)
      (fileSize : UInt64) (checksumType : ChecksumType)
  | promptRequest (transactionId : TransactionId) (promptType : PromptType)
  | suspendRequest (transactionId : TransactionId)
  | resumeRequest (transactionId : TransactionId)
  | pduReceived (transactionId : TransactionId) (pdu : Pdu)
  | timerExpired (transactionId : TransactionId) (timerType : TimerType)
  | dataSegmentReady (transactionId : TransactionId) (data : Bytes) (offset : Nat)
  | checksumReady (transactionId : TransactionId) (checksum : UInt32)

inductive Action where
  | sendMetadata (transactionId : TransactionId) (destinationId : EntityId) (fileSize : Nat)
      (sourceFileName destinationFileName : FileId) (checksumType : ChecksumType)
  | sendFileData (transactionId : TransactionId) (destinationId : EntityId) (offset : Nat)
      (data : Bytes)
  | sendEof (transactionId : TransactionId) (destinationId : EntityId)
      (conditionCode : ConditionCode) (fileSize : Nat) (checksum : UInt32)
  | sendAck (transactionId : TransactionId) (destinationId : EntityId)
      (ackedDirectiveCode : AckedDirectiveCode) (conditionCode : ConditionCode)
      (transactionStatus : TransactionStatus)
  | sendPrompt (transactionId : TransactionId) (destinationId : EntityId)
      (promptType : PromptType)
  | readDataSegment (transactionId : TransactionId) (startOffset endOffset : Nat)
  | readDataSegmentBatch (transactionId : TransactionId) (segments : List NakSegmentRequest)
  | startTimer (transactionId : TransactionId) (timerType : TimerType) (seconds : Nat)
  | stopTimer (transactionId : TransactionId) (timerType : Option TimerType)
  | terminateTransaction (transactionId : TransactionId) (conditionCode : ConditionCode)
  | calculateChecksum (transactionId : TransactionId) (checksumType : ChecksumType)
  | notifyFault (transactionId : TransactionId) (conditionCode : ConditionCode)
  | notifySuspended (transactionId : TransactionId)
  | notifyResumed (transactionId : TransactionId) (progress : Nat)
  deriving DecidableEq

structure SenderMachine where
  transactions : LinearMap TransactionId Transaction MAX_CONCURRENT_TRANSACTIONS
  nextSeqNum : TransactionSeqNum
  id : EntityId
  keepAliveLimit : Nat
  ackTimeoutSecs : Nat

namespace SenderMachine

def new (id : EntityId) (ackTimeoutSecs keepAliveLimit : Nat) : SenderMachine :=
  ⟨LinearMap.new _ _ _, 0, id, keepAliveLimit, ackTimeoutSecs⟩

/-- Change the entry of `t` in place. -/
def update (m : SenderMachine) (t : TransactionId) (f : Transaction → Transaction) :
    SenderMachine :=
  { m with transactions := m.transactions.modify t f }

abbrev Step := Outcome SenderMachine Action

/-! ## Creation -/

def nextId (m : SenderMachine) : TransactionId := ⟨m.id, m.nextSeqNum⟩

def newTransaction (m : SenderMachine) (destinationId : EntityId)
    (sourceFileId destinationFileId : FileId) (fileSize : UInt64) (checksumType : ChecksumType) :
    Transaction :=
  { config :=
      { transactionId := m.nextId
        destinationId := destinationId
        sourceFileId := sourceFileId
        destinationFileId := destinationFileId
        fileSize := fileSize.toNat
        inactivityTimeoutSecs := 30
        checksumType := checksumType
        faultHandlers := FaultHandlerSet.default }
    state := .sendingFileData
    suspended := false
    progress := 0
    ackRetries := 0
    fileChecksum := none
    lastReceiverProgress := 0
    ackLimit := 5
    keepAliveLimit := m.keepAliveLimit }

/-- The sequence number is used up even when there is no room. -/
def handlePutRequest (m : SenderMachine) (destinationId : EntityId)
    (sourceFileName destinationFileName : FileId) (fileSize : UInt64)
    (checksumType : ChecksumType) : Step :=
  let t := m.nextId
  let transaction := m.newTransaction destinationId sourceFileName destinationFileName fileSize
    checksumType
  let m := { m with nextSeqNum := m.nextSeqNum + 1 }
  if m.transactions.containsKey t ∨
      m.transactions.entries.length < MAX_CONCURRENT_TRANSACTIONS then
    .ok { m with transactions := m.transactions.insert t transaction }
      [.sendMetadata t destinationId 0 sourceFileName destinationFileName checksumType,
        .readDataSegment t 0 FILE_DATA_CHUNK_SIZE]
  else ⟨m, [], .error .tooManyConcurrentTransactions⟩

/-! ## Termination and faults -/

def handleTerminate (m : SenderMachine) (t : TransactionId) (condition : ConditionCode) : Step :=
  match m.transactions.get t with
  | none => .ok m []
  | some transaction =>
      .ok { m with transactions := m.transactions.remove t }
        [.terminateTransaction transaction.config.transactionId condition]

def handleSuspend (m : SenderMachine) (t : TransactionId) : Step :=
  match m.transactions.get t with
  | none => .ok m []
  | some transaction =>
      if transaction.suspended then .ok m []
      else .ok (m.update t fun tr => { tr with suspended := true })
        [.stopTimer t none, .notifySuspended t]

def handleFault (m : SenderMachine) (t : TransactionId) (conditionCode : ConditionCode) : Step :=
  match m.transactions.get t with
  | none => .ok m []
  | some transaction =>
      match transaction.config.faultHandlers.getHandler conditionCode with
      | .cancel => m.handleTerminate t conditionCode
      | .ignore => .ok m [.notifyFault t conditionCode]
      | .suspend => m.handleSuspend t
      | .abandon => m.handleTerminate t conditionCode

/-! ## File data -/

/-- The read of the chunk at `progress`. -/
def readNext (t : TransactionId) (progress : Nat) : Action :=
  .readDataSegment t progress (wrappingAdd progress FILE_DATA_CHUNK_SIZE)

/-- Whatever the segment is, the stream goes on from its end. -/
def handleDataSegmentReady (m : SenderMachine) (t : TransactionId) (offset : Nat) (data : Bytes) :
    Step :=
  match m.transactions.get t with
  | none => .ok m []
  | some transaction =>
      if transaction.suspended then .ok m []
      else
        let progress := wrappingAdd offset data.length
        .ok (m.update t fun tr => { tr with progress := progress })
          [.sendFileData t transaction.config.destinationId offset data,
            if progress ≥ transaction.config.fileSize then
              .calculateChecksum t transaction.config.checksumType
            else readNext t progress]

def sendEof (m : SenderMachine) (t : TransactionId) (checksum : UInt32) : Step :=
  match m.transactions.get t with
  | none => .ok m []
  | some transaction =>
      .ok (m.update t fun tr => { tr with state := .waitingForEofAck })
        [.sendEof t transaction.config.destinationId .noError transaction.config.fileSize checksum,
          .startTimer t .ack m.ackTimeoutSecs]

def handleChecksum (m : SenderMachine) (t : TransactionId) (checksum : UInt32) : Step :=
  match m.transactions.get t with
  | none => .ok m []
  | some _ => (m.update t fun tr => { tr with fileChecksum := some checksum }).sendEof t checksum

/-! ## Timers -/

def handleTimerExpired (m : SenderMachine) (t : TransactionId) (timerType : TimerType) : Step :=
  match timerType with
  | .ack =>
      match m.transactions.get t with
      | none => .ok m []
      | some transaction =>
          if transaction.ackRetries ≥ transaction.ackLimit then m.handleTerminate t .ackLimitReached
          else
            let m := m.update t fun tr => { tr with ackRetries := tr.ackRetries + 1 }
            if transaction.state ≠ .waitingForEofAck then .ok m []
            else
              match transaction.fileChecksum with
              | none => ⟨m, [], .error (.custom "Checksum not calculated")⟩
              | some checksum => m.sendEof t checksum
  | .inactivity =>
      match m.transactions.get t with
      | none => .ok m []
      | some transaction =>
          if transaction.state ≠ .waitingForFinishedPdu then .ok m []
          else m.handleFault t .inactivityDetected
  | .nak => .ok m []
  | .keepAlive => .ok m []

/-! ## User requests -/

def handlePromptNak (m : SenderMachine) (t : TransactionId) : Step :=
  match m.transactions.get t with
  | none => .ok m []
  | some transaction =>
      if transaction.state ≠ .sendingFileData then .ok m []
      else .ok m [.sendPrompt t transaction.config.destinationId .nak]

def handlePromptKeepAlive (m : SenderMachine) (t : TransactionId) : Step :=
  match m.transactions.get t with
  | none => .ok m []
  | some transaction =>
      if transaction.state = .sendingFileData ∧ !transaction.suspended then
        .ok m [.sendPrompt t transaction.config.destinationId .keepAlive]
      else .ok m []

def handlePrompt (m : SenderMachine) (t : TransactionId) : PromptType → Step
  | .nak => m.handlePromptNak t
  | .keepAlive => m.handlePromptKeepAlive t

def handleResume (m : SenderMachine) (t : TransactionId) : Step :=
  match m.transactions.get t with
  | none => .ok m []
  | some transaction =>
      if !transaction.suspended then .ok m []
      else
        let m := m.update t fun tr => { tr with suspended := false }
        let resumed : List Action := [.notifyResumed t transaction.progress]
        match transaction.state with
        | .sendingFileData => .ok m (readNext t transaction.progress :: resumed)
        | .waitingForEofAck =>
            match transaction.fileChecksum with
            | none => ⟨m, [], .error (.custom "Checksum missing on resume")⟩
            | some checksum =>
                .ok (m.sendEof t checksum).machine ((m.sendEof t checksum).actions ++ resumed)
        | .waitingForFinishedPdu =>
            .ok m (.startTimer t .inactivity transaction.config.inactivityTimeoutSecs :: resumed)
        | .waitingForChecksum =>
            .ok m (.calculateChecksum t transaction.config.checksumType :: resumed)

/-! ## Received PDUs -/

def handleFinished (m : SenderMachine) (t : TransactionId) (fin : FinishedPdu) : Step :=
  match m.transactions.get t with
  | none => .ok m []
  | some transaction =>
      if transaction.state ≠ .waitingForFinishedPdu then
        ⟨m, [], .error (.custom "Received Finished PDU in unexpected transaction state")⟩
      else
        let stopped : List Action := [.stopTimer t none]
        .attempt m stopped fin.conditionCode fun conditionCode =>
        (m.handleTerminate t conditionCode).after (stopped ++
          [.sendAck t transaction.config.destinationId .finished conditionCode .terminated])

def handleAck (m : SenderMachine) (t : TransactionId) (ack : AckPdu) : Step :=
  match m.transactions.get t with
  | none => .ok m []
  | some transaction =>
      .attempt m [] ack.ackedDirectiveCode fun code =>
      match transaction.state, code with
      | .waitingForEofAck, .eof =>
          .ok (m.update t fun tr => { tr with state := .waitingForFinishedPdu })
            [.stopTimer t (some .ack),
              .startTimer t .inactivity transaction.config.inactivityTimeoutSecs]
      | _, _ => .ok m []

/-- The acknowledgement timer stops in every state, also for a NAK without requests. -/
def handleNak (m : SenderMachine) (t : TransactionId) (nak : NakPdu) : Step :=
  match m.transactions.get t with
  | none => .ok m []
  | some _ => .ok m [.stopTimer t (some .ack), .readDataSegmentBatch t nak.segmentRequests]

def handleKeepAlive (m : SenderMachine) (t : TransactionId) (keepalive : KeepAlivePdu) : Step :=
  match m.transactions.get t with
  | none => .ok m []
  | some transaction =>
      let lastReceiverProgress := max transaction.lastReceiverProgress keepalive.progress
      let m := m.update t fun tr => { tr with lastReceiverProgress := lastReceiverProgress }
      if transaction.progress - lastReceiverProgress > transaction.keepAliveLimit then
        m.handleFault t .keepAliveLimitReached
      else .ok m []

def handlePduReceived (m : SenderMachine) (t : TransactionId) (pdu : Pdu) : Step :=
  match m.transactions.get t with
  | none => .ok m []
  | some transaction =>
      .attempt m [] pdu.variant fun
        | .finished v => m.handleFinished t v
        | .ack v => m.handleAck t v
        | .nak v => if !transaction.suspended then m.handleNak t v else .ok m []
        | .keepAlive v => if !transaction.suspended then m.handleKeepAlive t v else .ok m []
        | _ => .ok m []

def handle (m : SenderMachine) : Event → Step
  | .putRequest sourceFileName destinationFileName destinationId fileSize checksumType =>
      m.handlePutRequest destinationId sourceFileName destinationFileName fileSize checksumType
  | .dataSegmentReady t data offset => m.handleDataSegmentReady t offset data
  | .checksumReady t checksum => m.handleChecksum t checksum
  | .pduReceived t pdu => m.handlePduReceived t pdu
  | .timerExpired t timerType => m.handleTimerExpired t timerType
  | .promptRequest t promptType => m.handlePrompt t promptType
  | .suspendRequest t => m.handleSuspend t
  | .resumeRequest t => m.handleResume t

/-! ## The buffer of actions -/

section

variable (m : SenderMachine) (t : TransactionId)

theorem short_terminate (c : ConditionCode) : (m.handleTerminate t c).Short 1 := by
  unfold handleTerminate
  cases m.transactions.get t <;> exact Outcome.short_ok (by simp)

theorem short_suspend : (m.handleSuspend t).Short 2 := by
  unfold handleSuspend
  cases m.transactions.get t with
  | none => exact Outcome.short_ok (by simp)
  | some tr =>
    dsimp only
    split_ifs <;> exact Outcome.short_ok (by simp)

theorem short_fault (c : ConditionCode) : (m.handleFault t c).Short 2 := by
  unfold handleFault
  cases m.transactions.get t with
  | none => exact Outcome.short_ok (by simp)
  | some tr =>
    dsimp only
    cases tr.config.faultHandlers.getHandler c with
    | cancel => exact (short_terminate m t c).mono (by decide)
    | abandon => exact (short_terminate m t c).mono (by decide)
    | suspend => exact short_suspend m t
    | ignore => exact Outcome.short_ok (by simp)

theorem short_putRequest (dest : EntityId) (src dst : FileId) (size : UInt64)
    (checksumType : ChecksumType) :
    (m.handlePutRequest dest src dst size checksumType).Short 2 := by
  unfold handlePutRequest
  dsimp only
  split_ifs
  · exact Outcome.short_ok (by simp)
  · exact Nat.zero_le 2

theorem short_dataSegmentReady (offset : Nat) (data : Bytes) :
    (m.handleDataSegmentReady t offset data).Short 2 := by
  unfold handleDataSegmentReady
  cases m.transactions.get t with
  | none => exact Outcome.short_ok (by simp)
  | some tr =>
    dsimp only
    split_ifs <;> exact Outcome.short_ok (by simp)

theorem short_sendEof (checksum : UInt32) : (m.sendEof t checksum).Short 2 := by
  unfold sendEof
  cases m.transactions.get t <;> exact Outcome.short_ok (by simp)

theorem short_checksum (checksum : UInt32) : (m.handleChecksum t checksum).Short 2 := by
  unfold handleChecksum
  cases m.transactions.get t with
  | none => exact Outcome.short_ok (by simp)
  | some tr => exact short_sendEof _ t checksum

theorem short_timerExpired (timerType : TimerType) :
    (m.handleTimerExpired t timerType).Short 2 := by
  unfold handleTimerExpired
  cases timerType with
  | ack =>
    dsimp only
    cases m.transactions.get t with
    | none => exact Outcome.short_ok (by simp)
    | some tr =>
      dsimp only
      split_ifs
      · exact (short_terminate m t _).mono (by decide)
      · exact Outcome.short_ok (by simp)
      · cases tr.fileChecksum with
        | none => exact Nat.zero_le 2
        | some checksum => exact short_sendEof _ t checksum
  | inactivity =>
    dsimp only
    cases m.transactions.get t with
    | none => exact Outcome.short_ok (by simp)
    | some tr =>
      dsimp only
      split_ifs
      · exact Outcome.short_ok (by simp)
      · exact short_fault m t _
  | nak => exact Outcome.short_ok (by simp)
  | keepAlive => exact Outcome.short_ok (by simp)

theorem short_prompt (promptType : PromptType) : (m.handlePrompt t promptType).Short 1 := by
  cases promptType with
  | nak =>
    dsimp only [handlePrompt, handlePromptNak]
    cases m.transactions.get t with
    | none => exact Outcome.short_ok (by simp)
    | some tr =>
      dsimp only
      split_ifs <;> exact Outcome.short_ok (by simp)
  | keepAlive =>
    dsimp only [handlePrompt, handlePromptKeepAlive]
    cases m.transactions.get t with
    | none => exact Outcome.short_ok (by simp)
    | some tr =>
      dsimp only
      split_ifs <;> exact Outcome.short_ok (by simp)

theorem short_resume : (m.handleResume t).Short 3 := by
  unfold handleResume
  cases m.transactions.get t with
  | none => exact Outcome.short_ok (by simp)
  | some tr =>
    dsimp only
    split_ifs
    · exact Outcome.short_ok (by simp)
    · cases tr.state with
      | waitingForEofAck =>
        dsimp only
        cases tr.fileChecksum with
        | none => exact Nat.zero_le 3
        | some checksum =>
          refine Outcome.short_ok ?_
          rw [List.length_append]
          exact Nat.add_le_add_right (short_sendEof _ t checksum) 1
      | _ => exact Outcome.short_ok (by simp)

theorem short_pduReceived (pdu : Pdu) : (m.handlePduReceived t pdu).Short 3 := by
  unfold handlePduReceived
  cases hget : m.transactions.get t with
  | none => exact Outcome.short_ok (by simp)
  | some tr =>
    refine Outcome.short_attempt (by simp) fun variant => ?_
    cases variant with
    | finished fin =>
      dsimp only [handleFinished]
      rw [hget]
      dsimp only
      split_ifs
      · exact Nat.zero_le 3
      · refine Outcome.short_attempt (by simp) fun c => ?_
        exact (short_terminate m t c).after (by simp)
    | ack ack =>
      dsimp only [handleAck]
      rw [hget]
      refine Outcome.short_attempt (by simp) fun code => ?_
      cases tr.state <;> cases code <;> exact Outcome.short_ok (by simp)
    | nak nak =>
      dsimp only [handleNak]
      rw [hget]
      split_ifs <;> exact Outcome.short_ok (by simp)
    | keepAlive keepalive =>
      dsimp only [handleKeepAlive]
      rw [hget]
      dsimp only
      split_ifs
      · exact (short_fault _ t _).mono (by decide)
      · exact Outcome.short_ok (by simp)
      · exact Outcome.short_ok (by simp)
    | _ => exact Outcome.short_ok (by simp)

end

/-- No event fills the buffer, so no push fails. -/
theorem sender_actions_fit (m : SenderMachine) (e : Event) :
    (m.handle e).Short MAX_ACTIONS_PER_EVENT := by
  cases e with
  | putRequest src dst dest size checksumType =>
    exact (short_putRequest m dest src dst size checksumType).mono (by decide)
  | promptRequest t promptType => exact (short_prompt m t promptType).mono (by decide)
  | suspendRequest t => exact (short_suspend m t).mono (by decide)
  | resumeRequest t => exact (short_resume m t).mono (by decide)
  | pduReceived t pdu => exact (short_pduReceived m t pdu).mono (by decide)
  | timerExpired t timerType => exact (short_timerExpired m t timerType).mono (by decide)
  | dataSegmentReady t data offset =>
    exact (short_dataSegmentReady m t offset data).mono (by decide)
  | checksumReady t checksum => exact (short_checksum m t checksum).mono (by decide)

end SenderMachine

end Sender
end Cfdp
end Leodos
