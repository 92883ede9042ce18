/-
What one event can do to the receiving machine.

An event concerns one transaction.  It leaves the others alone, and the actions it
emits are plain ones of that transaction, followed by at most one termination, which
removes the entry.  The completing actions are not among them: they are emitted from
`VerifyingChecksum` and `WaitingForFilestoreResponses`, and no entry gets there, since
the tracker never reports a complete file.
-/
import Leodos.Bits.Emission
import Leodos.Cfdp.Receiver.Machine

namespace Leodos
namespace Cfdp
namespace Receiver

open Spp Container
open Emission (ok_bind bind_ok)

/-- The actions that neither complete nor end a transaction. -/
def Action.plain : Action → Bool
  | .sendFinished .. | .terminateTransaction .. | .notifyFileReceived .. | .verifyChecksum ..
  | .executeFilestoreRequests .. => false
  | _ => true

def Action.isEofAck : Action → Bool
  | .sendAck _ _ .eof _ _ => true
  | _ => false

/-- A plain action of `t`. -/
def Plain (t : TransactionId) (a : Action) : Prop := a.transactionId = t ∧ a.plain = true

instance (t : TransactionId) : DecidablePred (Plain t) :=
  fun _ => inferInstanceAs (Decidable (_ ∧ _))

theorem plain_singleton {t : TransactionId} {a : Action} (ht : a.transactionId = t)
    (ha : a.plain = true) : ∀ a' ∈ [a], Plain t a' :=
  List.forall_mem_singleton.2 ⟨ht, ha⟩

/-- An entry carries its own key, and its file is still being received. -/
def Receiving (t : TransactionId) (tr : Transaction) : Prop :=
  tr.config.transactionId = t ∧
    (tr.state = .receivingFileData ∨ tr.state = .waitingForNakData)

namespace ReceiverMachine

def Wf (m : ReceiverMachine) : Prop :=
  ∀ t tr, m.transactions.get t = some tr → Receiving t tr

theorem wf_new (id : EntityId) : (new id).Wf := by
  intro t tr h
  rw [new, LinearMap.get_new] at h
  cases h

@[simp] theorem get_update_self (m : ReceiverMachine) (t : TransactionId)
    (f : Transaction → Transaction) :
    (m.update t f).transactions.get t = (m.transactions.get t).map f :=
  LinearMap.get_modify_self _ _ _

theorem get_update_of_ne (m : ReceiverMachine) {t t' : TransactionId} (hne : t' ≠ t)
    (f : Transaction → Transaction) :
    (m.update t f).transactions.get t' = m.transactions.get t' :=
  LinearMap.get_modify_of_ne _ hne _

def fresh (m : ReceiverMachine) (t : TransactionId) (sourceFileId destinationFileId : FileId)
    (fileSize : Nat) (checksumType : ChecksumType) (faultHandlers : FaultHandlerSet) :
    Transaction where
  config :=
    { transactionId := t
      destinationId := m.id
      sourceFileId := sourceFileId
      destinationFileId := destinationFileId
      fileSize := fileSize
      inactivityTimeoutSecs := 30
      checksumType := checksumType
      faultHandlers := faultHandlers }
  state := .receivingFileData
  suspended := false
  progress := 0
  tracker := SegmentTracker.new fileSize
  nakRetries := 0
  nakLimit := 0
  nakTimeoutSecs := 10
  keepAliveIntervalSecs := 60
  filestoreRequests := []

def register (m : ReceiverMachine) (t : TransactionId) (tr : Transaction) : ReceiverMachine :=
  { m with transactions := m.transactions.insert t tr }

/-- The actions of `o` are plain, up to a termination that leaves no entry. -/
def Closing (t : TransactionId) (o : Step) : Prop :=
  (∀ a ∈ o.actions, Plain t a) ∨
    (o.machine.transactions.get t = none ∧
      ∃ pre c, o.actions = pre ++ [.terminateTransaction t c] ∧ ∀ a ∈ pre, Plain t a)

structure Effect (m : ReceiverMachine) (t : TransactionId) (o : Step) : Prop where
  frame : ∀ t', t' ≠ t → o.machine.transactions.get t' = m.transactions.get t'
  wf : o.machine.Wf
  closing : Closing t o
  /-- With no entry before and after, only EOF PDUs are answered. -/
  silent : m.transactions.get t = none → o.machine.transactions.get t = none →
    ∀ a ∈ o.actions, a.isEofAck = true

section

variable {m : ReceiverMachine} {t : TransactionId}

theorem Effect.idle (hwf : m.Wf) (r : Except CfdpError Unit) : Effect m t ⟨m, [], r⟩ where
  frame _ _ := rfl
  wf := hwf
  closing := Or.inl fun _ ha => absurd ha List.not_mem_nil
  silent _ _ _ ha := absurd ha List.not_mem_nil

theorem Effect.push (hwf : m.Wf) {tr : Transaction} (hget : m.transactions.get t = some tr)
    {l : List Action} (hl : ∀ a ∈ l, Plain t a) (r : Except CfdpError Unit) :
    Effect m t ⟨m, l, r⟩ where
  frame _ _ := rfl
  wf := hwf
  closing := Or.inl hl
  silent hnone := by rw [hget] at hnone; cases hnone

theorem Effect.change (hwf : m.Wf) {tr : Transaction} (hget : m.transactions.get t = some tr)
    {f : Transaction → Transaction} (hf : Receiving t (f tr)) {l : List Action}
    (hl : ∀ a ∈ l, Plain t a) : Effect m t (.ok (m.update t f) l) where
  frame t' hne := get_update_of_ne m hne f
  wf t' tr' h := by
    by_cases hne : t' = t
    · subst hne
      rw [Outcome.ok_machine, get_update_self, hget, Option.map_some, Option.some.injEq] at h
      exact h ▸ hf
    · rw [Outcome.ok_machine, get_update_of_ne m hne] at h
      exact hwf t' tr' h
  closing := Or.inl hl
  silent hnone := by rw [hget] at hnone; cases hnone

theorem effect_terminate (hwf : m.Wf) (c : ConditionCode) :
    Effect m t (m.terminateTransaction t c) := by
  unfold terminateTransaction
  cases hget : m.transactions.get t with
  | none => exact Effect.idle hwf _
  | some tr =>
    have hkey := (hwf t tr hget).1
    refine ⟨fun t' hne => LinearMap.get_remove_of_ne _ hne, ?_, Or.inr ⟨?_, [], c, ?_, ?_⟩, ?_⟩
    · intro t' tr' h
      by_cases hne : t' = t
      · subst hne
        rw [Outcome.ok_machine, LinearMap.get_remove_self] at h
        cases h
      · rw [Outcome.ok_machine, LinearMap.get_remove_of_ne _ hne] at h
        exact hwf t' tr' h
    · exact LinearMap.get_remove_self _ _
    · rw [Outcome.ok_actions, hkey, List.nil_append]
    · exact fun a ha => absurd ha List.not_mem_nil
    · intro hnone
      rw [hget] at hnone
      cases hnone

theorem Effect.after {o : Step} (h : Effect m t o) {tr : Transaction}
    (hget : m.transactions.get t = some tr) {l : List Action} (hl : ∀ a ∈ l, Plain t a) :
    Effect m t (o.after l) where
  frame := h.frame
  wf := h.wf
  closing := by
    rcases h.closing with hplain | ⟨hnone, pre, c, heq, hpre⟩
    · refine Or.inl fun a ha => ?_
      exact (List.mem_append.1 ha).elim (hl a) (hplain a)
    · refine Or.inr ⟨hnone, l ++ pre, c, ?_, fun a ha => ?_⟩
      · rw [Outcome.after_actions, heq, List.append_assoc]
      · exact (List.mem_append.1 ha).elim (hl a) (hpre a)
  silent hnone := by rw [hget] at hnone; cases hnone

theorem effect_suspend (hwf : m.Wf) : Effect m t (m.handleSuspendRequest t) := by
  unfold handleSuspendRequest
  cases hget : m.transactions.get t with
  | none => exact Effect.idle hwf _
  | some tr =>
    dsimp only
    by_cases hsus : tr.suspended = true
    · rw [if_pos hsus]
      exact Effect.idle hwf _
    · rw [if_neg hsus]
      exact Effect.change hwf hget (hwf t tr hget)
        (List.forall_mem_cons.2 ⟨⟨rfl, rfl⟩, plain_singleton rfl rfl⟩)

theorem effect_fault (hwf : m.Wf) (c : ConditionCode) : Effect m t (m.handleFault t c) := by
  unfold handleFault
  cases hget : m.transactions.get t with
  | none => exact Effect.idle hwf _
  | some tr =>
    dsimp only
    cases tr.config.faultHandlers.getHandler c with
    | cancel => exact effect_terminate hwf c
    | abandon => exact effect_terminate hwf c
    | suspend => exact effect_suspend hwf
    | ignore => exact Effect.push hwf hget (plain_singleton rfl rfl) _

theorem effect_sendNak (hwf : m.Wf) : Effect m t (m.sendNak t) := by
  unfold sendNak
  cases hget : m.transactions.get t with
  | none => exact Effect.idle hwf _
  | some tr =>
    have hkey := (hwf t tr hget).1
    refine Effect.change hwf hget ⟨hkey, Or.inr rfl⟩ ?_
    exact List.forall_mem_cons.2 ⟨⟨rfl, rfl⟩, plain_singleton hkey rfl⟩

theorem effect_nakTimeout (hwf : m.Wf) : Effect m t (m.handleNakTimeout t) := by
  unfold handleNakTimeout
  cases hget : m.transactions.get t with
  | none => exact Effect.idle hwf _
  | some tr =>
    dsimp only
    by_cases hlim : tr.nakRetries ≥ tr.nakLimit
    · rw [if_pos hlim]
      exact effect_fault hwf _
    · rw [if_neg hlim]
      have hup := Effect.change (f := fun tr => { tr with nakRetries := tr.nakRetries + 1 })
        hwf hget (hwf t tr hget) (l := []) (by simp)
      have hnak := effect_sendNak (t := t) hup.wf
      refine ⟨fun t' hne => ?_, hnak.wf, hnak.closing, fun hnone => ?_⟩
      · exact (hnak.frame t' hne).trans (hup.frame t' hne)
      · rw [hget] at hnone
        cases hnone

theorem plain_startKeepAlive (tr : Transaction) : ∀ a ∈ startKeepAlive t tr, Plain t a := by
  unfold startKeepAlive
  by_cases hzero : tr.keepAliveIntervalSecs ≠ 0
  · rw [if_pos hzero]
    exact plain_singleton rfl rfl
  · rw [if_neg hzero]
    simp

theorem effect_timerExpired (hwf : m.Wf) (timerType : TimerType) :
    Effect m t (m.handleTimerExpired timerType t) := by
  unfold handleTimerExpired
  cases timerType with
  | nak => exact effect_nakTimeout hwf
  | inactivity => exact effect_fault hwf _
  | ack => exact Effect.idle hwf _
  | keepAlive =>
    dsimp only
    cases hget : m.transactions.get t with
    | none => exact Effect.idle hwf _
    | some tr =>
      refine Effect.push hwf hget (fun a ha => ?_) _
      rcases List.mem_cons.1 ha with rfl | ha
      · exact ⟨rfl, rfl⟩
      · exact plain_startKeepAlive tr a ha

theorem effect_resume (hwf : m.Wf) : Effect m t (m.handleResumeRequest t) := by
  unfold handleResumeRequest
  cases hget : m.transactions.get t with
  | none => exact Effect.idle hwf _
  | some tr =>
    refine Effect.change hwf hget (hwf t tr hget) fun a ha => ?_
    rcases List.mem_append.1 ha with ha | ha
    · cases hstate : tr.state with
      | receivingFileData =>
        rw [hstate] at ha
        rcases List.mem_append.1 ha with ha | ha
        · exact plain_startKeepAlive tr a ha
        · rw [List.mem_singleton.1 ha]
          exact ⟨rfl, rfl⟩
      | waitingForNakData =>
        rw [hstate] at ha
        rcases List.mem_cons.1 ha with rfl | ha
        · exact ⟨rfl, rfl⟩
        · rw [List.mem_singleton.1 ha]
          exact ⟨rfl, rfl⟩
      | verifyingChecksum =>
        rw [hstate] at ha
        cases ha
      | waitingForFilestoreResponses =>
        rw [hstate] at ha
        cases ha
    · rw [List.mem_singleton.1 ha]
      exact ⟨rfl, rfl⟩

theorem effect_filestoreResponses (hwf : m.Wf) (responses : List FilestoreResponse) :
    Effect m t (m.handleFilestoreResponses t responses) := by
  unfold handleFilestoreResponses
  cases hget : m.transactions.get t with
  | none => exact Effect.idle hwf _
  | some tr =>
    have hstate : tr.state ≠ .waitingForFilestoreResponses := by
      rcases (hwf t tr hget).2 with h | h <;> rw [h] <;> decide
    dsimp only
    rw [if_pos hstate]
    exact Effect.idle hwf _

theorem effect_checksumVerified (hwf : m.Wf) (isValid : Bool) :
    Effect m t (m.handleChecksumVerified t isValid) := by
  unfold handleChecksumVerified
  cases hget : m.transactions.get t with
  | none => exact Effect.idle hwf _
  | some tr =>
    have hstate : tr.state ≠ .verifyingChecksum := by
      rcases (hwf t tr hget).2 with h | h <;> rw [h] <;> decide
    dsimp only
    rw [if_pos hstate]
    exact Effect.idle hwf _

theorem effect_fileDataWritten (hwf : m.Wf) (offset len : Nat) :
    Effect m t (m.handleFileDataWritten t offset len) := by
  unfold handleFileDataWritten
  cases hget : m.transactions.get t with
  | none => exact Effect.idle hwf _
  | some tr => exact Effect.change hwf hget (hwf t tr hget) (by simp)

theorem effect_fileData (hwf : m.Wf) (largeFileFlag : Bool) (fileData : FileDataPdu) :
    Effect m t (m.handleFileData t largeFileFlag fileData) := by
  unfold handleFileData
  cases hget : m.transactions.get t with
  | none => exact Effect.idle hwf _
  | some tr =>
    have hstop : ∀ a ∈ [Action.stopTimer t (some .inactivity)], Plain t a :=
      plain_singleton rfl rfl
    refine Outcome.attempt_rule (fun e => Effect.push hwf hget hstop _) fun data _ => ?_
    refine Outcome.attempt_rule (fun e => Effect.push hwf hget hstop _) fun offset _ => ?_
    refine Effect.push hwf hget ?_ _
    cases tr.suspended with
    | false =>
      exact List.forall_mem_cons.2 ⟨⟨rfl, rfl⟩, List.forall_mem_cons.2
        ⟨⟨rfl, rfl⟩, plain_singleton rfl rfl⟩⟩
    | true => exact List.forall_mem_cons.2 ⟨⟨rfl, rfl⟩, plain_singleton rfl rfl⟩

theorem effect_eof (hwf : m.Wf) (pdu : Pdu) (eof : EofPdu) :
    Effect m t (m.handleEof t pdu eof) := by
  unfold handleEof
  refine Outcome.attempt_rule (fun e => Effect.idle hwf _) fun conditionCode _ => ?_
  cases hget : m.transactions.get t with
  | none =>
    refine Outcome.attempt_rule (fun e => Effect.idle hwf _) fun source _ => ?_
    refine ⟨fun _ _ => rfl, hwf, Or.inl ?_, fun _ _ => ?_⟩
    · exact plain_singleton rfl rfl
    · simp [Action.isEofAck]
  | some tr =>
    have hacked : ∀ a ∈ [Action.stopTimer t (some .inactivity),
        .sendAck t tr.config.transactionId.sourceId .eof conditionCode .active], Plain t a :=
      List.forall_mem_cons.2 ⟨⟨rfl, rfl⟩, plain_singleton rfl rfl⟩
    cases conditionCode with
    | noError =>
      dsimp only
      rw [tr.tracker.isComplete_eq_false]
      exact (effect_sendNak hwf).after hget hacked
    | _ => exact (effect_fault hwf _).after hget hacked

theorem createTransaction_eq_ok_iff {store : FileStore} (hnew : m.transactions.get t = none)
    {source dest : Bytes} {fileSize : Nat} {checksumType : ChecksumType}
    {faultHandlers : FaultHandlerSet} {m' : ReceiverMachine} :
    m.createTransaction store t source dest fileSize checksumType faultHandlers = .ok m' ↔
      ∃ sourceId destId, store.intern source = .ok sourceId ∧ store.intern dest = .ok destId ∧
        m.transactions.entries.length < MAX_CONCURRENT_TRANSACTIONS ∧
        m' = m.register t (m.fresh t sourceId destId fileSize checksumType faultHandlers) := by
  have hkey : m.transactions.containsKey t = false := by
    rw [LinearMap.containsKey, hnew]
    rfl
  unfold createTransaction
  constructor
  · intro h
    obtain ⟨sourceId, hsource, h⟩ := bind_ok h
    obtain ⟨destId, hdest, h⟩ := bind_ok h
    simp only [hkey, Bool.false_eq_true, false_or] at h
    by_cases hroom : m.transactions.entries.length < MAX_CONCURRENT_TRANSACTIONS
    · rw [if_pos hroom] at h
      cases h
      exact ⟨sourceId, destId, hsource, hdest, hroom, rfl⟩
    · rw [if_neg hroom] at h
      cases h
  · intro h
    obtain ⟨sourceId, destId, hsource, hdest, hroom, hm'⟩ := h
    simp only [hsource, hdest, ok_bind, hkey, Bool.false_eq_true, false_or]
    rw [if_pos hroom, hm']
    rfl

theorem get_register_self {tr : Transaction}
    (hroom : m.transactions.entries.length < MAX_CONCURRENT_TRANSACTIONS) :
    (m.register t tr).transactions.get t = some tr :=
  LinearMap.get_insert_self _ _ (Or.inr hroom)

theorem get_register_of_ne {t' : TransactionId} (tr : Transaction) (hne : t' ≠ t) :
    (m.register t tr).transactions.get t' = m.transactions.get t' :=
  LinearMap.get_insert_of_ne _ hne _

theorem effect_metadata (hwf : m.Wf) (store : FileStore) (pdu : MetadataPdu)
    (largeFileFlag : Bool) : Effect m t (m.handleMetadata store t pdu largeFileFlag) := by
  unfold handleMetadata
  by_cases hkey : m.transactions.containsKey t = true
  · rw [if_pos hkey]
    exact Effect.idle hwf _
  · rw [if_neg hkey]
    have hnew : m.transactions.get t = none := by
      rwa [LinearMap.containsKey, Option.not_isSome_iff_eq_none] at hkey
    refine Outcome.attempt_rule (fun e => Effect.idle hwf _) fun names _ => ?_
    refine Outcome.attempt_rule (fun e => Effect.idle hwf _) fun fileSize _ => ?_
    refine Outcome.attempt_rule (fun e => Effect.idle hwf _) fun checksumType _ => ?_
    refine Outcome.attempt_rule (fun e => Effect.idle hwf _) fun faultHandlers _ => ?_
    refine Outcome.attempt_rule (fun e => Effect.idle hwf _) fun m' hm' => ?_
    obtain ⟨sourceId, destId, -, -, hroom, rfl⟩ := (createTransaction_eq_ok_iff hnew).1 hm'
    obtain ⟨tr, htr⟩ : ∃ tr, tr = m.fresh t sourceId destId fileSize checksumType faultHandlers :=
      ⟨_, rfl⟩
    rw [← htr]
    have hrecv : Receiving t tr := htr ▸ ⟨rfl, Or.inl rfl⟩
    have hget := @get_register_self m t tr hroom
    have hwf' : (m.register t tr).Wf := by
      intro t' tr' h
      by_cases hne : t' = t
      · subst hne
        rw [hget, Option.some.injEq] at h
        exact h ▸ hrecv
      · rw [get_register_of_ne tr hne] at h
        exact hwf t' tr' h
    -- the new entry is there, so the step is not silent
    have hdone : ∀ o : Step, Effect (m.register t tr) t o → o.machine.transactions.get t ≠ none →
        Effect m t o := fun o ho hsome =>
      ⟨fun t' hne => (ho.frame t' hne).trans (get_register_of_ne tr hne), ho.wf, ho.closing,
        fun _ hnone => absurd hnone hsome⟩
    have hsome : (m.register t tr).transactions.get t ≠ none := by
      rw [hget]
      exact Option.some_ne_none tr
    rw [hget]
    refine Outcome.attempt_rule (fun e => hdone _ (Effect.idle hwf' _) hsome) fun requests _ => ?_
    have hupdated : ((m.register t tr).update t fun tr =>
        { tr with filestoreRequests := requests }).transactions.get t ≠ none := by
      rw [get_update_self, hget]
      exact Option.some_ne_none _
    refine hdone _ (Effect.change hwf' hget hrecv fun a ha => ?_) hupdated
    rcases List.mem_append.1 ha with ha | ha
    · exact plain_startKeepAlive tr a ha
    · rw [List.mem_singleton.1 ha]
      exact ⟨rfl, rfl⟩

theorem effect_pduReceived (hwf : m.Wf) (store : FileStore) (pdu : Pdu) :
    Effect m t (m.handlePduReceived store t pdu) := by
  unfold handlePduReceived
  cases hget : m.transactions.get t with
  | some tr =>
    refine Outcome.attempt_rule (fun e => Effect.idle hwf _) fun variant _ => ?_
    cases variant with
    | fileData data => exact effect_fileData hwf _ data
    | eof eof => exact effect_eof hwf pdu eof
    | prompt prompt =>
      dsimp only
      by_cases hask : (!tr.suspended && prompt.promptResponse = .keepAlive) = true
      · rw [if_pos hask]
        exact Effect.push hwf hget (plain_singleton rfl rfl) _
      · rw [if_neg hask]
        exact Effect.idle hwf _
    | _ => exact Effect.idle hwf _
  | none =>
    refine Outcome.attempt_rule (fun e => Effect.idle hwf _) fun variant _ => ?_
    cases variant with
    | metadata metadata => exact effect_metadata hwf store metadata _
    | eof eof =>
      refine Outcome.attempt_rule (fun e => Effect.idle hwf _) fun source _ => ?_
      refine Outcome.attempt_rule (fun e => Effect.idle hwf _) fun conditionCode _ => ?_
      refine ⟨fun _ _ => rfl, hwf, Or.inl ?_, fun _ _ => ?_⟩
      · exact plain_singleton rfl rfl
      · simp [Action.isEofAck]
    | _ => exact Effect.idle hwf _

end

theorem effect_handle {m : ReceiverMachine} (hwf : m.Wf) (store : FileStore) (e : Event) :
    Effect m e.transactionId (m.handle store e) := by
  cases e with
  | pduReceived t pdu => exact effect_pduReceived hwf store pdu
  | timerExpired t timerType => exact effect_timerExpired hwf timerType
  | fileDataWritten t offset len => exact effect_fileDataWritten hwf offset len
  | checksumVerified t isValid => exact effect_checksumVerified hwf isValid
  | suspendRequest t => exact effect_suspend hwf
  | resumeRequest t => exact effect_resume hwf
  | filestoreResponsesReceived t responses => exact effect_filestoreResponses hwf responses

end ReceiverMachine

end Receiver
end Cfdp
end Leodos
