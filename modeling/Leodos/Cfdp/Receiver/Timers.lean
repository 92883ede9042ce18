/-
The timers that a driver keeps for the receiving machine.

The driver takes the actions of an event from their iterator, which pops the last one first, and
keeps the timers that are armed.  What an event stops before it starts it again is so started
before it is stopped.  An event keeps the timers right exactly when it does not come to such a
pair, does not arm a timer of a suspended transaction, and does not leave a transaction whose
timer it has stopped as it is.
-/
import Leodos.Cfdp.Receiver.Completion
import Leodos.Cfdp.Receiver.Metadata

namespace Leodos
namespace Cfdp
namespace Receiver

open Spp Container Transition

/-! ## The table of timers -/

abbrev Running := TimerType → Bool

def Running.set (running : Running) (timerType : TimerType) (armed : Bool) : Running :=
  fun timerType' => if timerType' = timerType then armed else running timerType'

@[simp] theorem Running.set_self (running : Running) (timerType : TimerType) (armed : Bool) :
    running.set timerType armed timerType = armed := if_pos rfl

theorem Running.set_of_ne (running : Running) {timerType timerType' : TimerType} (armed : Bool)
    (hne : timerType' ≠ timerType) :
    running.set timerType armed timerType' = running timerType' :=
  if_neg hne

@[simp] theorem Running.set_set (running : Running) (timerType : TimerType) (before armed : Bool) :
    (running.set timerType before).set timerType armed = running.set timerType armed := by
  funext timerType'
  unfold Running.set
  by_cases heq : timerType' = timerType
  · rw [if_pos heq, if_pos heq]
  · rw [if_neg heq, if_neg heq, if_neg heq]

theorem Running.set_idle {running : Running} (hidle : ∀ timerType, running timerType = false)
    (timerType timerType' : TimerType) : running.set timerType false timerType' = false := by
  unfold Running.set
  by_cases heq : timerType' = timerType
  · rw [if_pos heq]
  · rw [if_neg heq, hidle]

def Action.execute : Action → Running → Running
  | .startTimer _ _ timerType, running => running.set timerType true
  | .stopTimer _ (some timerType), running => running.set timerType false
  | .stopTimer _ none, _ => fun _ => false
  | _, running => running

def Event.elapse : Event → Running → Running
  | .timerExpired _ timerType, running => running.set timerType false
  | _, running => running

/-- The iterator over the actions of an event pops them. -/
def Actions.next (actions : List Action) : Option (Action × List Action) :=
  actions.getLast?.map fun a => (a, actions.dropLast)

abbrev Timers := TransactionId → Running

namespace Timers

def execute (timers : Timers) (a : Action) : Timers := fun t =>
  if t = a.transactionId then a.execute (timers t) else timers t

def expire (timers : Timers) (e : Event) : Timers := fun t =>
  if t = e.transactionId then e.elapse (timers t) else timers t

/-- Carry out the actions of an event, in the order in which they are yielded. -/
def consume (timers : Timers) (actions : List Action) : Timers :=
  actions.foldr (fun a timers => timers.execute a) timers

theorem consume_eq_next (timers : Timers) (actions : List Action) :
    timers.consume actions =
      match Actions.next actions with
      | none => timers
      | some (a, rest) => (timers.execute a).consume rest := by
  rcases List.eq_nil_or_concat actions with rfl | ⟨rest, a, rfl⟩
  · rfl
  · have hnext : Actions.next (rest.concat a) = some (a, rest) := by
      simp [Actions.next, List.concat_eq_append]
    rw [hnext, List.concat_eq_append]
    show (rest ++ [a]).foldr _ timers = rest.foldr _ (timers.execute a)
    rw [List.foldr_append, List.foldr_cons, List.foldr_nil]

section

variable {t : TransactionId} {actions : List Action}

theorem consume_apply (timers : Timers) (hkey : ∀ a ∈ actions, a.transactionId = t)
    (t' : TransactionId) :
    timers.consume actions t' =
      if t' = t then actions.foldr Action.execute (timers t') else timers t' := by
  induction actions with
  | nil => exact (ite_self _).symm
  | cons a actions ih =>
    have hrest := ih fun b hb => hkey b (List.mem_cons_of_mem a hb)
    have ha := hkey a List.mem_cons_self
    show (timers.consume actions).execute a t' = _
    unfold execute
    rw [ha, hrest]
    by_cases heq : t' = t
    · rw [if_pos heq, if_pos heq, if_pos heq, List.foldr_cons]
    · rw [if_neg heq, if_neg heq, if_neg heq]

end

end Timers

/-! ## The driver -/

structure Driver where
  machine : ReceiverMachine
  timers : Timers

namespace Driver

def new (id : EntityId) : Driver := ⟨.new id, fun _ _ => false⟩

def next (d : Driver) (x : Input) : Driver where
  machine := d.machine.next x
  timers := (d.timers.expire x.2).consume (d.machine.handle x.1 x.2).delivered

end Driver

/-! ## The discipline -/

def TransactionState.needs : TransactionState → TimerType → Bool
  | .receivingFileData, .inactivity => true
  | .waitingForNakData, .nak => true
  | _, _ => false

def Transaction.Needs (tr : Transaction) (timerType : TimerType) : Prop :=
  tr.suspended = false ∧ tr.state.needs timerType = true

structure Armed (tr : Transaction) (running : Running) : Prop where
  needed : ∀ timerType, tr.Needs timerType → running timerType = true
  suspended : tr.suspended = true → ∀ timerType, running timerType = false

structure Driver.Disciplined (d : Driver) : Prop where
  entries : ∀ t tr, d.machine.transactions.get t = some tr → Armed tr (d.timers t)
  /-- No armed timer of a missing entry emits anything when it expires. -/
  removed : ∀ t, d.machine.transactions.get t = none → ∀ timerType,
    d.timers t timerType = true → ∀ store,
      (d.machine.handle store (.timerExpired t timerType)).actions = []

/-! ## When an event keeps it -/

def Transaction.Ignores (tr : Transaction) (condition : ConditionCode) : Prop :=
  tr.config.faultHandlers.getHandler condition = .ignore

/-- File data stops the inactivity timer after it has started it.  A final EOF stops it too, and
an EOF with nothing to complain of starts the NAK timer. -/
def Transaction.TendsPdu (tr : Transaction) (pdu : Pdu) : Prop :=
  match pdu.variant with
  | .ok (.fileData data) =>
      (∃ octets, data.fileData pdu.largeFileFlag = .ok octets) →
        (∃ offset, data.offset pdu.largeFileFlag = .ok offset) → ¬ tr.Needs .inactivity
  | .ok (.eof eof) =>
      ∀ condition, eof.conditionCode = .ok condition →
        if condition = .noError then tr.suspended = false
        else tr.Ignores condition → ¬ tr.Needs .inactivity
  | _ => True

def Transaction.TendsExpiry (tr : Transaction) : TimerType → Prop
  | .nak =>
      if tr.nakRetries ≥ tr.nakLimit then tr.Ignores .nakLimitReached → ¬ tr.Needs .nak
      else tr.suspended = false
  | .inactivity => tr.Ignores .keepAliveLimitReached → ¬ tr.Needs .inactivity
  | .ack => True
  | .keepAlive => tr.suspended = true → tr.keepAliveIntervalSecs = 0

/-- The condition on an event and on what is there when it comes. -/
def Driver.Tended (d : Driver) (x : Input) : Prop :=
  match x.2 with
  | .pduReceived t pdu =>
      match d.machine.transactions.get t with
      | some tr => tr.TendsPdu pdu
      | none => ∀ metadata, pdu.variant = .ok (.metadata metadata) →
          d.machine.ReadsRequests x.1 metadata pdu.largeFileFlag ∨ d.timers t .inactivity = true
  | .timerExpired t timerType =>
      ∀ tr, d.machine.transactions.get t = some tr → tr.TendsExpiry timerType
  | _ => True

/-! ## One entry and its timers -/

namespace Armed

variable {tr : Transaction} {running : Running}

theorem stop_iff (h : Armed tr running) (timerType : TimerType) :
    Armed tr (running.set timerType false) ↔ ¬ tr.Needs timerType := by
  constructor
  · intro hstop hneeds
    have hrun := hstop.needed timerType hneeds
    rw [Running.set_self] at hrun
    cases hrun
  · intro hneeds
    refine ⟨fun timerType' hneeds' => ?_, fun hsus => ?_⟩
    · have hne : timerType' ≠ timerType := by
        intro heq
        exact hneeds (heq ▸ hneeds')
      rw [Running.set_of_ne _ _ hne]
      exact h.needed timerType' hneeds'
    · exact Running.set_idle (h.suspended hsus) timerType

theorem congr {tr' : Transaction} (h : Armed tr running) (hstate : tr'.state = tr.state)
    (hsus : tr'.suspended = tr.suspended) : Armed tr' running where
  needed timerType hneeds := h.needed timerType (by
    unfold Transaction.Needs at hneeds ⊢
    rwa [hstate, hsus] at hneeds)
  suspended hsus' := h.suspended (hsus ▸ hsus')

theorem of_suspended (hsus : tr.suspended = true)
    (hidle : ∀ timerType, running timerType = false) : Armed tr running where
  needed _ hneeds := by
    have hnot := hneeds.1
    rw [hsus] at hnot
    cases hnot
  suspended _ := hidle

theorem of_runs {timerType : TimerType}
    (hneeds : ∀ timerType', tr.state.needs timerType' = true → timerType' = timerType)
    (hsus : tr.suspended = false) (hrun : running timerType = true) : Armed tr running where
  needed timerType' h := by
    rw [hneeds timerType' h.2]
    exact hrun
  suspended h := by
    rw [hsus] at h
    cases h

end Armed

theorem needs_receiving {timerType : TimerType}
    (h : TransactionState.receivingFileData.needs timerType = true) : timerType = .inactivity := by
  cases timerType with
  | inactivity => rfl
  | _ => cases h

theorem needs_waiting {timerType : TimerType}
    (h : TransactionState.waitingForNakData.needs timerType = true) : timerType = .nak := by
  cases timerType with
  | nak => rfl
  | _ => cases h

namespace ReceiverMachine

/-- The entry that an outcome leaves has its timers, if `running` are armed before. -/
def Keeps (t : TransactionId) (running : Running) (o : Step) : Prop :=
  ∀ tr, o.machine.transactions.get t = some tr →
    Armed tr (o.delivered.foldr Action.execute running)

section

variable {m : ReceiverMachine} {t : TransactionId} {tr : Transaction} {running : Running}

theorem keeps_iff {o : Step} (hget : o.machine.transactions.get t = some tr) :
    Keeps t running o ↔ Armed tr (o.delivered.foldr Action.execute running) := by
  constructor
  · intro h
    exact h tr hget
  · intro h tr' hget'
    rw [hget, Option.some.injEq] at hget'
    exact hget' ▸ h

theorem keeps_of_none {o : Step} (hnone : o.machine.transactions.get t = none) :
    Keeps t running o := by
  intro tr hget
  rw [hnone] at hget
  cases hget

theorem keeps_error (hget : m.transactions.get t = some tr) (h : Armed tr running)
    (pushed : List Action) (e : CfdpError) : Keeps t running ⟨m, pushed, .error e⟩ :=
  (keeps_iff hget).2 h

theorem keeps_idle (hget : m.transactions.get t = some tr) (h : Armed tr running) :
    Keeps t running (.ok m []) :=
  (keeps_iff hget).2 h

theorem get_updated (hget : m.transactions.get t = some tr) (f : Transaction → Transaction) :
    (m.update t f).transactions.get t = some (f tr) := by
  rw [get_update_self, hget, Option.map_some]

theorem foldr_startKeepAlive (tr : Transaction) (running : Running) :
    (startKeepAlive t tr).foldr Action.execute running =
      if tr.keepAliveIntervalSecs ≠ 0 then running.set .keepAlive true else running := by
  unfold startKeepAlive
  by_cases hinterval : tr.keepAliveIntervalSecs ≠ 0
  · rw [if_pos hinterval, if_pos hinterval]
    rfl
  · rw [if_neg hinterval, if_neg hinterval]
    rfl

theorem handleTimerExpired_of_none (hnone : m.transactions.get t = none) (timerType : TimerType) :
    m.handleTimerExpired timerType t = .ok m [] := by
  unfold handleTimerExpired handleNakTimeout handleInactivity handleFault
  rw [hnone]
  cases timerType <;> rfl

theorem handle_of_none {e : Event} (hnone : m.transactions.get e.transactionId = none)
    (hpdu : ∀ t pdu, e ≠ .pduReceived t pdu) (store : FileStore) :
    m.handle store e = .ok m [] := by
  cases e with
  | pduReceived t pdu => exact absurd rfl (hpdu t pdu)
  | timerExpired t timerType => exact handleTimerExpired_of_none hnone timerType
  | fileDataWritten t offset len =>
    show m.handleFileDataWritten t offset len = _
    rw [handleFileDataWritten, show m.transactions.get t = none from hnone]
  | checksumVerified t isValid =>
    show m.handleChecksumVerified t isValid = _
    rw [handleChecksumVerified, show m.transactions.get t = none from hnone]
  | suspendRequest t =>
    show m.handleSuspendRequest t = _
    rw [handleSuspendRequest, show m.transactions.get t = none from hnone]
  | resumeRequest t =>
    show m.handleResumeRequest t = _
    rw [handleResumeRequest, show m.transactions.get t = none from hnone]
  | filestoreResponsesReceived t responses =>
    show m.handleFilestoreResponses t responses = _
    rw [handleFilestoreResponses, show m.transactions.get t = none from hnone]

/-! ### Faults and NAKs -/

theorem keeps_suspend (hget : m.transactions.get t = some tr) (h : Armed tr running) :
    Keeps t running (m.handleSuspendRequest t) := by
  unfold handleSuspendRequest
  rw [hget]
  dsimp only
  by_cases hsus : tr.suspended = true
  · rw [if_pos hsus]
    exact keeps_idle hget h
  · rw [if_neg hsus, keeps_iff (get_updated hget _)]
    exact .of_suspended rfl fun _ => rfl

theorem keeps_fault_iff (hget : m.transactions.get t = some tr) {pushed : List Action}
    (hstop : ∀ idle : Running, (∀ timerType, idle timerType = false) →
      ∀ timerType, pushed.foldr Action.execute idle timerType = false)
    (hsus : tr.suspended = true → ∀ timerType, running timerType = false)
    (condition : ConditionCode) :
    Keeps t running ((m.handleFault t condition).after pushed) ↔
      (tr.Ignores condition → Armed tr (pushed.foldr Action.execute running)) := by
  have hgone : (m.terminateTransaction t condition).machine.transactions.get t = none := by
    unfold terminateTransaction
    rw [hget]
    exact LinearMap.get_remove_self _ _
  unfold Transaction.Ignores handleFault
  rw [hget]
  dsimp only
  cases tr.config.faultHandlers.getHandler condition with
  | cancel => exact iff_of_true (keeps_of_none hgone) (fun h => by cases h)
  | abandon => exact iff_of_true (keeps_of_none hgone) (fun h => by cases h)
  | ignore =>
    rw [imp_iff_right rfl]
    rw [keeps_iff (o := (Outcome.ok m [.notifyFault t condition]).after pushed) hget]
    show Armed tr ((pushed ++ [Action.notifyFault t condition]).foldr Action.execute running) ↔ _
    rw [List.foldr_append]
    exact Iff.rfl
  | suspend =>
    refine iff_of_true ?_ (fun h => by cases h)
    dsimp only [handleSuspendRequest]
    rw [hget]
    dsimp only
    by_cases hsuspended : tr.suspended = true
    · rw [if_pos hsuspended]
      rw [keeps_iff (o := (Outcome.ok m []).after pushed) hget]
      show Armed tr ((pushed ++ []).foldr Action.execute running)
      rw [List.append_nil]
      exact .of_suspended hsuspended (hstop running (hsus hsuspended))
    · rw [if_neg hsuspended]
      intro tr' hget'
      rw [Outcome.after_machine, Outcome.ok_machine, get_updated hget, Option.some.injEq] at hget'
      show Armed tr' ((pushed ++ _).foldr Action.execute running)
      rw [List.foldr_append]
      exact .of_suspended (hget' ▸ rfl) (hstop _ fun _ => rfl)

theorem keeps_sendNak_iff (hget : m.transactions.get t = some tr) {pushed : List Action}
    (hrun : ∀ running : Running, running .nak = true →
      pushed.foldr Action.execute running .nak = true) :
    Keeps t running ((m.sendNak t).after pushed) ↔ tr.suspended = false := by
  unfold sendNak
  rw [hget]
  dsimp only
  have hget' := get_updated hget fun tr => { tr with state := .waitingForNakData }
  rw [keeps_iff (o := (Outcome.ok (m.update t _) _).after pushed) hget']
  show Armed _ ((pushed ++ _).foldr Action.execute running) ↔ _
  rw [List.foldr_append]
  have hnak := hrun (running.set .nak true) (Running.set_self _ _ _)
  constructor
  · intro h
    by_cases hsus : tr.suspended = true
    · have hidle := h.suspended hsus .nak
      exact absurd (hnak.symm.trans hidle) Bool.noConfusion
    · exact Bool.eq_false_iff.2 hsus
  · intro hsus
    exact .of_runs (fun _ => needs_waiting) hsus hnak

/-! ### Events -/

theorem keeps_nakTimeout_iff (hget : m.transactions.get t = some tr) (h : Armed tr running) :
    Keeps t (running.set .nak false) (m.handleNakTimeout t) ↔ tr.TendsExpiry .nak := by
  unfold handleNakTimeout Transaction.TendsExpiry
  rw [hget]
  dsimp only
  by_cases hlimit : tr.nakRetries ≥ tr.nakLimit
  · rw [if_pos hlimit, if_pos hlimit, ← h.stop_iff]
    exact @keeps_fault_iff m t tr _ hget [] (fun _ hidle => hidle)
      (fun hsus => Running.set_idle (h.suspended hsus) _) _
  · rw [if_neg hlimit, if_neg hlimit]
    exact @keeps_sendNak_iff _ t _ _ (get_updated hget _) [] fun _ hrun => hrun

theorem keeps_timerExpired_iff (hget : m.transactions.get t = some tr) (h : Armed tr running)
    (timerType : TimerType) :
    Keeps t (running.set timerType false) (m.handleTimerExpired timerType t) ↔
      tr.TendsExpiry timerType := by
  unfold handleTimerExpired
  cases timerType with
  | nak => exact keeps_nakTimeout_iff hget h
  | inactivity =>
    rw [Transaction.TendsExpiry, ← h.stop_iff]
    exact @keeps_fault_iff m t tr _ hget [] (fun _ hidle => hidle)
      (fun hsus => Running.set_idle (h.suspended hsus) _) _
  | ack =>
    refine iff_of_true (keeps_idle hget ((h.stop_iff _).2 fun hneeds => ?_)) trivial
    exact absurd hneeds.2 (by cases tr.state <;> exact Bool.false_ne_true)
  | keepAlive =>
    dsimp only
    rw [hget]
    dsimp only
    rw [keeps_iff (o := .ok m _) hget, Outcome.delivered_ok, List.foldr_cons,
      foldr_startKeepAlive, Running.set_set]
    show Armed tr (if _ then _ else _) ↔ (_ → _)
    have hunneeded : ¬ tr.Needs .keepAlive := fun hneeds =>
      absurd hneeds.2 (by cases tr.state <;> exact Bool.false_ne_true)
    by_cases hinterval : tr.keepAliveIntervalSecs = 0
    · rw [if_neg (not_not_intro hinterval)]
      exact iff_of_true ((h.stop_iff _).2 hunneeded) fun _ => hinterval
    · rw [if_pos hinterval]
      constructor
      · intro harmed hsus
        have hidle := harmed.suspended hsus .keepAlive
        rw [Running.set_self] at hidle
        cases hidle
      · intro hsus
        refine ⟨fun timerType hneeds => ?_, fun hsus' => absurd (hsus hsus') hinterval⟩
        have hne : timerType ≠ .keepAlive := fun heq => hunneeded (heq ▸ hneeds)
        rw [Running.set_of_ne _ _ hne]
        exact h.needed timerType hneeds

theorem keeps_resume (hget : m.transactions.get t = some tr) :
    Keeps t running (m.handleResumeRequest t) := by
  unfold handleResumeRequest
  rw [hget]
  dsimp only
  rw [keeps_iff (get_updated hget _), Outcome.delivered_ok, List.foldr_append]
  cases hstate : tr.state with
  | receivingFileData =>
    refine .of_runs (fun _ => needs_receiving) rfl ?_
    dsimp only
    rw [List.foldr_append, foldr_startKeepAlive]
    by_cases hinterval : tr.keepAliveIntervalSecs ≠ 0
    · rw [if_pos hinterval]
      rfl
    · rw [if_neg hinterval]
      rfl
  | waitingForNakData =>
    exact .of_runs (fun _ => needs_waiting) rfl rfl
  | _ => exact ⟨fun _ hneeds => (by cases hneeds.2), fun hsus => by cases hsus⟩

theorem keeps_fileDataWritten (hget : m.transactions.get t = some tr) (h : Armed tr running)
    (offset len : Nat) : Keeps t running (m.handleFileDataWritten t offset len) := by
  unfold handleFileDataWritten
  rw [hget]
  dsimp only
  rw [keeps_iff (get_updated hget _)]
  exact h.congr rfl rfl

theorem keeps_checksumVerified (hwf : m.Wf) (hget : m.transactions.get t = some tr)
    (h : Armed tr running) (isValid : Bool) :
    Keeps t running (m.handleChecksumVerified t isValid) := by
  unfold handleChecksumVerified
  rw [hget]
  dsimp only
  have hstate : tr.state ≠ .verifyingChecksum := by
    rcases (hwf t tr hget).2 with h | h <;> rw [h] <;> decide
  rw [if_pos hstate]
  exact keeps_idle hget h

theorem keeps_filestoreResponses (hwf : m.Wf) (hget : m.transactions.get t = some tr)
    (h : Armed tr running) (responses : List FilestoreResponse) :
    Keeps t running (m.handleFilestoreResponses t responses) := by
  unfold handleFilestoreResponses
  rw [hget]
  dsimp only
  have hstate : tr.state ≠ .waitingForFilestoreResponses := by
    rcases (hwf t tr hget).2 with h | h <;> rw [h] <;> decide
  rw [if_pos hstate]
  exact keeps_idle hget h

/-! ### PDUs -/

theorem keeps_fileData_iff (hget : m.transactions.get t = some tr) (h : Armed tr running)
    (largeFileFlag : Bool) (fileData : FileDataPdu) :
    Keeps t running (m.handleFileData t largeFileFlag fileData) ↔
      ((∃ octets, fileData.fileData largeFileFlag = .ok octets) →
        (∃ offset, fileData.offset largeFileFlag = .ok offset) → ¬ tr.Needs .inactivity) := by
  unfold handleFileData
  rw [hget]
  dsimp only
  cases hdata : fileData.fileData largeFileFlag with
  | error e =>
    refine iff_of_true (keeps_error hget h _ e) (fun hok => ?_)
    obtain ⟨octets, hok⟩ := hok
    cases hok
  | ok octets =>
    cases hoffset : fileData.offset largeFileFlag with
    | error e =>
      refine iff_of_true (keeps_error hget h _ e) (fun _ hok => ?_)
      obtain ⟨offset, hok⟩ := hok
      cases hok
    | ok offset =>
      rw [imp_iff_right ⟨octets, rfl⟩, imp_iff_right ⟨offset, rfl⟩, ← h.stop_iff]
      dsimp only [Outcome.attempt]
      rw [keeps_iff (o := .ok m _) hget, Outcome.delivered_ok, List.foldr_append]
      cases tr.suspended with
      | true => exact Iff.rfl
      | false =>
        show Armed tr ((running.set .inactivity true).set .inactivity false) ↔ _
        rw [Running.set_set]

theorem keeps_eof_iff (hget : m.transactions.get t = some tr) (h : Armed tr running) (pdu : Pdu)
    (eof : EofPdu) :
    Keeps t running (m.handleEof t pdu eof) ↔
      ∀ condition, eof.conditionCode = .ok condition →
        if condition = .noError then tr.suspended = false
        else tr.Ignores condition → ¬ tr.Needs .inactivity := by
  unfold handleEof
  cases hcode : eof.conditionCode with
  | error e => exact iff_of_true (keeps_error hget h _ e) (fun _ hok => by cases hok)
  | ok condition =>
    have hone : (∀ condition', (Except.ok condition : Except CfdpError _) = .ok condition' →
        if condition' = .noError then tr.suspended = false
        else tr.Ignores condition' → ¬ tr.Needs .inactivity) ↔
        if condition = .noError then tr.suspended = false
        else tr.Ignores condition → ¬ tr.Needs .inactivity := by
      constructor
      · intro hall
        exact hall condition rfl
      · intro hif condition' heq
        cases heq
        exact hif
    rw [hone]
    dsimp only [Outcome.attempt]
    rw [hget]
    dsimp only
    by_cases hno : condition = .noError
    · subst hno
      dsimp only
      rw [if_pos rfl, tr.tracker.isComplete_eq_false]
      exact keeps_sendNak_iff hget fun _ hrun => hrun
    · rw [if_neg hno, ← h.stop_iff]
      have hfault := @keeps_fault_iff m t tr running hget
        [.stopTimer t (some .inactivity),
          .sendAck t tr.config.transactionId.sourceId .eof condition .active]
        (fun _ hidle => Running.set_idle hidle _) h.suspended condition
      cases condition with
      | noError => exact absurd rfl hno
      | _ => exact hfault

/-- A new entry has its timer, unless the PDU is rejected after the entry is registered and no
timer is left of an earlier transaction. -/
theorem keeps_metadata_iff (hnew : m.transactions.get t = none) (store : FileStore)
    (pdu : MetadataPdu) (largeFileFlag : Bool) :
    Keeps t running (m.handleMetadata store t pdu largeFileFlag) ↔
      m.ReadsRequests store pdu largeFileFlag ∨ running .inactivity = true := by
  rcases @handleMetadata_cases m store t hnew pdu largeFileFlag with
    ⟨⟨e, houtcome⟩, hnot⟩ | ⟨source, dest, options, tr, hregisters, hentered, houtcome⟩
  · rw [houtcome]
    refine iff_of_true (keeps_of_none hnew) (Or.inl fun source dest options h => ?_)
    exact absurd h (hnot source dest options)
  · have hself := @get_register_self m t tr hregisters.room
    rw [houtcome, readsRequests_iff hregisters]
    cases hrequests : readRequests store pdu largeFileFlag with
    | error e =>
      have hlate : ¬ ∃ requests : List FilestoreRequest,
          (.error e : Except CfdpError _) = .ok requests := by
        intro hok
        obtain ⟨requests, hok⟩ := hok
        cases hok
      rw [or_iff_right hlate]
      dsimp only [Outcome.attempt]
      rw [keeps_iff (o := ⟨m.register t tr, [], .error e⟩) hself, Outcome.delivered_error,
        List.foldr_nil]
      constructor
      · intro harmed
        exact harmed.needed .inactivity ⟨hentered.suspended, by rw [hentered.state]; rfl⟩
      · intro hrun
        refine .of_runs (fun _ => ?_) hentered.suspended hrun
        rw [hentered.state]
        exact needs_receiving
    | ok requests =>
      refine iff_of_true ?_ (Or.inl ⟨requests, rfl⟩)
      dsimp only [Outcome.attempt]
      rw [keeps_iff (get_updated hself _), Outcome.delivered_ok, List.foldr_append,
        foldr_startKeepAlive]
      refine @Armed.of_runs _ _ .inactivity (fun _ => ?_) hentered.suspended ?_
      · rw [hentered.state]
        exact needs_receiving
      · by_cases hinterval : tr.keepAliveIntervalSecs ≠ 0
        · rw [if_pos hinterval]
          rfl
        · rw [if_neg hinterval]
          rfl

theorem keeps_pduReceived_iff (hget : m.transactions.get t = some tr) (h : Armed tr running)
    (store : FileStore) (pdu : Pdu) :
    Keeps t running (m.handlePduReceived store t pdu) ↔ tr.TendsPdu pdu := by
  unfold handlePduReceived Transaction.TendsPdu
  rw [hget]
  dsimp only
  cases hvariant : pdu.variant with
  | error e => exact iff_of_true (keeps_error hget h _ e) trivial
  | ok variant =>
    cases variant with
    | fileData data => exact keeps_fileData_iff hget h _ data
    | eof eof => exact keeps_eof_iff hget h pdu eof
    | prompt prompt =>
      refine iff_of_true ?_ trivial
      dsimp only [Outcome.attempt]
      by_cases hask : (!tr.suspended && prompt.promptResponse = .keepAlive) = true
      · rw [if_pos hask]
        exact (keeps_iff hget).2 h
      · rw [if_neg hask]
        exact keeps_idle hget h
    | _ => exact iff_of_true (keeps_idle hget h) trivial

theorem keeps_first_iff (hnew : m.transactions.get t = none) (store : FileStore) (pdu : Pdu) :
    Keeps t running (m.handlePduReceived store t pdu) ↔
      ∀ metadata, pdu.variant = .ok (.metadata metadata) →
        m.ReadsRequests store metadata pdu.largeFileFlag ∨ running .inactivity = true := by
  unfold handlePduReceived
  rw [hnew]
  dsimp only
  cases hvariant : pdu.variant with
  | error e => exact iff_of_true (keeps_of_none hnew) (fun _ hok => by cases hok)
  | ok variant =>
    cases variant with
    | metadata metadata =>
      dsimp only [Outcome.attempt]
      rw [keeps_metadata_iff hnew]
      constructor
      · intro hreads metadata' heq
        cases heq
        exact hreads
      · intro hall
        exact hall metadata rfl
    | eof eof =>
      refine iff_of_true ?_ (fun _ hok => by cases hok)
      show Keeps t running (.attempt m [] pdu.sourceEntityId _)
      refine Outcome.attempt_rule (fun e => keeps_of_none hnew) fun source _ => ?_
      refine Outcome.attempt_rule (fun e => keeps_of_none hnew) fun condition _ => ?_
      exact keeps_of_none hnew
    | _ => exact iff_of_true (keeps_of_none hnew) (fun _ hok => by cases hok)

end

end ReceiverMachine

/-! ## A step of the driver -/

namespace Driver

open ReceiverMachine

variable {d : Driver}

theorem transactionId_of_delivered (hwf : d.machine.Wf) (x : Input) :
    ∀ a ∈ (d.machine.handle x.1 x.2).delivered, a.transactionId = x.2.transactionId := by
  intro a ha
  have hmem := Outcome.mem_actions_of_delivered ha
  rcases (effect_handle hwf x.1 x.2).closing with hall | ⟨-, pre, c, heq, hpre⟩
  · exact (hall a hmem).1
  · rw [heq] at hmem
    rcases List.mem_append.1 hmem with hin | hlast
    · exact (hpre a hin).1
    · rw [List.mem_singleton.1 hlast]
      rfl

theorem next_timers (hwf : d.machine.Wf) (x : Input) (t : TransactionId) :
    (d.next x).timers t =
      if t = x.2.transactionId then
        (d.machine.handle x.1 x.2).delivered.foldr Action.execute (x.2.elapse (d.timers t))
      else d.timers t := by
  show (d.timers.expire x.2).consume _ t = _
  rw [Timers.consume_apply _ (transactionId_of_delivered hwf x)]
  unfold Timers.expire
  by_cases heq : t = x.2.transactionId
  · rw [if_pos heq, if_pos heq, if_pos heq]
  · rw [if_neg heq, if_neg heq, if_neg heq]

theorem disciplined_next_iff_keeps (hwf : d.machine.Wf) (hd : d.Disciplined) (x : Input) :
    (d.next x).Disciplined ↔
      Keeps x.2.transactionId (x.2.elapse (d.timers x.2.transactionId))
        (d.machine.handle x.1 x.2) := by
  constructor
  · intro h tr hget
    have harmed := h.entries _ tr hget
    rw [next_timers hwf, if_pos rfl] at harmed
    exact harmed
  · intro h
    refine ⟨fun t tr hget => ?_, fun t hnone timerType _ store => ?_⟩
    · rw [next_timers hwf]
      by_cases heq : t = x.2.transactionId
      · subst heq
        rw [if_pos rfl]
        exact h tr hget
      · rw [if_neg heq]
        exact hd.entries t tr (((effect_handle hwf x.1 x.2).frame t heq).symm.trans hget)
    · show (handleTimerExpired _ timerType t).actions = []
      rw [handleTimerExpired_of_none hnone]
      rfl

theorem disciplined_next_iff (hwf : d.machine.Wf) (hd : d.Disciplined) (x : Input) :
    (d.next x).Disciplined ↔ d.Tended x := by
  rw [disciplined_next_iff_keeps hwf hd]
  obtain ⟨store, e⟩ := x
  cases hget : d.machine.transactions.get e.transactionId with
  | none =>
    have hquiet : (∀ t pdu, e ≠ .pduReceived t pdu) →
        Keeps e.transactionId (e.elapse (d.timers e.transactionId)) (d.machine.handle store e) := by
      intro hpdu
      rw [handle_of_none hget hpdu]
      exact keeps_of_none hget
    cases e with
    | pduReceived t pdu =>
      have hfirst := @keeps_first_iff _ t (d.timers t) hget store pdu
      unfold Tended
      dsimp only
      rw [show d.machine.transactions.get t = none from hget]
      exact hfirst
    | timerExpired t timerType =>
      refine iff_of_true (hquiet fun _ _ heq => by cases heq) fun tr hsome => ?_
      rw [show d.machine.transactions.get t = none from hget] at hsome
      cases hsome
    | _ => exact iff_of_true (hquiet fun _ _ heq => by cases heq) trivial
  | some tr =>
    have harmed := hd.entries _ tr hget
    cases e with
    | pduReceived t pdu =>
      have hpdu := keeps_pduReceived_iff hget harmed store pdu
      unfold Tended
      dsimp only
      rw [show d.machine.transactions.get t = some tr from hget]
      exact hpdu
    | timerExpired t timerType =>
      have hexpired := keeps_timerExpired_iff hget harmed timerType
      refine hexpired.trans ⟨fun htends tr' hget' => ?_, fun hall => hall tr hget⟩
      cases (Option.some.inj (hget.symm.trans hget') : tr = tr')
      exact htends
    | fileDataWritten t offset len =>
      exact iff_of_true (keeps_fileDataWritten hget harmed offset len) trivial
    | checksumVerified t isValid =>
      exact iff_of_true (keeps_checksumVerified hwf hget harmed isValid) trivial
    | suspendRequest t => exact iff_of_true (keeps_suspend hget harmed) trivial
    | resumeRequest t => exact iff_of_true (keeps_resume hget) trivial
    | filestoreResponsesReceived t responses =>
      exact iff_of_true (keeps_filestoreResponses hwf hget harmed responses) trivial

/-! ## Runs -/

theorem disciplined_new (id : EntityId) : (new id).Disciplined where
  entries t tr hget := by
    rw [new, ReceiverMachine.new, LinearMap.get_new] at hget
    cases hget
  removed t _ timerType harmed _ := by cases harmed

theorem meets_disciplined_iff (hwf : d.machine.Wf) (hd : d.Disciplined) (xs : List Input) :
    System.Meets next (fun d x => (d.next x).Disciplined) d xs ↔
      System.Meets next Tended d xs := by
  induction xs generalizing d with
  | nil => exact Iff.rfl
  | cons x xs ih =>
    have hstep := disciplined_next_iff hwf hd x
    constructor
    · intro h
      exact ⟨hstep.1 h.1, (ih (wf_next hwf x) h.1).1 h.2⟩
    · intro h
      have hnext := hstep.2 h.1
      exact ⟨hnext, (ih (wf_next hwf x) hnext).2 h.2⟩

/-- The timers are right after every event that is handled successfully. -/
def DisciplinedThrough : Driver → List Input → Prop :=
  System.Meets next fun d x =>
    (d.machine.handle x.1 x.2).result = .ok () → (d.next x).Disciplined

/-- The timers are right after every event of a run exactly when every event of it is tended. -/
theorem timers_disciplined_iff (id : EntityId) (xs : List Input) :
    (System.Meets next Tended (new id) xs → DisciplinedThrough (new id) xs) ∧
      (System.Meets next (fun d x => (d.next x).Disciplined) (new id) xs ↔
        System.Meets next Tended (new id) xs) := by
  have hiff := meets_disciplined_iff (wf_new id) (disciplined_new id) xs
  refine ⟨fun h => ?_, hiff⟩
  refine System.Meets.mono (fun d x hdisciplined => ?_) (hiff.2 h)
  exact fun _ => hdisciplined

def fourBytesData : Input :=
  (lengthStore, .pduReceived fourBytes
    ⟨false, .ok 1, .ok (.fileData (.withoutMeta [0, 0, 0, 0, 1, 2, 3, 4]))⟩)

/-- The first file data of a transaction leaves it without its inactivity timer. -/
theorem four_bytes_unattended :
    ¬ ∀ (id : EntityId) (xs : List Input), DisciplinedThrough (new id) xs := by
  intro h
  obtain ⟨-, hdata, -⟩ := h 2 [fourBytesMetadata, fourBytesData]
  have hdisciplined := hdata (by decide)
  have hentry : (((((new 2).next fourBytesMetadata).next fourBytesData).machine.transactions.get
      fourBytes).map fun tr => (tr.state, tr.suspended)) = some (.receivingFileData, false) := by
    decide
  have hrun : (((new 2).next fourBytesMetadata).next fourBytesData).timers fourBytes
      .inactivity = false := by
    decide
  rw [Option.map_eq_some_iff] at hentry
  obtain ⟨tr, hget, hpair⟩ := hentry
  obtain ⟨hstate, hsus⟩ := Prod.mk.inj hpair
  have harmed := (hdisciplined.entries fourBytes tr hget).needed .inactivity
    ⟨hsus, by rw [hstate]; rfl⟩
  rw [hrun] at harmed
  cases harmed

end Driver

end Receiver
end Cfdp
end Leodos
