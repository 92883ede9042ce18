/-
When the sending machine moves forward only.

The segments that a NAK asks for come back through the handler of the stream, which
goes on from their end.  A run in which no NAK asks for anything, and in which no read
is started beside one that is unanswered, has one stream for each transaction, and it
moves forward.
-/
import Leodos.Cfdp.Sender.Driver

namespace Leodos
namespace Cfdp
namespace Sender

open Spp Container Transition

def TransactionState.rank : TransactionState → Nat
  | .sendingFileData => 0
  | .waitingForChecksum => 1
  | .waitingForEofAck => 2
  | .waitingForFinishedPdu => 3

/-- `tr'` is not behind `tr`. -/
structure Onward (tr tr' : Transaction) : Prop where
  progress : tr.progress ≤ tr'.progress
  state : tr.state.rank ≤ tr'.state.rank

theorem Onward.refl (tr : Transaction) : Onward tr tr := ⟨Nat.le_refl _, Nat.le_refl _⟩

/-- One stream at most is outstanding, at the progress of the transaction. -/
def Streams (t : TransactionId) (tr : Transaction) (l : List Request) : Prop :=
  match tr.state with
  | .sendingFileData =>
      l = [] ∨ (∃ endOffset, l = [.read t tr.progress endOffset]) ∨ l = [.checksum t]
  | .waitingForChecksum => False
  | .waitingForEofAck | .waitingForFinishedPdu => l = []

structure Aligned (t : TransactionId) (tr : Transaction) (l : List Request) : Prop where
  streams : Streams t tr l
  offset : tr.progress < UInt64.size
  size : tr.config.fileSize < UInt64.size

theorem streams_of_state {t : TransactionId} {tr tr' : Transaction} {l : List Request}
    (hstate : tr'.state = tr.state) (hprogress : tr'.progress = tr.progress)
    (h : Streams t tr l) : Streams t tr' l := by
  unfold Streams at h ⊢
  rw [hstate, hprogress]
  exact h

theorem nil_of_rank {t : TransactionId} {tr : Transaction} {l : List Request}
    (h : Streams t tr l) (hrank : 0 < tr.state.rank) : l = [] := by
  unfold Streams at h
  cases hstate : tr.state with
  | sendingFileData =>
    rw [hstate] at hrank
    cases hrank
  | waitingForChecksum =>
    rw [hstate] at h
    exact h.elim
  | waitingForEofAck =>
    rw [hstate] at h
    exact h
  | waitingForFinishedPdu =>
    rw [hstate] at h
    exact h

/-- What a straight event must not be. -/
def Straying (tr : Transaction) (l : List Request) : Event → Prop
  | .pduReceived _ pdu =>
      ∃ nak, pdu.variant = .ok (.nak nak) ∧ tr.suspended = false ∧ nak.segmentRequests ≠ []
  | .resumeRequest _ => tr.suspended = true ∧ tr.state = .sendingFileData ∧ l ≠ []
  | _ => False

theorem aligned_call {t : TransactionId} {tr tr' : Transaction} {l : List Request}
    (ha : Aligned t tr l) {e : Event} (he : e.external = true) (hok : ¬ Straying tr l e)
    {actions : List Action} (h : Change t tr e (some tr') actions) :
    Aligned t tr' (l ++ actions.flatMap Action.requests) ∧ Onward tr tr' := by
  have hkeep : ∀ (tr'' : Transaction) (acts : List Action), acts.flatMap Action.requests = [] →
      tr''.state = tr.state → tr''.progress = tr.progress → tr''.config = tr.config →
        Aligned t tr'' (l ++ acts.flatMap Action.requests) ∧ Onward tr tr'' := by
    intro tr'' acts hacts hstate hprogress hconfig
    rw [hacts, List.append_nil]
    refine ⟨⟨streams_of_state hstate hprogress ha.streams, ?_, ?_⟩, ?_, ?_⟩
    · rw [hprogress]
      exact ha.offset
    · rw [hconfig]
      exact ha.size
    · exact Nat.le_of_eq hprogress.symm
    · exact Nat.le_of_eq (congrArg TransactionState.rank hstate.symm)
  cases h with
  | prompt ty hl =>
    rcases hl with rfl | rfl
    · exact hkeep _ _ rfl rfl rfl rfl
    · exact hkeep _ _ rfl rfl rfl rfl
  | resumeSending htrue hstate =>
    have hnil : l = [] := not_not.1 fun hne => hok ⟨htrue, hstate, hne⟩
    refine ⟨⟨?_, ha.offset, ha.size⟩, Nat.le_refl _, Nat.le_refl _⟩
    unfold Streams
    dsimp only
    rw [hstate, hnil]
    exact Or.inr (Or.inl ⟨_, rfl⟩)
  | resumeEof seconds c htrue hstate hsum =>
    exact hkeep _ _ rfl hstate.symm rfl rfl
  | resumeChecksum htrue hstate =>
    have hfalse := ha.streams
    unfold Streams at hfalse
    rw [hstate] at hfalse
    exact hfalse.elim
  | acked pdu hstate =>
    have hnil := nil_of_rank ha.streams (by rw [hstate]; decide)
    refine ⟨⟨?_, ha.offset, ha.size⟩, Nat.le_refl _, ?_⟩
    · rw [hnil]
      rfl
    · rw [hstate]
      exact Nat.le_succ 2
  | nak pdu nak hvar hrun =>
    have hseg : nak.segmentRequests = [] := not_not.1 fun hne => hok ⟨nak, hvar, hrun, hne⟩
    exact hkeep _ _ (by simp [Action.requests, hseg]) rfl rfl rfl
  | dropped => cases he
  | data => cases he
  | checksum => cases he
  | ackRetry => cases he
  | ackIdle => cases he
  | inactive => cases he
  | otherTimer => cases he
  | _ => exact hkeep _ _ rfl rfl rfl rfl

theorem answers_read {d : Driver} {t : TransactionId} {startOffset endOffset : Nat} {e : Event}
    (h : d.Answers (.read t startOffset endOffset) e) :
    ∃ data, d.Reads t startOffset endOffset data ∧ e = .dataSegmentReady t data startOffset := by
  cases h with
  | read hreads => exact ⟨_, hreads, rfl⟩

theorem aligned_answer {t : TransactionId} {tr tr' : Transaction} {l : List Request}
    (ha : Aligned t tr l) {d : Driver} (hget : d.machine.transactions.get t = some tr)
    {r : Request} (hr : r ∈ l) {e : Event} (he : d.Answers r e) {actions : List Action}
    (h : Change t tr e (some tr') actions) :
    Aligned t tr' (l.erase r ++ actions.flatMap Action.requests) ∧ Onward tr tr' := by
  -- something is outstanding, so the stream is not over, and it is all that is
  have hstate : tr.state = .sendingFileData := by
    by_contra hne
    have hrank : 0 < tr.state.rank := by
      cases hs : tr.state with
      | sendingFileData => exact absurd hs hne
      | _ => exact Nat.succ_pos _
    rw [nil_of_rank ha.streams hrank] at hr
    cases hr
  have hone : l = [r] ∧ ((∃ endOffset, r = .read t tr.progress endOffset) ∨ r = .checksum t) := by
    have hstreams := ha.streams
    unfold Streams at hstreams
    rw [hstate] at hstreams
    rcases hstreams with rfl | ⟨endOffset, rfl⟩ | rfl
    · cases hr
    · rw [List.mem_singleton.1 hr]
      exact ⟨rfl, Or.inl ⟨endOffset, rfl⟩⟩
    · rw [List.mem_singleton.1 hr]
      exact ⟨rfl, Or.inr rfl⟩
  obtain ⟨rfl, hform⟩ := hone
  rw [List.erase_cons_head]
  have hrest : ∀ tr'' : Transaction, tr''.state = tr.state → Streams t tr'' [] := by
    intro tr'' hs
    unfold Streams
    rw [hs, hstate]
    exact Or.inl rfl
  rcases hform with ⟨endOffset, rfl⟩ | rfl
  · obtain ⟨data, hreads, rfl⟩ := answers_read he
    have hlen := hreads tr hget
    cases h with
    | dropped _ _ htrue => exact ⟨⟨hrest _ rfl, ha.offset, ha.size⟩, Onward.refl tr⟩
    | data _ _ hrun =>
      have hoffset := ha.offset
      have hsize := ha.size
      have hadd : wrappingAdd tr.progress data.length = tr.progress + data.length :=
        wrappingAdd_of_lt (by omega)
      refine ⟨⟨?_, Nat.mod_lt _ (Nat.two_pow_pos 64), ha.size⟩, ?_, Nat.le_refl _⟩
      · rw [requests_data, List.nil_append]
        unfold Streams
        dsimp only
        rw [hstate]
        split_ifs
        · exact Or.inr (Or.inr rfl)
        · exact Or.inr (Or.inl ⟨_, rfl⟩)
      · show tr.progress ≤ wrappingAdd tr.progress data.length
        omega
  · cases he with
    | checksum c =>
      cases h with
      | checksum seconds c =>
        refine ⟨⟨rfl, ha.offset, ha.size⟩, Nat.le_refl _, ?_⟩
        rw [hstate]
        exact Nat.zero_le _

theorem aligned_expire {t : TransactionId} {tr tr' : Transaction} {l : List Request}
    (ha : Aligned t tr l) {ty : TimerType} {actions : List Action}
    (h : Change t tr (.timerExpired t ty) (some tr') actions) :
    Aligned t tr' (l ++ actions.flatMap Action.requests) ∧ Onward tr tr' := by
  cases h with
  | ackRetry seconds c hlt hstate hsum =>
    have hnil := nil_of_rank ha.streams (by rw [hstate]; decide)
    refine ⟨⟨?_, ha.offset, ha.size⟩, Nat.le_refl _, ?_⟩
    · rw [hnil]
      rfl
    · exact Nat.le_of_eq (congrArg TransactionState.rank hstate)
  | ackIdle hlt hidle =>
    rw [List.flatMap_nil, List.append_nil]
    exact ⟨⟨streams_of_state rfl rfl ha.streams, ha.offset, ha.size⟩, Nat.le_refl _, Nat.le_refl _⟩
  | inactive hstate =>
    rw [List.flatMap_nil, List.append_nil]
    exact ⟨ha, Onward.refl tr⟩
  | otherTimer hack hinact =>
    rw [List.flatMap_nil, List.append_nil]
    exact ⟨ha, Onward.refl tr⟩

/-! ## Every run -/

namespace Driver

/-- No NAK asks a running transaction for segments, nothing that is suspended in the
middle of the stream is resumed before its last read is answered, and no identifier is
used again while it is in use. -/
def Straight (d : Driver) : Move → Prop
  | .call (.putRequest ..) =>
      d.machine.transactions.get d.machine.nextId = none ∧
        requestsOf d.machine.nextId d.unanswered = []
  | .call e => ∀ t tr, e.transactionId? = some t → d.machine.transactions.get t = some tr →
      ¬ Straying tr (requestsOf t d.unanswered) e
  | _ => True

structure Single (d : Driver) : Prop where
  proper : d.machine.Proper
  aligned : ∀ t tr, d.machine.transactions.get t = some tr →
    Aligned t tr (requestsOf t d.unanswered)

/-- `d'` is a single-stream state that no transaction of `d` has gone back to. -/
structure Advances (d d' : Driver) : Prop where
  single : d'.Single
  onward : ∀ t tr tr', d.machine.transactions.get t = some tr →
    d'.machine.transactions.get t = some tr' → Onward tr tr'

theorem single_initial (id : EntityId) (ackTimeoutSecs keepAliveLimit : Nat) :
    (initial id ackTimeoutSecs keepAliveLimit).Single where
  proper := SenderMachine.proper_new _ _ _
  aligned t tr h := by cases h

theorem advances_perform {d w : Driver} (h : d.Single) (hm : w.machine = d.machine)
    {t : TransactionId} (hother : ∀ t', t' ≠ t → w.view t' = d.view t') {e : Event}
    (hid : e.transactionId? = some t)
    (hmine : ∀ tr tr' l, d.machine.transactions.get t = some tr → Change t tr e (some tr') l →
      Aligned t tr' ((w.view t).unanswered ++ l.flatMap Action.requests) ∧ Onward tr tr') :
    d.Advances (w.perform e) := by
  have hproper : w.machine.Proper := by
    rw [hm]
    exact h.proper
  have hself : ∀ tr tr', d.machine.transactions.get t = some tr →
      (w.perform e).machine.transactions.get t = some tr' →
        Aligned t tr' (requestsOf t (w.perform e).unanswered) ∧ Onward tr tr' := by
    intro tr tr' hget hget'
    have hentry : (w.view t).entry = some tr := by
      rw [← hget, ← hm]
      rfl
    obtain ⟨o, l, hchange, heq⟩ := view_perform_change hproper hentry hid
    obtain rfl : o = some tr' := entry_of_view heq hget'
    have hreq : requestsOf t (w.perform e).unanswered =
        (w.view t).unanswered ++ l.flatMap Action.requests := congrArg View.unanswered heq
    rw [hreq]
    exact hmine tr tr' l hget hchange
  refine ⟨⟨perform_proper hproper e, fun t' tr' hget' => ?_⟩, fun t' tr tr' hget hget' => ?_⟩
  · by_cases hne : t' ≠ t
    · have hview : (w.perform e).view t' = d.view t' := by
        rw [view_perform_of_ne hproper (by rw [target_of hid]; exact hne), hother t' hne]
      have hreq : requestsOf t' (w.perform e).unanswered = requestsOf t' d.unanswered :=
        congrArg View.unanswered hview
      rw [hreq]
      exact h.aligned t' tr' (entry_of_view hview hget')
    · obtain rfl := not_not.1 hne
      cases hget : d.machine.transactions.get t' with
      | none =>
        have hnone : w.machine.transactions.get t' = none := by rw [hm, hget]
        rw [view_perform_absent hnone hid, hnone] at hget'
        cases hget'
      | some tr => exact (hself tr tr' hget hget').1
  · by_cases hne : t' ≠ t
    · have hview : (w.perform e).view t' = d.view t' := by
        rw [view_perform_of_ne hproper (by rw [target_of hid]; exact hne), hother t' hne]
      cases Option.some.inj (hget.symm.trans (entry_of_view hview hget'))
      exact Onward.refl tr
    · obtain rfl := not_not.1 hne
      exact (hself tr tr' hget hget').2

theorem advances_put {d : Driver} (h : d.Single) (source destination : FileId)
    (destinationId : EntityId) (fileSize : UInt64) (checksumType : ChecksumType)
    (hfresh : d.machine.transactions.get d.machine.nextId = none)
    (hnone : requestsOf d.machine.nextId d.unanswered = []) :
    d.Advances
      (d.perform (.putRequest source destination destinationId fileSize checksumType)) := by
  have hput := fun t => view_perform_put (t := t) h.proper source destination destinationId
    fileSize checksumType
  refine ⟨⟨perform_proper h.proper _, fun t tr' hget' => ?_⟩, fun t tr tr' hget hget' => ?_⟩
  · rcases hput t with heq | ⟨rfl, heq⟩
    · rw [show requestsOf t _ = requestsOf t d.unanswered from congrArg View.unanswered heq]
      exact h.aligned t tr' (entry_of_view heq hget')
    · cases entry_of_view heq hget'
      rw [show requestsOf d.machine.nextId _ = _ from congrArg View.unanswered heq,
        View.execute_unanswered, show (d.view d.machine.nextId).unanswered = [] from hnone]
      exact ⟨Or.inr (Or.inl ⟨_, rfl⟩), Nat.two_pow_pos 64, fileSize.toNat_lt⟩
  · rcases hput t with heq | ⟨rfl, heq⟩
    · cases Option.some.inj (hget.symm.trans (entry_of_view heq hget'))
      exact Onward.refl tr
    · rw [hfresh] at hget
      cases hget

theorem advances_step {d d' : Driver} {mv : Move} (h : d.Single) (hok : d.Straight mv)
    (hstep : Step d mv d') : d.Advances d' := by
  cases hstep with
  | @call e he =>
    cases hid : e.transactionId? with
    | none =>
      cases e with
      | putRequest source destination destinationId fileSize checksumType =>
        exact advances_put h source destination destinationId fileSize checksumType hok.1 hok.2
      | _ => cases hid
    | some t =>
      refine advances_perform h rfl (fun _ _ => rfl) hid fun tr tr' l hget hchange => ?_
      refine aligned_call (h.aligned t tr hget) he ?_ hchange
      cases e with
      | putRequest => cases hid
      | _ => exact hok t tr hid hget
  | @answer r e hr he =>
    refine advances_perform (w := { d with unanswered := d.unanswered.erase r }) h rfl
      (fun t' hne => view_take_of_ne d hne) (transactionId_of_answers he)
      fun tr tr' l hget hchange => ?_
    rw [view_take_self]
    exact aligned_answer (h.aligned _ tr hget) hget (List.mem_filter.2 ⟨hr, decide_eq_true rfl⟩)
      he hchange
  | @expire t ty hty =>
    refine advances_perform (e := .timerExpired t ty)
      (w := { d with timers := d.timers.filter fun x => x ≠ (t, ty) }) h rfl
      (fun t' hne => view_fire_of_ne d hne ty) rfl fun tr tr' l hget hchange => ?_
    exact aligned_expire (h.aligned t tr hget) hchange

theorem single_reaches {d : Driver} (h : system.Reaches Straight d) : d.Single := by
  refine h.invariant Single ?_ fun d mv d' hinv hok hstep => (advances_step hinv hok hstep).single
  rintro d ⟨id, ackTimeoutSecs, keepAliveLimit, rfl⟩
  exact single_initial id ackTimeoutSecs keepAliveLimit

/-! ## Never backwards -/

structure NeverBack (d : Driver) (mv : Move) (d' : Driver) : Prop where
  onward : ∀ t tr tr', d.machine.transactions.get t = some tr →
    d'.machine.transactions.get t = some tr' → Onward tr tr'
  /-- A NAK has its segments read, each once. -/
  asked : ∀ t pdu nak tr, mv = .call (.pduReceived t pdu) → pdu.variant = .ok (.nak nak) →
    d.machine.transactions.get t = some tr → tr.suspended = false →
    requestsOf t d'.unanswered = requestsOf t d.unanswered ++
      nak.segmentRequests.map fun s => .segment t s.startOffset s.endOffset
  /-- A segment that was asked for is sent, and nothing else happens. -/
  repaired : ∀ t startOffset endOffset e tr, mv = .answer (.segment t startOffset endOffset) e →
    d.machine.transactions.get t = some tr → tr.suspended = false →
    ∃ data, (d.machine.handle e).delivered =
      [.sendFileData t tr.config.destinationId startOffset data]
  /-- A checksum leads to the first EOF. -/
  ended : ∀ t e tr, mv = .answer (.checksum t) e → d.machine.transactions.get t = some tr →
    tr.state.rank < TransactionState.waitingForEofAck.rank
  /-- A Finished PDU ends a transaction whose EOF was acknowledged. -/
  accepted : ∀ t pdu fin c tr, mv = .call (.pduReceived t pdu) →
    pdu.variant = .ok (.finished fin) → fin.conditionCode = .ok c →
    d.machine.transactions.get t = some tr → tr.state = .waitingForFinishedPdu →
    (d.machine.handle (.pduReceived t pdu)).result = .ok () ∧
      d'.machine.transactions.get t = none

theorem finished_accepted {m : SenderMachine} {t : TransactionId} {tr : Transaction}
    (hp : m.Proper) (hget : m.transactions.get t = some tr)
    (hstate : tr.state = .waitingForFinishedPdu) {pdu : Pdu} {fin : FinishedPdu}
    (hvar : pdu.variant = .ok (.finished fin)) {c : ConditionCode}
    (hc : fin.conditionCode = .ok c) :
    (m.handle (.pduReceived t pdu)).result = .ok () ∧
      (m.handle (.pduReceived t pdu)).machine.transactions.get t = none := by
  have hterm := SenderMachine.terminate_eq (hp t tr hget) hget c
  have hstay : ¬ tr.state ≠ .waitingForFinishedPdu := not_not.2 hstate
  simp only [SenderMachine.handle, SenderMachine.handlePduReceived, hget, hvar, Outcome.attempt,
    SenderMachine.handleFinished, if_neg hstay, hc, hterm]
  exact ⟨rfl, LinearMap.get_remove_self _ _⟩

theorem nak_asks {d : Driver} (hp : d.machine.Proper) {t : TransactionId} {tr : Transaction}
    (hget : d.machine.transactions.get t = some tr) (hsus : tr.suspended = false) {pdu : Pdu}
    {nak : NakPdu} (hvar : pdu.variant = .ok (.nak nak)) :
    requestsOf t (d.perform (.pduReceived t pdu)).unanswered = requestsOf t d.unanswered ++
      nak.segmentRequests.map fun s => .segment t s.startOffset s.endOffset := by
  have hview := view_perform_self (t := t) (e := .pduReceived t pdu) hp rfl
  have hdelivered : (d.machine.handle (.pduReceived t pdu)).delivered =
      [.stopTimer t (some .ack), .readDataSegmentBatch t nak.segmentRequests] := by
    simp only [SenderMachine.handle, SenderMachine.handlePduReceived, hget, hvar, Outcome.attempt,
      hsus, SenderMachine.handleNak]
    rfl
  rw [hdelivered] at hview
  have hreq : requestsOf t (d.perform (.pduReceived t pdu)).unanswered = _ :=
    (congrArg View.unanswered hview).trans (View.execute_unanswered ..)
  rw [hreq]
  simp only [List.flatMap_cons, List.flatMap_nil, Action.requests, List.nil_append, List.append_nil]
  rfl

/-- The answer for a segment of a NAK sets the progress to the end of the segment and renews the
stream from there, or at the end of the file the checksum. -/
theorem segment_answered {d d' : Driver} {t : TransactionId} {startOffset endOffset : Nat}
    {e : Event} {tr : Transaction} (hget : d.machine.transactions.get t = some tr)
    (hsus : tr.suspended = false)
    (hstep : Step d (.answer (.segment t startOffset endOffset) e) d') :
    ∃ data : Bytes, data.length = min endOffset tr.config.fileSize - startOffset ∧
      (d.machine.handle e).delivered = [.sendFileData t tr.config.destinationId startOffset data,
        continueAt t tr.config (wrappingAdd startOffset data.length)] ∧
      d'.machine.transactions.get t =
        some { tr with progress := wrappingAdd startOffset data.length } := by
  cases hstep with
  | answer hr he =>
    cases he with
    | @segment _ _ _ data hreads =>
      have hhandle : d.machine.handle (.dataSegmentReady t data startOffset) = .ok
          (d.machine.update t fun tr => { tr with progress := wrappingAdd startOffset data.length })
          [.sendFileData t tr.config.destinationId startOffset data,
            continueAt t tr.config (wrappingAdd startOffset data.length)] := by
        simp only [SenderMachine.handle, SenderMachine.handleDataSegmentReady, hget, hsus]
        rfl
      refine ⟨data, hreads tr hget, ?_, ?_⟩
      · rw [hhandle]
        rfl
      · show (d.machine.handle _).machine.transactions.get t = _
        rw [hhandle]
        exact (SenderMachine.get_update_self _ _ _).trans (congrArg _ hget)

theorem segment_answered_back {d d' : Driver} {t : TransactionId} {startOffset endOffset : Nat}
    {e : Event} {tr : Transaction} (hget : d.machine.transactions.get t = some tr)
    (hsus : tr.suspended = false)
    (hstep : Step d (.answer (.segment t startOffset endOffset) e) d') :
    ¬ NeverBack d (.answer (.segment t startOffset endOffset) e) d' := by
  intro h
  obtain ⟨data, -, htwo, -⟩ := segment_answered hget hsus hstep
  obtain ⟨data', hone⟩ := h.repaired t startOffset endOffset e tr rfl hget hsus
  have hlength : 2 = 1 := congrArg List.length (htwo.symm.trans hone)
  omega

theorem state_of_request {d : Driver} (h : d.Single) {r : Request} (hr : r ∈ d.unanswered)
    {tr : Transaction} (hget : d.machine.transactions.get r.transactionId = some tr) :
    tr.state = .sendingFileData ∧
      ∀ startOffset endOffset, r ≠ .segment r.transactionId startOffset endOffset := by
  have hstreams := (h.aligned r.transactionId tr hget).streams
  have hmem : r ∈ requestsOf r.transactionId d.unanswered :=
    List.mem_filter.2 ⟨hr, decide_eq_true rfl⟩
  cases hstate : tr.state with
  | sendingFileData =>
    refine ⟨rfl, fun startOffset endOffset heq => ?_⟩
    unfold Streams at hstreams
    rw [hstate] at hstreams
    rcases hstreams with hnil | ⟨endOffset', hread⟩ | hsum
    · rw [hnil] at hmem
      cases hmem
    · rw [hread] at hmem
      cases (List.mem_singleton.1 hmem).symm.trans heq
    · rw [hsum] at hmem
      cases (List.mem_singleton.1 hmem).symm.trans heq
  | _ =>
    rw [nil_of_rank hstreams (by rw [hstate]; exact Nat.succ_pos _)] at hmem
    cases hmem

/-- In a run of straight moves no move goes back. -/
theorem straight_never_back {d d' : Driver} {mv : Move} (h : system.Reaches Straight d)
    (hok : d.Straight mv) (hstep : Step d mv d') : NeverBack d mv d' := by
  have hsingle := single_reaches h
  refine ⟨(advances_step hsingle hok hstep).onward, ?_, ?_, ?_, ?_⟩
  · rintro t pdu nak tr rfl hvar hget hsus
    cases hstep with
    | call he => exact nak_asks hsingle.proper hget hsus hvar
  · rintro t startOffset endOffset e tr rfl hget -
    cases hstep with
    | answer hr he => exact absurd rfl ((state_of_request hsingle hr hget).2 startOffset endOffset)
  · rintro t e tr rfl hget
    cases hstep with
    | answer hr he =>
      rw [(state_of_request hsingle hr hget).1]
      decide
  · rintro t pdu fin c tr rfl hvar hc hget hstate
    cases hstep with
    | call he => exact finished_accepted hsingle.proper hget hstate hvar hc

theorem straight_never_back_first_chunk :
    NeverBack requested (.answer (.read threeBytes 0 2048)
      (.dataSegmentReady threeBytes [7, 8, 9] 0)) streamed := by
  have hput : system.Reaches Straight requested :=
    .step (.call (.putRequest ⟨0⟩ ⟨1⟩ 2 3 .modular)) (.init ⟨1, 10, 4096, rfl⟩) ⟨rfl, rfl⟩
      (Step.call rfl)
  exact straight_never_back hput trivial (Step.answer (by decide) (.read reads_threeBytes))

/-! ## A NAK after the acknowledgement of the EOF -/

section

def acknowledged : Driver :=
  ended.perform (.pduReceived threeBytes ⟨false, .ok 2, .ok (.ack ⟨0x40⟩)⟩)

/-- The first byte is asked for again. -/
def renak : Driver :=
  acknowledged.perform (.pduReceived threeBytes ⟨false, .ok 2, .ok (.nak (.small [(0, 1)]))⟩)

def repeated : Driver :=
  perform { renak with unanswered := renak.unanswered.erase (.segment threeBytes 0 1) }
    (.dataSegmentReady threeBytes [7] 0)

theorem reachable_renak : system.Reachable renak := by
  have hput : system.Reachable requested :=
    .step _ (.init ⟨1, 10, 4096, rfl⟩) trivial (Step.call rfl)
  have hdata : system.Reachable streamed :=
    .step _ hput trivial (Step.answer (by decide) (.read reads_threeBytes))
  have hend : system.Reachable ended :=
    .step _ hdata trivial (Step.answer (by decide) (.checksum 24))
  have hack : system.Reachable acknowledged := .step _ hend trivial (Step.call rfl)
  exact .step _ hack trivial (Step.call rfl)

/-- The progress falls from three bytes to one. -/
theorem nak_moves_back :
    ¬ ∀ d mv d', system.Reachable d → Step d mv d' → NeverBack d mv d' := by
  intro h
  have hbefore : (renak.machine.transactions.get threeBytes).map
      (fun tr => (tr.progress, tr.config.fileSize)) = some (3, 3) := by decide
  have hafter : (repeated.machine.transactions.get threeBytes).map (fun tr => tr.progress) =
      some 1 := by decide
  obtain ⟨tr, htr, hbefore⟩ := Option.map_eq_some_iff.1 hbefore
  obtain ⟨tr', htr', hprogress'⟩ := Option.map_eq_some_iff.1 hafter
  injection hbefore with hprogress hsize
  have hreads : renak.Reads threeBytes 0 1 [7] := by
    intro tr₁ htr₁
    cases Option.some.inj (htr.symm.trans htr₁)
    rw [hsize]
    rfl
  have hstep : Step renak (.answer (.segment threeBytes 0 1)
      (.dataSegmentReady threeBytes [7] 0)) repeated :=
    .answer (by decide) (.segment hreads)
  have honward := ((h _ _ _ reachable_renak hstep).onward threeBytes tr tr' htr htr').progress
  omega

end

end Driver

end Sender
end Cfdp
end Leodos
