/-
How the sending machine runs down when only answers and timer expiries happen.

The reads that are outstanding for a transaction move towards the end of the file, and
the acknowledgement timer expires a bounded number of times.
-/
import Leodos.Cfdp.Sender.Waiting

namespace Leodos
namespace Cfdp
namespace Sender

open Spp Container Transition

/-! ## What is outstanding -/

/-- How many more answers a request can cause for a file of `fileSize` bytes, itself
included. -/
def Request.weight (fileSize : Nat) : Request → Nat
  | .read _ startOffset _ => fileSize - startOffset + 2
  | .segment _ startOffset _ => fileSize - startOffset + 3
  | .checksum _ => 1

def weigh (fileSize : Nat) : List Request → Nat
  | [] => 0
  | r :: l => r.weight fileSize + weigh fileSize l

theorem weigh_append (fileSize : Nat) (l l' : List Request) :
    weigh fileSize (l ++ l') = weigh fileSize l + weigh fileSize l' := by
  induction l with
  | nil => exact (Nat.zero_add _).symm
  | cons r l ih => rw [List.cons_append, weigh, weigh, ih, Nat.add_assoc]

theorem weigh_perm (fileSize : Nat) {l l' : List Request} (h : l.Perm l') :
    weigh fileSize l = weigh fileSize l' := by
  induction h with
  | nil => rfl
  | cons r _ ih => rw [weigh, weigh, ih]
  | swap r r' l => exact Nat.add_left_comm ..
  | trans _ _ ih ih' => exact ih.trans ih'

theorem weigh_erase (fileSize : Nat) {l : List Request} {r : Request} (h : r ∈ l) :
    weigh fileSize (l.erase r) + r.weight fileSize = weigh fileSize l := by
  rw [weigh_perm fileSize (List.perm_cons_erase h), weigh, Nat.add_comm]

/-- How many more expiries the entry `tr` survives, plus one. -/
def View.lives (v : View) (tr : Transaction) : Nat :=
  tr.ackLimit + 1 - tr.ackRetries + if .inactivity ∈ v.armed then 1 else 0

theorem weight_continue {t : TransactionId} {tr : Transaction} (hs : Sound tr) {r : Request}
    {data : Bytes} {startOffset endOffset : Nat}
    (hr : r = .read t startOffset endOffset ∨ r = .segment t startOffset endOffset)
    (hproper : r.Proper) (hdata : data.length = min endOffset tr.config.fileSize - startOffset) :
    weigh tr.config.fileSize
        (if wrappingAdd startOffset data.length ≥ tr.config.fileSize then [.checksum t]
        else [.read t (wrappingAdd startOffset data.length)
          (wrappingAdd (wrappingAdd startOffset data.length) FILE_DATA_CHUNK_SIZE)]) <
      r.weight tr.config.fileSize := by
  have hsmall := hs.small
  have hchunk : FILE_DATA_CHUNK_SIZE = 2048 := rfl
  have hstart : startOffset < UInt64.size := by
    rcases hr with rfl | rfl
    · exact hproper.1
    · exact hproper
  have hadd : wrappingAdd startOffset data.length = startOffset + data.length := by
    refine wrappingAdd_of_lt ?_
    omega
  rw [hadd]
  split_ifs with hdone
  · rcases hr with rfl | rfl <;> simp [weigh, Request.weight]
  · rcases hr with rfl | rfl
    · -- a chunk that starts inside the file holds a byte of it
      have hend : endOffset = startOffset + FILE_DATA_CHUNK_SIZE := by
        rw [hproper.2]
        exact wrappingAdd_of_lt (by omega)
      simp only [weigh, Request.weight]
      omega
    · simp only [weigh, Request.weight]
      omega

/-! ## One move -/

theorem answer_weighs {d : Driver} (h : d.Inv) {r : Request} {e : Event}
    (hr : r ∈ (d.view r.transactionId).unanswered) (he : d.Answers r e) {tr tr' : Transaction}
    (hget : d.machine.transactions.get r.transactionId = some tr) (hsus : tr.suspended = false)
    {l : List Action} (hchange : Change r.transactionId tr e (some tr') l) :
    (((d.view r.transactionId).take r).execute (some tr') l).lives tr' =
        (d.view r.transactionId).lives tr ∧
      weigh tr.config.fileSize (((d.view r.transactionId).take r).execute (some tr') l).unanswered <
        weigh tr.config.fileSize (d.view r.transactionId).unanswered := by
  have hinv := h.view r.transactionId
  have herase := weigh_erase tr.config.fileSize hr
  have hproper := hinv.requests r hr
  have hs := hinv.sound tr hget
  cases hchange with
  | dropped data offset htrue =>
    rw [hsus] at htrue
    cases htrue
  | data data offset hrun =>
    have hread : (∃ endOffset, data.length = min endOffset tr.config.fileSize - offset ∧
        (r = .read r.transactionId offset endOffset ∨
          r = .segment r.transactionId offset endOffset)) := by
      cases he with
      | read hreads => exact ⟨_, hreads tr hget, Or.inl rfl⟩
      | segment hreads => exact ⟨_, hreads tr hget, Or.inr rfl⟩
    obtain ⟨endOffset, hlen, hform⟩ := hread
    have hless := weight_continue hs hform hproper hlen
    refine ⟨?_, ?_⟩
    · simp only [View.lives, View.execute_armed, List.foldl_cons, List.foldl_nil,
        setArmed_continueAt]
      rfl
    · rw [View.execute_unanswered, requests_data, weigh_append]
      show weigh _ ((d.view r.transactionId).unanswered.erase r) + _ < _
      omega
  | checksum seconds c =>
    refine ⟨?_, ?_⟩
    · simp only [View.lives, View.execute_armed, eofActions, List.foldl_cons, List.foldl_nil,
        Action.setArmed, List.mem_cons]
      simp [View.take]
    · have hpos : 0 < r.weight tr.config.fileSize := by
        cases r <;> exact Nat.succ_pos _
      rw [View.execute_unanswered, weigh_append]
      show weigh _ ((d.view r.transactionId).unanswered.erase r) + 0 < _
      omega
  | _ => cases he

theorem expire_costs {v : View} (hv : v.Inv) {t : TransactionId} {tr tr' : Transaction}
    {ty : TimerType} (hty : ty ∈ v.armed) {l : List Action}
    (hchange : Change t tr (.timerExpired t ty) (some tr') l) :
    ((v.fire ty).execute (some tr') l).lives tr' + 1 ≤ v.lives tr ∧
      ((v.fire ty).execute (some tr') l).unanswered = v.unanswered := by
  cases hchange with
  | ackRetry seconds c hlt hstate hsum =>
    refine ⟨?_, by simp [eofActions, Action.requests, View.fire]⟩
    simp only [View.lives, View.execute_armed, eofActions, List.foldl_cons, List.foldl_nil,
      Action.setArmed, List.mem_cons, View.fire, List.mem_filter]
    simp
    omega
  | ackIdle hlt hidle =>
    refine ⟨?_, by simp [View.fire]⟩
    simp only [View.lives, View.execute_armed, List.foldl_nil, View.fire, List.mem_filter]
    simp
    omega
  | inactive hstate =>
    refine ⟨?_, by simp [View.fire]⟩
    simp only [View.lives, View.execute_armed, List.foldl_nil, View.fire, List.mem_filter, hty]
    simp
  | otherTimer ty hack hinact =>
    rcases hv.timers ty hty with rfl | rfl
    · exact absurd rfl hack
    · exact absurd rfl hinact

/-! ## Many moves -/

def Move.draining : Move → Bool
  | .call _ => false
  | .answer .. | .expire .. => true

def Move.expires (t : TransactionId) : Move → Bool
  | .expire t' _ => t' = t
  | _ => false

def Move.answers (t : TransactionId) : Move → Bool
  | .answer r _ => r.transactionId = t
  | _ => false

theorem suspended_drain {t : TransactionId} {tr tr' : Transaction} {e : Event}
    (he : e.external = false) {l : List Action} (h : Change t tr e (some tr') l) :
    tr'.suspended = tr.suspended := by
  cases h <;> first | rfl | cases he

namespace Driver

theorem absent_perform {d : Driver} (hp : d.machine.Proper) {e : Event} (he : e.external = false)
    {t : TransactionId} (hget : d.machine.transactions.get t = none) :
    (d.perform e).machine.transactions.get t = none := by
  by_cases hne : t ≠ d.machine.target e
  · exact (SenderMachine.handle_others hp e hne).trans hget
  · have ht := not_not.1 hne
    cases hid : e.transactionId? with
    | none =>
      cases e with
      | putRequest => cases he
      | _ => cases hid
    | some t' =>
      have htt : t = t' := ht.trans (target_of hid)
      rw [view_perform_absent (htt ▸ hget) hid]
      exact hget

theorem external_of_answers {d : Driver} {r : Request} {e : Event} (h : d.Answers r e) :
    e.external = false := by
  cases h <;> rfl

theorem absent_step {d d' : Driver} (h : d.Inv) {mv : Move} (hmv : mv.draining = true)
    (hstep : Step d mv d') {t : TransactionId} (hget : d.machine.transactions.get t = none) :
    d'.machine.transactions.get t = none := by
  cases hstep with
  | call he => cases hmv
  | answer hr he =>
    exact absent_perform (d := { d with unanswered := _ }) h.proper (external_of_answers he) hget
  | expire hty => exact absent_perform (d := { d with timers := _ }) h.proper rfl hget

/-- What a draining move costs the transaction `t`, if it survives. -/
theorem drain_step {d d' : Driver} (h : d.Inv) {mv : Move} (hmv : mv.draining = true)
    (hstep : Step d mv d') {t : TransactionId} {tr tr' : Transaction}
    (hget : d.machine.transactions.get t = some tr) (hsus : tr.suspended = false)
    (hget' : d'.machine.transactions.get t = some tr') :
    tr'.suspended = false ∧ tr'.config = tr.config ∧
      (d'.view t).lives tr' + (if mv.expires t then 1 else 0) ≤ (d.view t).lives tr ∧
      weigh tr.config.fileSize (d'.view t).unanswered + (if mv.answers t then 1 else 0) ≤
        weigh tr.config.fileSize (d.view t).unanswered := by
  cases hstep with
  | call he => cases hmv
  | @answer r e hr he =>
    obtain ⟨w, hw⟩ : ∃ w : Driver, w = { d with unanswered := d.unanswered.erase r } := ⟨_, rfl⟩
    have hproper : w.machine.Proper := by rw [hw]; exact h.proper
    have hid := transactionId_of_answers he
    rw [← hw] at hget' ⊢
    by_cases hne : t ≠ r.transactionId
    · have hview : (w.perform e).view t = d.view t := by
        rw [view_perform_of_ne hproper (by rw [target_of hid]; exact hne), hw,
          view_take_of_ne d hne]
      cases Option.some.inj (hget.symm.trans (entry_of_view hview hget'))
      have hno : (Move.answer r e).answers t = false := decide_eq_false (Ne.symm hne)
      rw [hview, hno]
      exact ⟨hsus, rfl, Nat.le_refl _, Nat.le_refl _⟩
    · obtain rfl := not_not.1 hne
      have hentry : (w.view r.transactionId).entry = some tr := by rw [hw]; exact hget
      obtain ⟨o, l, hchange, hview⟩ := view_perform_change hproper hentry hid
      obtain rfl : o = some tr' := entry_of_view hview hget'
      have hmem : r ∈ (d.view r.transactionId).unanswered :=
        List.mem_filter.2 ⟨hr, decide_eq_true rfl⟩
      obtain ⟨hlives, hweigh⟩ := answer_weighs h hmem he hget hsus hchange
      have hyes : (Move.answer r e).answers r.transactionId = true := decide_eq_true rfl
      rw [hview, hw, view_take_self, hyes]
      refine ⟨?_, hchange.config, Nat.le_of_eq hlives, hweigh⟩
      exact (suspended_drain (external_of_answers he) hchange).trans hsus
  | @expire t' ty hty =>
    obtain ⟨w, hw⟩ : ∃ w : Driver, w = { d with timers := d.timers.filter fun x => x ≠ (t', ty) } :=
      ⟨_, rfl⟩
    have hproper : w.machine.Proper := by rw [hw]; exact h.proper
    rw [← hw] at hget' ⊢
    by_cases hne : t ≠ t'
    · have hview : (w.perform (.timerExpired t' ty)).view t = d.view t := by
        rw [view_perform_of_ne hproper hne, hw, view_fire_of_ne d hne]
      cases Option.some.inj (hget.symm.trans (entry_of_view hview hget'))
      have hno : (Move.expire t' ty).expires t = false := decide_eq_false (Ne.symm hne)
      rw [hview, hno]
      exact ⟨hsus, rfl, Nat.le_refl _, Nat.le_refl _⟩
    · obtain rfl := not_not.1 hne
      have hentry : (w.view t).entry = some tr := by rw [hw]; exact hget
      obtain ⟨o, l, hchange, hview⟩ := view_perform_change (e := .timerExpired t ty)
        hproper hentry rfl
      obtain rfl : o = some tr' := entry_of_view hview hget'
      obtain ⟨hlives, hsame⟩ := expire_costs (h.view t) (mem_armedOf.2 hty) hchange
      have hyes : (Move.expire t ty).expires t = true := decide_eq_true rfl
      rw [hview, hw, view_fire_self, hyes, hsame]
      exact ⟨(suspended_drain rfl hchange).trans hsus, hchange.config, hlives, Nat.le_refl _⟩

/-- Runs of answers and expiries. -/
inductive Drains : Driver → List Move → Driver → Prop where
  | nil {d : Driver} : Drains d [] d
  | cons {d d' d'' : Driver} {mv : Move} {mvs : List Move} : mv.draining = true → Step d mv d' →
      Drains d' mvs d'' → Drains d (mv :: mvs) d''

theorem inv_drains {d d' : Driver} (h : d.Inv) {mvs : List Move} (hd : Drains d mvs d') :
    d'.Inv := by
  induction hd with
  | nil => exact h
  | @cons d d' d'' mv mvs hmv hstep hrest ih =>
    refine ih (inv_step h ?_ hstep)
    cases mv with
    | call e => cases hmv
    | _ => trivial

theorem absent_drains {d d' : Driver} (h : d.Inv) {mvs : List Move} (hd : Drains d mvs d')
    {t : TransactionId} (hget : d.machine.transactions.get t = none) :
    d'.machine.transactions.get t = none := by
  induction hd with
  | nil => exact hget
  | @cons d d' d'' mv mvs hmv hstep hrest ih =>
    exact ih (inv_drains h (.cons hmv hstep .nil)) (absent_step h hmv hstep hget)

theorem drains_bounded {d d' : Driver} (h : d.Inv) {mvs : List Move} (hd : Drains d mvs d')
    {t : TransactionId} {tr tr' : Transaction} (hget : d.machine.transactions.get t = some tr)
    (hsus : tr.suspended = false) (hget' : d'.machine.transactions.get t = some tr') :
    tr'.suspended = false ∧
      (d'.view t).lives tr' + mvs.countP (Move.expires t) ≤ (d.view t).lives tr ∧
      mvs.countP (Move.answers t) ≤ weigh tr.config.fileSize (d.view t).unanswered := by
  induction hd generalizing tr with
  | nil =>
    cases Option.some.inj (hget.symm.trans hget')
    exact ⟨hsus, Nat.le_refl _, Nat.zero_le _⟩
  | @cons d d' d'' mv mvs hmv hstep hrest ih =>
    have hinv := inv_drains h (.cons hmv hstep .nil)
    cases hmid : d'.machine.transactions.get t with
    | none =>
      rw [absent_drains hinv hrest hmid] at hget'
      cases hget'
    | some mid =>
      obtain ⟨hrun, hconfig, hlives, hweigh⟩ := drain_step h hmv hstep hget hsus hmid
      obtain ⟨hrun', hlives', hweigh'⟩ := ih hinv hmid hrun hget'
      rw [hconfig] at hweigh'
      rw [List.countP_cons, List.countP_cons]
      exact ⟨hrun', by omega, by omega⟩

/-! ## No transaction is left hanging -/

/-- Something will wake the transaction `t` up. -/
def Awake (d : Driver) (t : TransactionId) (tr : Transaction) : Prop :=
  (∃ r ∈ d.unanswered, r.transactionId = t) ∨
    (tr.state = .waitingForEofAck ∧ (t, .ack) ∈ d.timers) ∨
    (tr.state = .waitingForFinishedPdu ∧ (t, .inactivity) ∈ d.timers)

theorem awake_of_waits {d : Driver} {t : TransactionId} {tr : Transaction}
    (h : (d.view t).Waits tr) : d.Awake t tr := by
  rcases h with hreq | ⟨hstate, harm⟩ | ⟨hstate, harm⟩
  · obtain ⟨r, hr⟩ := List.exists_mem_of_ne_nil _ hreq
    obtain ⟨hmem, ht⟩ := List.mem_filter.1 hr
    exact Or.inl ⟨r, hmem, of_decide_eq_true ht⟩
  · exact Or.inr (Or.inl ⟨hstate, mem_armedOf.1 harm⟩)
  · exact Or.inr (Or.inr ⟨hstate, mem_armedOf.1 harm⟩)

theorem exists_answer (d : Driver) (r : Request) : ∃ e, d.Answers r e := by
  have hbytes : ∀ t startOffset endOffset, ∃ data, d.Reads t startOffset endOffset data := by
    intro t startOffset endOffset
    cases hget : d.machine.transactions.get t with
    | none => exact ⟨[], fun tr h => by rw [hget] at h; cases h⟩
    | some tr =>
      refine ⟨List.replicate (min endOffset tr.config.fileSize - startOffset) 0, fun tr' h => ?_⟩
      cases Option.some.inj (hget.symm.trans h)
      exact List.length_replicate
  cases r with
  | read t startOffset endOffset =>
    obtain ⟨data, hdata⟩ := hbytes t startOffset endOffset
    exact ⟨_, .read hdata⟩
  | segment t startOffset endOffset =>
    obtain ⟨data, hdata⟩ := hbytes t startOffset endOffset
    exact ⟨_, .segment hdata⟩
  | checksum t => exact ⟨_, .checksum 0⟩

/-- An answer or an expiry of the transaction can happen next. -/
def Movable (d : Driver) (t : TransactionId) : Prop :=
  ∃ mv d', (mv.expires t = true ∨ mv.answers t = true) ∧ Step d mv d'

theorem movable_of_awake {d : Driver} {t : TransactionId} {tr : Transaction} (h : d.Awake t tr) :
    d.Movable t := by
  rcases h with ⟨r, hr, rfl⟩ | ⟨-, harm⟩ | ⟨-, harm⟩
  · obtain ⟨e, he⟩ := exists_answer d r
    exact ⟨.answer r e, _, Or.inr (decide_eq_true rfl), .answer hr he⟩
  · exact ⟨.expire t .ack, _, Or.inl (decide_eq_true rfl), .expire harm⟩
  · exact ⟨.expire t .inactivity, _, Or.inl (decide_eq_true rfl), .expire harm⟩

/-- From here on, as long as only answers and expiries happen: `ackLimit + 2` expiries
remove the transaction, it is given a bounded number of answers before that, and it is
not stuck. -/
def RunsDown (d : Driver) (t : TransactionId) (tr : Transaction) : Prop :=
  ∃ bound, ∀ mvs d', Drains d mvs d' →
    (tr.ackLimit + 2 ≤ mvs.countP (Move.expires t) → d'.machine.transactions.get t = none) ∧
    (d'.machine.transactions.get t ≠ none →
      mvs.countP (Move.answers t) ≤ bound ∧ d'.Movable t)

theorem lives_le (v : View) (tr : Transaction) : v.lives tr ≤ tr.ackLimit + 2 := by
  unfold View.lives
  split_ifs <;> omega

theorem lives_pos {v : View} (hv : v.Inv) {tr : Transaction} (h : v.entry = some tr) :
    1 ≤ v.lives tr := by
  have hle := (hv.sound tr h).retries
  unfold View.lives
  omega

theorem runsDown {d : Driver} (h : d.Inv) {t : TransactionId} {tr : Transaction}
    (hget : d.machine.transactions.get t = some tr) (hsus : tr.suspended = false) :
    d.RunsDown t tr := by
  refine ⟨weigh tr.config.fileSize (d.view t).unanswered, fun mvs d' hd => ⟨fun hexp => ?_,
    fun hsome => ?_⟩⟩
  · cases hget' : d'.machine.transactions.get t with
    | none => rfl
    | some tr' =>
      -- it would have one life left after using up all it had
      obtain ⟨-, hlives, -⟩ := drains_bounded h hd hget hsus hget'
      have hpos := lives_pos ((inv_drains h hd).view t) hget'
      have hle := lives_le (d.view t) tr
      omega
  · obtain ⟨tr', hget'⟩ := Option.ne_none_iff_exists'.1 hsome
    obtain ⟨hrun, -, hanswers⟩ := drains_bounded h hd hget hsus hget'
    have hwaits := ((inv_drains h hd).view t).waits tr' hget' hrun
    exact ⟨hanswers, movable_of_awake (awake_of_waits hwaits)⟩

/-- In a run in which no NAK silences a transaction, every transaction that is not
suspended waits for something and runs down. -/
theorem not_left_hanging {d : Driver} (h : system.Reaches Unsilenced d) {t : TransactionId}
    {tr : Transaction} (hget : d.machine.transactions.get t = some tr)
    (hsus : tr.suspended = false) : d.Awake t tr ∧ d.RunsDown t tr :=
  ⟨awake_of_waits (((inv_reaches h).view t).waits tr hget hsus), runsDown (inv_reaches h) hget hsus⟩

/-! ## A file of three bytes -/

section

theorem reaches_ended : system.Reaches Unsilenced ended := by
  have hput : system.Reaches Unsilenced requested :=
    .step (.call (.putRequest ⟨0⟩ ⟨1⟩ 2 3 .modular)) (.init ⟨1, 10, 4096, rfl⟩)
      (show (3 : UInt64).toNat + FILE_DATA_CHUNK_SIZE ≤ UInt64.size by decide) (Step.call rfl)
  have hdata : system.Reaches Unsilenced streamed :=
    .step (.answer (.read threeBytes 0 2048) (.dataSegmentReady threeBytes [7, 8, 9] 0))
      hput trivial
      (Step.answer (by decide) (.read reads_threeBytes))
  exact .step (.answer (.checksum threeBytes) (.checksumReady threeBytes 24)) hdata trivial
    (Step.answer (by decide) (.checksum 24))

theorem ended_entry : ∃ tr, ended.machine.transactions.get threeBytes = some tr ∧
    tr.suspended = false ∧ tr.ackLimit = 5 ∧ tr.state = .waitingForEofAck := by
  have h : (ended.machine.transactions.get threeBytes).map
      (fun tr => (tr.suspended, tr.ackLimit, tr.state)) =
      some (false, 5, .waitingForEofAck) := by decide
  obtain ⟨tr, htr, heq⟩ := Option.map_eq_some_iff.1 h
  injection heq with hsus heq
  injection heq with hlim hstate
  exact ⟨tr, htr, hsus, hlim, hstate⟩

theorem not_left_hanging_three_bytes :
    ∃ tr, tr.ackLimit = 5 ∧ ended.Awake threeBytes tr ∧ ended.RunsDown threeBytes tr := by
  obtain ⟨tr, hget, hsus, hlim, -⟩ := ended_entry
  exact ⟨tr, hlim, not_left_hanging reaches_ended hget hsus⟩

def emptyNak : Event := .pduReceived threeBytes ⟨false, .ok 2, .ok (.nak (.small []))⟩

/-- The NAK stops the timer, and nothing is left to wait for. -/
theorem empty_nak_leaves_hanging :
    ¬ ∀ d, system.Reachable d → ∀ t tr, d.machine.transactions.get t = some tr →
      tr.suspended = false → d.Awake t tr := by
  intro h
  have hreach : system.Reachable (ended.perform emptyNak) :=
    .step _ reaches_ended.reachable trivial (Step.call rfl)
  have hentry : ((ended.perform emptyNak).machine.transactions.get threeBytes).map
      (fun tr => tr.suspended) = some false := by decide
  have hidle : (ended.perform emptyNak).unanswered = [] ∧ (ended.perform emptyNak).timers = [] := by
    decide
  obtain ⟨tr, htr, hsus⟩ := Option.map_eq_some_iff.1 hentry
  rcases h _ hreach threeBytes tr htr hsus with ⟨r, hr, -⟩ | ⟨-, harm⟩ | ⟨-, harm⟩
  · rw [hidle.1] at hr
    cases hr
  · rw [hidle.2] at harm
    cases harm
  · rw [hidle.2] at harm
    cases harm

end

end Driver

end Sender
end Cfdp
end Leodos
