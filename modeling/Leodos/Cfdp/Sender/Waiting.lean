/-
What a transaction of the sending machine waits for.

A transaction that is not suspended waits for an answer to a read or a checksum, for
the acknowledgement of its EOF, or for the Finished PDU, and in the last two cases a
timer is armed.  A NAK stops the acknowledgement timer whatever it asks for, so one
that asks for nothing leaves a transaction with nothing to wait for.  Apart from that
no wake-up is lost, and what is outstanding drains.
-/
import Leodos.Cfdp.Sender.Driver

namespace Leodos
namespace Cfdp
namespace Sender

open Spp Container Transition

/-! ## The invariant of a view -/

/-- Something is outstanding for the entry `tr` of a view. -/
def View.Waits (v : View) (tr : Transaction) : Prop :=
  v.unanswered ≠ [] ∨
    (tr.state = .waitingForEofAck ∧ .ack ∈ v.armed) ∨
    (tr.state = .waitingForFinishedPdu ∧ .inactivity ∈ v.armed)

structure Sound (tr : Transaction) : Prop where
  summed : tr.state = .waitingForEofAck → tr.fileChecksum ≠ none
  retries : tr.ackRetries ≤ tr.ackLimit
  offset : tr.progress < UInt64.size
  small : tr.config.fileSize + FILE_DATA_CHUNK_SIZE ≤ UInt64.size

/-- The range of a request is one of 64-bit offsets, and a read is of one chunk. -/
def Request.Proper : Request → Prop
  | .read _ startOffset endOffset =>
      startOffset < UInt64.size ∧ endOffset = wrappingAdd startOffset FILE_DATA_CHUNK_SIZE
  | .segment _ startOffset _ => startOffset < UInt64.size
  | .checksum _ => True

structure View.Inv (v : View) : Prop where
  sound : ∀ tr, v.entry = some tr → Sound tr
  waits : ∀ tr, v.entry = some tr → tr.suspended = false → v.Waits tr
  requests : ∀ r ∈ v.unanswered, r.Proper
  timers : ∀ ty ∈ v.armed, ty = .ack ∨ ty = .inactivity

theorem wrappingAdd_lt (a b : Nat) : wrappingAdd a b < UInt64.size := Nat.mod_lt _ (by decide)

theorem sound_change {t : TransactionId} {tr tr' : Transaction} {e : Event} {l : List Action}
    (hs : Sound tr) (h : Change t tr e (some tr') l) : Sound tr' := by
  cases h with
  | data data offset hsus => exact ⟨hs.summed, hs.retries, wrappingAdd_lt _ _, hs.small⟩
  | checksum seconds c => exact ⟨fun _ => Option.some_ne_none c, hs.retries, hs.offset, hs.small⟩
  | resumeEof seconds c hsus hstate hsum =>
    exact ⟨fun _ => hs.summed hstate, hs.retries, hs.offset, hs.small⟩
  | acked pdu hstate => exact ⟨by rintro ⟨⟩, hs.retries, hs.offset, hs.small⟩
  | ackRetry seconds c hlt hstate hsum =>
    exact ⟨fun _ => hs.summed hstate, hlt, hs.offset, hs.small⟩
  | ackIdle hlt hidle => exact ⟨hs.summed, hlt, hs.offset, hs.small⟩
  | _ => exact ⟨hs.summed, hs.retries, hs.offset, hs.small⟩

theorem proper_segments (t : TransactionId) (v : NakPdu) :
    ∀ r ∈ v.segmentRequests.map fun s => Request.segment t s.startOffset s.endOffset,
      r.Proper := by
  intro r hr
  obtain ⟨s, hs, rfl⟩ := List.mem_map.1 hr
  cases v with
  | small segments =>
    obtain ⟨x, -, rfl⟩ := List.mem_map.1 hs
    exact Nat.lt_trans x.1.toNat_lt (by decide)
  | large segments =>
    obtain ⟨x, -, rfl⟩ := List.mem_map.1 hs
    exact x.1.toNat_lt

theorem requests_change {t : TransactionId} {tr : Transaction} {o : Option Transaction} {e : Event}
    {l : List Action} (hs : Sound tr) (h : Change t tr e o l) :
    ∀ r ∈ l.flatMap Action.requests, r.Proper := by
  cases h with
  | prompt ty hl => rcases hl with rfl | rfl <;> simp [Action.requests]
  | data data offset hsus =>
    have hlt := wrappingAdd_lt offset data.length
    rw [requests_data]
    split_ifs
    · simp [Request.Proper]
    · simpa [Request.Proper] using hlt
  | resumeSending hsus hstate =>
    simpa [Action.requests, SenderMachine.readNext, Request.Proper] using hs.offset
  | nak pdu v hv hsus =>
    simpa [Action.requests] using proper_segments t v
  | _ => simp [Action.requests, eofActions, Request.Proper]

theorem timers_change {t : TransactionId} {tr : Transaction} {o : Option Transaction} {e : Event}
    {l : List Action} (h : Change t tr e o l) {armed : List TimerType}
    (harmed : ∀ ty ∈ armed, ty = .ack ∨ ty = .inactivity) :
    ∀ ty ∈ l.foldl Action.setArmed armed, ty = .ack ∨ ty = .inactivity := by
  cases h with
  | prompt ty hl => rcases hl with rfl | rfl <;> simpa [Action.setArmed] using harmed
  | data data offset hsus =>
    simp only [List.foldl_cons, List.foldl_nil, continueAt]
    split_ifs <;> exact harmed
  | acked pdu hstate =>
    simp only [List.foldl_cons, List.foldl_nil, Action.setArmed, List.mem_cons, List.mem_filter]
    rintro ty (rfl | ⟨hty, -⟩)
    · exact Or.inr rfl
    · exact harmed ty hty
  | nak pdu v hv hsus =>
    simp only [List.foldl_cons, List.foldl_nil, Action.setArmed, List.mem_filter]
    exact fun ty hty => harmed ty hty.1
  | _ =>
    simp only [eofActions, SenderMachine.readNext, List.foldl_cons, List.foldl_nil,
      List.cons_append, List.nil_append, Action.setArmed, List.mem_cons, List.not_mem_nil]
    first
      | exact harmed
      | exact fun ty hty => absurd hty id
      | (rintro ty (rfl | hty)
         · first | exact Or.inl rfl | exact Or.inr rfl
         · exact harmed ty hty)

/-! ## What is left to wait for -/

theorem waits_of_request {v : View} {o : Option Transaction} {l : List Action} {tr : Transaction}
    (h : l.flatMap Action.requests ≠ []) : (v.execute o l).Waits tr := by
  refine Or.inl ?_
  rw [View.execute_unanswered]
  exact fun hnil => h (List.append_eq_nil_iff.1 hnil).2

/-- A NAK that asks for nothing stops the only thing the entry waits for. -/
def Silences (v : View) (tr : Transaction) (pdu : Pdu) : Prop :=
  ∃ nak, pdu.variant = .ok (.nak nak) ∧ nak.segmentRequests = [] ∧ tr.suspended = false ∧
    tr.state = .waitingForEofAck ∧ v.unanswered = []

theorem waits_call {v : View} (hv : v.Inv) {t : TransactionId} {tr tr' : Transaction}
    (hentry : v.entry = some tr) {e : Event} (he : e.external = true)
    (hnak : ∀ pdu, e = .pduReceived t pdu → ¬ Silences v tr pdu)
    {l : List Action} (h : Change t tr e (some tr') l) (hsus : tr'.suspended = false) :
    (v.execute (some tr') l).Waits tr' := by
  have hwaits := hv.waits tr hentry
  cases h with
  | prompt ty hl =>
    have hw := hwaits hsus
    rcases hl with rfl | rfl <;>
      simpa [View.Waits, View.execute, Action.requests, Action.setArmed] using hw
  | suspended htrue =>
    rw [hsus] at htrue
    cases htrue
  | suspend hrun => cases hsus
  | running hrun => simpa [View.Waits, View.execute] using hwaits hsus
  | resumeSending htrue hstate =>
    exact waits_of_request (by simp [Action.requests, SenderMachine.readNext])
  | resumeEof seconds c htrue hstate hsum =>
    exact Or.inr (Or.inl ⟨rfl, by simp [eofActions, Action.setArmed]⟩)
  | resumeFails htrue hstate hsum => exact absurd hsum ((hv.sound tr hentry).summed hstate)
  | resumeFinished seconds htrue hstate =>
    exact Or.inr (Or.inr ⟨hstate, by simp [Action.setArmed]⟩)
  | resumeChecksum htrue hstate => exact waits_of_request (by simp [Action.requests])
  | ignored pdu => simpa [View.Waits, View.execute] using hwaits hsus
  | acked pdu hstate => exact Or.inr (Or.inr ⟨rfl, by simp [Action.setArmed]⟩)
  | keepAlive pdu progress => simpa [View.Waits, View.execute] using hwaits hsus
  | nak pdu nak hvar hrun =>
    by_cases hseg : nak.segmentRequests = []
    · rcases hwaits hrun with hreq | ⟨hstate, -⟩ | ⟨hstate, harm⟩
      · exact Or.inl fun hnil => hreq (List.append_eq_nil_iff.1 hnil).1
      · -- the acknowledgement timer is stopped, so something else must be outstanding
        refine Or.inl fun hnil => hnak pdu rfl ⟨nak, hvar, hseg, hrun, hstate, ?_⟩
        exact (List.append_eq_nil_iff.1 hnil).1
      · refine Or.inr (Or.inr ⟨hstate, ?_⟩)
        simpa [Action.setArmed] using harm
    · exact waits_of_request (by simpa [Action.requests] using hseg)
  | _ => cases he

theorem waits_answer {v : View} {t : TransactionId} {tr tr' : Transaction} {e : Event}
    (he : (∃ data offset, e = .dataSegmentReady t data offset) ∨ ∃ c, e = .checksumReady t c)
    {l : List Action} (h : Change t tr e (some tr') l) (hsus : tr'.suspended = false) :
    (v.execute (some tr') l).Waits tr' := by
  cases h with
  | dropped data offset htrue =>
    rw [hsus] at htrue
    cases htrue
  | data data offset hrun =>
    refine waits_of_request ?_
    rw [requests_data]
    split_ifs <;> exact List.cons_ne_nil _ _
  | checksum seconds c => exact Or.inr (Or.inl ⟨rfl, by simp [eofActions, Action.setArmed]⟩)
  | _ => rcases he with ⟨_, _, he⟩ | ⟨_, he⟩ <;> cases he

theorem waits_expire {v : View} (hv : v.Inv) {t : TransactionId} {tr tr' : Transaction}
    (hentry : v.entry = some tr) {ty : TimerType} (hty : ty ∈ v.armed) {l : List Action}
    (h : Change t tr (.timerExpired t ty) (some tr') l) (hsus : tr'.suspended = false) :
    ((v.fire ty).execute (some tr') l).Waits tr' := by
  have hwaits := hv.waits tr hentry
  cases h with
  | ackRetry seconds c hlt hstate hsum =>
    exact Or.inr (Or.inl ⟨rfl, by simp [eofActions, Action.setArmed]⟩)
  | ackIdle hlt hidle =>
    have hstate : tr.state ≠ .waitingForEofAck := by
      rcases hidle with hne | hnone
      · exact hne
      · exact fun hstate => (hv.sound tr hentry).summed hstate hnone
    rcases hwaits hsus with hreq | ⟨heq, -⟩ | ⟨heq, harm⟩
    · exact Or.inl (by simpa [View.fire] using hreq)
    · exact absurd heq hstate
    · exact Or.inr (Or.inr ⟨heq, by simpa [View.fire] using harm⟩)
  | inactive hstate =>
    rcases hwaits hsus with hreq | ⟨heq, harm⟩ | ⟨heq, -⟩
    · exact Or.inl (by simpa [View.fire] using hreq)
    · exact Or.inr (Or.inl ⟨heq, by simpa [View.fire] using harm⟩)
    · exact absurd heq hstate
  | otherTimer ty hack hinact =>
    rcases hv.timers ty hty with rfl | rfl
    · exact absurd rfl hack
    · exact absurd rfl hinact

/-! ## Every run -/

namespace Driver

structure Inv (d : Driver) : Prop where
  proper : d.machine.Proper
  view : ∀ t, (d.view t).Inv

/-- No NAK without requests comes while the acknowledgement of the EOF is all that is
waited for, and no file is so long that the end of a chunk exceeds 64 bits. -/
def Unsilenced (d : Driver) : Move → Prop
  | .call (.putRequest _ _ _ fileSize _) => fileSize.toNat + FILE_DATA_CHUNK_SIZE ≤ UInt64.size
  | .call (.pduReceived t pdu) =>
      ∀ tr, d.machine.transactions.get t = some tr → ¬ Silences (d.view t) tr pdu
  | _ => True

theorem inv_initial (id : EntityId) (ackTimeoutSecs keepAliveLimit : Nat) :
    (initial id ackTimeoutSecs keepAliveLimit).Inv where
  proper := SenderMachine.proper_new _ _ _
  view t := by
    have hnone : ((initial id ackTimeoutSecs keepAliveLimit).view t).entry = none := rfl
    refine ⟨fun tr h => ?_, fun tr h => ?_, fun r hr => ?_, fun ty hty => ?_⟩
    · rw [hnone] at h
      cases h
    · rw [hnone] at h
      cases h
    · cases hr
    · cases hty

theorem inv_execute {v w : View} {t : TransactionId} {tr : Transaction} (hv : v.Inv)
    (hentry : v.entry = some tr) (hreq : ∀ r ∈ w.unanswered, r ∈ v.unanswered)
    (harm : ∀ ty ∈ w.armed, ty ∈ v.armed) {e : Event} {o : Option Transaction} {l : List Action}
    (h : Change t tr e o l)
    (hwaits : ∀ tr', o = some tr' → tr'.suspended = false → (w.execute o l).Waits tr') :
    (w.execute o l).Inv where
  sound tr' ho := by
    rw [View.execute_entry] at ho
    subst ho
    exact sound_change (hv.sound tr hentry) h
  waits tr' ho := hwaits tr' ho
  requests r hr := by
    rcases List.mem_append.1 hr with hr | hr
    · exact hv.requests r (hreq r hr)
    · exact requests_change (hv.sound tr hentry) h r hr
  timers := timers_change h fun ty hty => hv.timers ty (harm ty hty)

theorem inv_put {d : Driver} (h : d.Inv) (source destination : FileId) (destinationId : EntityId)
    {fileSize : UInt64} (hsize : fileSize.toNat + FILE_DATA_CHUNK_SIZE ≤ UInt64.size)
    (checksumType : ChecksumType) :
    (d.perform (.putRequest source destination destinationId fileSize checksumType)).Inv := by
  refine ⟨perform_proper h.proper _, fun t => ?_⟩
  rcases view_perform_put (t := t) h.proper source destination destinationId fileSize
    checksumType with heq | ⟨rfl, heq⟩
  · rw [heq]
    exact h.view t
  · have hv := h.view d.machine.nextId
    rw [heq]
    refine ⟨fun tr htr => ?_, fun tr htr _ => ?_, fun r hr => ?_, hv.timers⟩
    · cases htr
      exact ⟨by rintro ⟨⟩, Nat.zero_le _, Nat.two_pow_pos 64, hsize⟩
    · exact waits_of_request (by simp [Action.requests])
    · rcases List.mem_append.1 hr with hr | hr
      · exact hv.requests r hr
      · rw [List.mem_singleton.1 hr]
        exact ⟨by decide, by decide⟩

/-- The machine acts on `w`, which is `d` less what the move has used up of `t`. -/
theorem inv_perform {d w : Driver} (h : d.Inv) (hm : w.machine = d.machine) {t : TransactionId}
    (hother : ∀ t', t' ≠ t → w.view t' = d.view t')
    (hreq : ∀ r ∈ (w.view t).unanswered, r ∈ (d.view t).unanswered)
    (harm : ∀ ty ∈ (w.view t).armed, ty ∈ (d.view t).armed) {e : Event}
    (hid : e.transactionId? = some t)
    (hwaits : ∀ tr tr' l, d.machine.transactions.get t = some tr → Change t tr e (some tr') l →
      tr'.suspended = false → ((w.view t).execute (some tr') l).Waits tr') : (w.perform e).Inv := by
  have hproper : w.machine.Proper := by
    rw [hm]
    exact h.proper
  refine ⟨perform_proper hproper e, fun t' => ?_⟩
  by_cases hne : t' ≠ t
  · rw [view_perform_of_ne hproper (by rw [target_of hid]; exact hne), hother t' hne]
    exact h.view t'
  · rw [not_not.1 hne]
    cases hget : d.machine.transactions.get t with
    | none =>
      have hnone : (w.view t).entry = none := by
        rw [← hget, ← hm]
        rfl
      rw [view_perform_absent hnone hid]
      refine ⟨fun tr htr => ?_, fun tr htr => ?_, fun r hr => (h.view t).requests r (hreq r hr),
        fun ty hty => (h.view t).timers ty (harm ty hty)⟩
      · rw [hnone] at htr
        cases htr
      · rw [hnone] at htr
        cases htr
    | some tr =>
      have hentry : (w.view t).entry = some tr := by
        rw [← hget, ← hm]
        rfl
      obtain ⟨o, l, hchange, heq⟩ := view_perform_change hproper hentry hid
      rw [heq]
      refine inv_execute (h.view t) hget hreq harm hchange ?_
      rintro tr' rfl hsus
      exact hwaits tr tr' l hget hchange hsus

theorem inv_call {d : Driver} (h : d.Inv) {e : Event} (he : e.external = true)
    (hok : d.Unsilenced (.call e)) : (d.perform e).Inv := by
  cases hid : e.transactionId? with
  | none =>
    cases e with
    | putRequest source destination destinationId fileSize checksumType =>
      exact inv_put h source destination destinationId hok checksumType
    | _ => cases hid
  | some t =>
    refine inv_perform h rfl (fun _ _ => rfl) (fun _ hr => hr) (fun _ hty => hty) hid ?_
    intro tr tr' l hget hchange hsus
    refine waits_call (h.view t) hget he (fun pdu hpdu => ?_) hchange hsus
    subst hpdu
    exact hok tr hget

theorem inv_answer {d : Driver} (h : d.Inv) {r : Request} {e : Event} (he : d.Answers r e) :
    (perform { d with unanswered := d.unanswered.erase r } e).Inv := by
  refine inv_perform (w := { d with unanswered := d.unanswered.erase r }) h rfl
    (fun t' hne => view_take_of_ne d hne) (fun r' hr' => ?_)
    (fun _ hty => hty) (transactionId_of_answers he) fun tr tr' l _ hchange hsus =>
      waits_answer (event_of_answers he) hchange hsus
  rw [view_take_self] at hr'
  exact List.mem_of_mem_erase hr'

theorem inv_expire {d : Driver} (h : d.Inv) {t : TransactionId} {ty : TimerType}
    (hty : (t, ty) ∈ d.timers) :
    (perform { d with timers := d.timers.filter fun x => x ≠ (t, ty) }
      (.timerExpired t ty)).Inv := by
  refine inv_perform (w := { d with timers := d.timers.filter fun x => x ≠ (t, ty) }) h rfl
    (fun t' hne => view_fire_of_ne d hne ty) (fun _ hr => hr) (fun ty' hty' => ?_) rfl
    fun tr tr' l hget hchange hsus => ?_
  · rw [view_fire_self] at hty'
    exact List.mem_of_mem_filter hty'
  · rw [view_fire_self]
    exact waits_expire (h.view t) hget (mem_armedOf.2 hty) hchange hsus

theorem inv_step {d d' : Driver} {mv : Move} (h : d.Inv) (hok : d.Unsilenced mv)
    (hstep : Step d mv d') : d'.Inv := by
  cases hstep with
  | call he => exact inv_call h he hok
  | answer _ he => exact inv_answer h he
  | expire hty => exact inv_expire h hty

theorem inv_reaches {d : Driver} (h : system.Reaches Unsilenced d) : d.Inv := by
  refine h.invariant Inv ?_ fun d mv d' hinv hok hstep => inv_step hinv hok hstep
  rintro d ⟨id, ackTimeoutSecs, keepAliveLimit, rfl⟩
  exact inv_initial id ackTimeoutSecs keepAliveLimit

end Driver

end Sender
end Cfdp
end Leodos
