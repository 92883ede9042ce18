/-
The retransmission timer of the sender machine.

A driver keeps T1 as the actions it receives say.  The timer runs whenever a frame is
queued in a working state, as long as two situations are kept out: a frame queued for
retransmission after the timer has run out on an empty queue, and a retransmission of
more frames than the action vector holds.
-/
import Leodos.Cop1.SentQueue
import Leodos.Transition.System

namespace Leodos
namespace Cop1

open Spp FopMachine Transition

def timerAfter (running : Bool) (actions : List FopAction) : Bool :=
  actions.foldl (fun running action =>
    match action with
    | .startTimer => true
    | .stopTimer => false
    | _ => running) running

theorem timerAfter_append (running : Bool) (as bs : List FopAction) :
    timerAfter running (as ++ bs) = timerAfter (timerAfter running as) bs :=
  List.foldl_append

theorem timerAfter_true {actions : List FopAction} (h : .stopTimer ∉ actions) :
    timerAfter true actions = true := by
  induction actions with
  | nil => rfl
  | cons action actions ih =>
    have hrest := ih fun hmem => h (List.mem_cons_of_mem _ hmem)
    cases action with
    | stopTimer => exact absurd List.mem_cons_self h
    | _ => exact hrest

/-- The machine with its driver's timer. -/
structure Driven (WIN BUF : Nat) where
  fop : FopMachine WIN BUF
  timer : Bool
  deriving DecidableEq

variable {WIN BUF : Nat}

def Driven.next (s : Driven WIN BUF) (e : FopEvent) : Driven WIN BUF where
  fop := (s.fop.handle e).1
  timer := timerAfter (if e = .timerExpired then false else s.timer) (s.fop.handle e).2

def driven (WIN BUF : Nat) : System (Driven WIN BUF) FopEvent where
  init s := ∃ config, s = ⟨FopMachine.new WIN BUF config, false⟩
  step s e s' := s' = s.next e

def Guarded (s : Driven WIN BUF) : FopEvent → Prop
  | .sendAd fdu =>
      -- a frame queued for retransmission starts no timer
      s.fop.state = .retransmitting → s.fop.sent = [] →
        s.timer = true ∨ WIN = 0 ∨ BUF < s.fop.writePos + fdu.length
  | .timerExpired =>
      s.fop.Working → s.fop.limitExceeded = false → s.fop.sentCount < MAX_ACTIONS
  | .clcwReceived clcw =>
      s.fop.state = .active → clcw.lockout = false → clcw.retransmit = true →
        s.fop.sentCount ≤ MAX_ACTIONS ∨ ∀ slot ∈ s.fop.sent, slot.Acked clcw.reportValue
  | _ => True

instance (s : Driven WIN BUF) (e : FopEvent) : Decidable (Guarded s e) := by
  cases e <;> unfold Guarded <;> infer_instance

/-! ## The timer -/

structure Armed (s : Driven WIN BUF) : Prop where
  running : s.fop.Working → s.fop.sent ≠ [] → s.timer = true
  idle : ¬ s.fop.Working → s.fop.sent = []

theorem armed_of_sent_nil {s : Driven WIN BUF} (h : s.fop.sent = []) : Armed s :=
  ⟨fun _ hne => absurd h hne, fun _ => h⟩

theorem armed_of_timer {s : Driven WIN BUF} (hw : s.fop.Working) (h : s.timer = true) :
    Armed s :=
  ⟨fun _ _ => h, fun hn => absurd hw hn⟩

theorem stopTimer_notMem_acks {m : FopMachine WIN BUF} {nr : UInt8} :
    .stopTimer ∉ (m.removeAcknowledged nr).2 := by
  intro h
  obtain ⟨_, -, h⟩ := List.mem_map.mp h
  cases h

theorem stopTimer_notMem_sends {m : FopMachine WIN BUF} :
    .stopTimer ∉ m.initiateRetransmission.2 := by
  rw [pushed_initiateRetransmission, List.mem_append]
  rintro (h | h)
  · obtain ⟨_, -, h⟩ := List.mem_map.mp h
    cases h
  · split at h <;> simp at h

theorem armed_alert {m : FopMachine WIN BUF} {timer : Bool} : Armed ⟨m.alert.1, timer⟩ :=
  armed_of_sent_nil sent_purge

theorem Armed.timer_of_left {s : Driven WIN BUF} (h : Armed s) (hw : s.fop.Working) {nr : UInt8}
    (hleft : (s.fop.acknowledged nr).sent ≠ []) : s.timer = true := by
  apply h.running hw
  intro hnil
  rw [sent_acknowledged, hnil] at hleft
  exact hleft rfl

theorem Armed.sendAd {s : Driven WIN BUF} {fdu : Bytes} (h : Armed s)
    (hg : Guarded s (.sendAd fdu)) : Armed (s.next (.sendAd fdu)) := by
  unfold Driven.next
  simp only [handle, react]
  rcases s.fop.handleSendAd_cases fdu with hrej | ⟨i, hw, hslot, hroom, heq⟩
  · rw [hrej]
    exact h
  · rw [heq]
    rcases hw with hactive | hret
    · rw [if_pos hactive]
      exact armed_of_timer (.inl hactive) rfl
    · have hna : s.fop.state ≠ .active := by
        rw [hret]
        decide
      rw [if_neg hna]
      refine armed_of_timer (.inr hret) ?_
      show s.timer = true
      by_cases hsent : s.fop.sent = []
      · have hlt := findEmptySlot_lt hslot
        rcases hg hret hsent with ht | hwin | hbuf
        · exact ht
        · omega
        · omega
      · exact h.running (.inr hret) hsent

theorem Armed.clcw {s : Driven WIN BUF} {clcw : Clcw} (h : Armed s) :
    Armed (s.next (.clcwReceived clcw)) := by
  unfold Driven.next
  simp only [handle, react]
  rcases s.fop.handleClcw_cases clcw with ⟨hw, heq⟩ | ⟨hw, vs, heq⟩ | ⟨hw, -, heq⟩ |
    ⟨hst, -, -, heq⟩ | ⟨hw, state, stop, hstate, hstop, -, heq⟩
  · rw [heq]
    exact h
  · rw [heq]
    exact armed_of_sent_nil sent_purge
  · rw [heq]
    exact armed_alert
  · rw [heq]
    refine ⟨fun _ hne => ?_, fun hn => absurd (.inr rfl) hn⟩
    have hleft : (s.fop.acknowledged clcw.reportValue).sent ≠ [] :=
      fun hnil => hne (sent_initiateRetransmission_eq_nil.mpr hnil)
    show timerAfter s.timer _ = true
    rw [h.timer_of_left (.inl hst) hleft]
    apply timerAfter_true
    intro hmem
    rcases List.mem_append.mp (List.mem_of_mem_take hmem) with hmem | hmem
    · exact stopTimer_notMem_acks hmem
    · exact stopTimer_notMem_sends hmem
  · rw [heq]
    refine ⟨fun _ hne => ?_, fun hn => absurd hstate hn⟩
    have hleft : (s.fop.acknowledged clcw.reportValue).sent ≠ [] := hne
    show timerAfter s.timer _ = true
    rw [h.timer_of_left hw hleft]
    apply timerAfter_true
    intro hmem
    rcases List.mem_append.mp (List.mem_of_mem_take hmem) with hmem | hmem
    · exact stopTimer_notMem_acks hmem
    · rcases hstop with rfl | rfl
      · exact List.not_mem_nil hmem
      · exact stopTimer_notMem_stopIfDone hleft hmem

theorem Armed.timerExpired {s : Driven WIN BUF} (h : Armed s) (hg : Guarded s .timerExpired) :
    Armed (s.next .timerExpired) := by
  by_cases hw : s.fop.Working
  · cases hl : s.fop.limitExceeded with
    | true =>
      unfold Driven.next
      simp only [handle, react, handleTimerExpired_alert hw hl]
      exact armed_alert
    | false =>
      have hfit := hg hw hl
      unfold Driven.next
      simp only [handle, react, handleTimerExpired_goneBack hw hl]
      refine ⟨fun _ hne => ?_, fun hn => absurd (.inr rfl) hn⟩
      have hsent : s.fop.sent ≠ [] :=
        fun hnil => hne (sent_initiateRetransmission_eq_nil.mpr hnil)
      have hlen : (sortFrom s.fop.nnr (s.fop.sent.map FduSlot.seq)).length = s.fop.sentCount := by
        rw [(sortFrom_perm _ _).length_eq, List.length_map]
        rfl
      show timerAfter false (List.take MAX_ACTIONS s.fop.initiateRetransmission.2) = true
      rw [pushed_initiateRetransmission, if_neg hsent, List.take_of_length_le, timerAfter_append]
      · rfl
      · rw [List.length_append, List.length_map, hlen, List.length_singleton]
        exact hfit
  · exact armed_of_sent_nil (sent_handleTimerExpired_idle hw (h.idle hw))

theorem Armed.step {s : Driven WIN BUF} (h : Armed s) {e : FopEvent} (hg : Guarded s e) :
    Armed (s.next e) := by
  have hstart : ∀ {m : FopMachine WIN BUF} {actions : List FopAction},
      m.sent = [] → Armed (⟨(if s.fop.state = .initial then (m, actions) else
        (s.fop, [.reject])).1, timerAfter s.timer ((if s.fop.state = .initial then (m, actions)
        else (s.fop, [.reject])).2.take MAX_ACTIONS)⟩ : Driven WIN BUF) := by
    intro m actions hm
    by_cases hi : s.fop.state = .initial
    · rw [if_pos hi]
      exact armed_of_sent_nil hm
    · rw [if_neg hi]
      exact h
  cases e with
  | sendAd fdu => exact h.sendAd hg
  | clcwReceived clcw => exact h.clcw
  | timerExpired => exact h.timerExpired hg
  | sendBd fdu =>
    unfold Driven.next
    simp only [handle, react, handleSendBd, bufferFdu]
    by_cases hroom : BUF < s.fop.writePos + fdu.length
    · rw [if_pos hroom]
      exact h
    · rw [if_neg hroom]
      exact ⟨h.running, h.idle⟩
  | initAdNoClcw => exact hstart sent_purge
  | initAdWithClcw => exact hstart sent_purge
  | initAdSetVr vr => exact hstart sent_purge
  | initAdUnlock => exact hstart sent_purge
  | terminate => exact armed_of_sent_nil sent_purge
  | resume =>
    by_cases hi : s.fop.state = .initial
    · refine armed_of_sent_nil ?_
      have hsent : s.fop.sent = [] := h.idle (not_working_of_initial hi)
      show s.fop.handleResume.1.sent = []
      rw [handleResume, if_pos hi]
      exact hsent
    · unfold Driven.next
      simp only [handle, react, handleResume, if_neg hi]
      exact h

theorem armed_of_reaches {s : Driven WIN BUF} (h : (driven WIN BUF).Reaches Guarded s) :
    Armed s := by
  refine h.invariant Armed ?_ ?_
  · rintro s ⟨config, rfl⟩
    refine armed_of_sent_nil ?_
    show (List.replicate WIN FduSlot.empty).filter _ = []
    rw [List.filter_eq_nil_iff]
    intro slot hslot
    rw [List.eq_of_mem_replicate hslot]
    exact Bool.false_ne_true
  · rintro s e _ hs hg rfl
    exact hs.step hg

/-! ## Go-back-N -/

def transmits (actions : List FopAction) : List UInt8 :=
  actions.filterMap fun action =>
    match action with
    | .transmitAd seq => some seq
    | _ => none

/-- The event makes the machine go back. -/
def Triggers (m : FopMachine WIN BUF) : FopEvent → Prop
  | .timerExpired => m.Working ∧ m.limitExceeded = false
  | .clcwReceived clcw => m.state = .active ∧ clcw.lockout = false ∧ clcw.retransmit = true
  | _ => False

instance (m : FopMachine WIN BUF) (e : FopEvent) : Decidable (Triggers m e) := by
  cases e <;> unfold Triggers <;> infer_instance

/-- Every queued frame is sent again, in the order of its distance from N(R). -/
def GoesBack (m : FopMachine WIN BUF) (actions : List FopAction) : Prop :=
  (transmits actions).Perm (m.sent.map FduSlot.seq) ∧
    (transmits actions).Pairwise fun a b => a - m.nnr ≤ b - m.nnr

theorem transmits_append (as bs : List FopAction) :
    transmits (as ++ bs) = transmits as ++ transmits bs :=
  List.filterMap_append

theorem transmits_acks {m : FopMachine WIN BUF} {nr : UInt8} :
    transmits (m.removeAcknowledged nr).2 = [] := by
  unfold transmits
  rw [List.filterMap_eq_nil_iff]
  intro action h
  obtain ⟨_, -, rfl⟩ := List.mem_map.mp h
  rfl

theorem transmits_map (seqs : List UInt8) : transmits (seqs.map FopAction.transmitAd) = seqs := by
  unfold transmits
  rw [List.filterMap_map]
  exact List.filterMap_some

theorem transmits_take_nil {actions : List FopAction} (h : transmits actions = []) (n : Nat) :
    transmits (actions.take n) = [] := by
  have hsub := (List.take_sublist n actions).filterMap fun action =>
    match action with
    | .transmitAd seq => some seq
    | _ => none
  exact List.sublist_nil.mp (h ▸ hsub)

theorem transmits_take {acks rest : List FopAction} {seqs : List UInt8}
    (hacks : transmits acks = []) (hrest : transmits rest = [])
    (hfit : seqs = [] ∨ acks.length + seqs.length ≤ MAX_ACTIONS) :
    transmits ((acks ++ (seqs.map FopAction.transmitAd ++ rest)).take MAX_ACTIONS) = seqs := by
  rcases hfit with rfl | hfit
  · apply transmits_take_nil
    rw [List.map_nil, List.nil_append, transmits_append, hacks, hrest, List.append_nil]
  · rw [List.take_append, List.take_of_length_le (by omega), List.take_append,
      List.take_of_length_le (by rw [List.length_map]; omega), transmits_append, transmits_append,
      hacks, transmits_map, transmits_take_nil hrest, List.append_nil, List.nil_append]

theorem goesBack_take {m : FopMachine WIN BUF} {acks : List FopAction}
    (hacks : transmits acks = []) (hfit : m.sent = [] ∨ acks.length + m.sentCount ≤ MAX_ACTIONS) :
    GoesBack m.goneBack ((acks ++ m.initiateRetransmission.2).take MAX_ACTIONS) := by
  have hperm := sortFrom_perm m.nnr (m.sent.map FduSlot.seq)
  have hsame : m.goneBack.sent.map FduSlot.seq = m.sent.map FduSlot.seq :=
    seqs_initiateRetransmission
  have hrest : transmits (if m.sent = [] then [] else [.startTimer]) = [] := by
    split <;> rfl
  have hseqs : sortFrom m.nnr (m.sent.map FduSlot.seq) = [] ∨
      acks.length + (sortFrom m.nnr (m.sent.map FduSlot.seq)).length ≤ MAX_ACTIONS := by
    rcases hfit with hnil | hfit
    · rw [hnil]
      exact .inl rfl
    · rw [hperm.length_eq, List.length_map]
      exact .inr hfit
  unfold GoesBack
  rw [pushed_initiateRetransmission, transmits_take hacks hrest hseqs, hsame]
  exact ⟨hperm, sortFrom_pairwise _ _⟩

theorem goesBack_of_triggers {s : Driven WIN BUF} {e : FopEvent} (hg : Guarded s e)
    (ht : Triggers s.fop e) : GoesBack (s.fop.handle e).1 (s.fop.handle e).2 := by
  cases e with
  | timerExpired =>
    obtain ⟨hw, hl⟩ := ht
    have hfit := hg hw hl
    simp only [handle, react, handleTimerExpired_goneBack hw hl]
    rw [← List.nil_append s.fop.initiateRetransmission.2]
    refine goesBack_take rfl (.inr ?_)
    rw [List.length_nil, Nat.zero_add]
    exact Nat.le_of_lt hfit
  | clcwReceived clcw =>
    obtain ⟨hst, hl, hr⟩ := ht
    have hfit := hg hst hl hr
    have heq : s.fop.handleClcw clcw = ((s.fop.acknowledged clcw.reportValue).goneBack,
        (s.fop.removeAcknowledged clcw.reportValue).2 ++
          (s.fop.acknowledged clcw.reportValue).initiateRetransmission.2) := by
      rcases s.fop.handleClcw_cases clcw with ⟨hw, -⟩ | ⟨hw, -⟩ | ⟨-, hlock, -⟩ |
        ⟨-, -, -, heq⟩ | ⟨-, _, _, -, -, hnr, -⟩
      · exact absurd (.inl hst) hw
      · exact absurd (.inl hst) hw
      · rw [hlock] at hl
        cases hl
      · exact heq
      · rw [hnr hst] at hr
        cases hr
    simp only [handle, react, heq]
    refine goesBack_take transmits_acks ?_
    rcases hfit with hfit | hall
    · exact .inr (Nat.le_trans (Nat.le_of_eq acks_add_acknowledged) hfit)
    · refine .inl ?_
      rw [sent_acknowledged, List.filter_eq_nil_iff]
      intro slot hslot
      simpa using hall slot hslot
  | _ => exact ht.elim

/-- Along every run of guarded events, T1 runs while a working machine has a frame
queued, and every go-back-N sends each queued frame once, in order from N(R). -/
theorem timer_runs_while_queued {s : Driven WIN BUF} (h : (driven WIN BUF).Reaches Guarded s) :
    (s.fop.Working → s.fop.sent ≠ [] → s.timer = true) ∧
      ∀ e, Guarded s e → Triggers s.fop e → GoesBack (s.fop.handle e).1 (s.fop.handle e).2 :=
  ⟨(armed_of_reaches h).running, fun _ hg ht => goesBack_of_triggers hg ht⟩

/-- A control word with the retransmit flag and the report value 0. -/
def retransmitRequest : Clcw := Clcw.new.setRetransmit true

theorem timer_runs_while_queued_goback :
    ∃ s : Driven 2 8, s.fop.Working ∧ s.fop.sent ≠ [] ∧ s.timer = true ∧
      GoesBack (s.fop.handle (.clcwReceived retransmitRequest)).1
        (s.fop.handle (.clcwReceived retransmitRequest)).2 := by
  obtain ⟨events, hevents⟩ : ∃ events : List FopEvent,
      events = [.initAdNoClcw, .sendAd [1], .sendAd [2]] := ⟨_, rfl⟩
  obtain ⟨start, hstart⟩ : ∃ start : Driven 2 8, start = ⟨FopMachine.new 2 8 ⟨3⟩, false⟩ :=
    ⟨_, rfl⟩
  have hmeets : System.Meets Driven.next Guarded start events := by
    rw [hstart, hevents]
    decide
  have hinit : (driven 2 8).Reaches Guarded start := .init ⟨⟨3⟩, hstart⟩
  have hrun : (driven 2 8).Reaches Guarded (events.foldl Driven.next start) :=
    hinit.foldl (fun _ _ h => ⟨h, rfl⟩) hmeets
  obtain ⟨htimer, hback⟩ := timer_runs_while_queued hrun
  have hw : (events.foldl Driven.next start).fop.Working := by
    rw [hstart, hevents]
    decide
  have hsent : (events.foldl Driven.next start).fop.sent ≠ [] := by
    rw [hstart, hevents]
    decide
  refine ⟨_, hw, hsent, htimer hw hsent, hback _ ?_ ?_⟩
  · rw [hstart, hevents]
    decide +kernel
  · rw [hstart, hevents]
    decide +kernel

/-- The timer runs out on an empty queue, and the next frame is queued for a
retransmission that nothing will start.  A retransmission of sixteen frames leaves no
room for the action that restarts the timer. -/
theorem timer_off_while_queued :
    (∃ s : Driven 1 8, s = ([.initAdNoClcw, .timerExpired, .sendAd [1]] : List FopEvent).foldl
        Driven.next ⟨FopMachine.new 1 8 ⟨3⟩, false⟩ ∧
      s.fop.state = .retransmitting ∧ s.fop.sentCount = 1 ∧ s.timer = false) ∧
    ∃ s : Driven 16 16, s = ((.initAdNoClcw :: List.replicate 16 (.sendAd [1]) ++
        [.timerExpired] : List FopEvent)).foldl Driven.next ⟨FopMachine.new 16 16 ⟨3⟩, false⟩ ∧
      s.fop.state = .retransmitting ∧ s.fop.sentCount = 16 ∧ s.timer = false := by
  refine ⟨⟨_, rfl, ?_⟩, ⟨_, rfl, ?_⟩⟩
  · decide
  · decide

end Cop1
end Leodos
