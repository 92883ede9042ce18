/-
The initialisations of the sender machine, and how they end.

The two initialisations with a directive frame end: a control word with the wanted report
value makes the machine active, and without one the directive is repeated until the limit
and an alert follows.  The initialisation without a frame has no way out but termination.
-/
import Leodos.Cop1.SentQueue
import Leodos.Transition.System

namespace Leodos
namespace Cop1

open Spp FopMachine Transition

variable {WIN BUF : Nat}

def machines (WIN BUF : Nat) : System (FopMachine WIN BUF) FopEvent where
  init m := ∃ config, m = FopMachine.new WIN BUF config
  step m e m' := m' = (m.handle e).1

namespace FopMachine

variable {m : FopMachine WIN BUF}

/-- The machine waits for the answer to a directive frame. -/
def Directing (m : FopMachine WIN BUF) : Prop :=
  m.state = .initWithSetVr ∨ m.state = .initWithUnlock

instance (m : FopMachine WIN BUF) : Decidable m.Directing := inferInstanceAs (Decidable (_ ∨ _))

theorem not_directing {state : FopState} (h : m.state = state) (hne : state ≠ .initWithSetVr)
    (hne' : state ≠ .initWithUnlock) : ¬ m.Directing := by
  intro hd
  obtain hd | hd := hd
  · exact hne (h.symm.trans hd)
  · exact hne' (h.symm.trans hd)

/-- The machine after a number of expirations of the timer. -/
def expire (m : FopMachine WIN BUF) : Nat → FopMachine WIN BUF
  | 0 => m
  | n + 1 => expire (m.handle .timerExpired).1 n

/-- A control word without flags, with the report value wanted if one is, makes the machine
active and its V(S) the report value. -/
def Escapes (m : FopMachine WIN BUF) : Prop :=
  ∃ clcw : Clcw, clcw.lockout = false ∧ clcw.retransmit = false ∧
    (m.state = .initWithSetVr → clcw.reportValue = m.setVrValue) ∧
    (m.handle (.clcwReceived clcw)).1.state = .active ∧
    .accept ∈ (m.handle (.clcwReceived clcw)).2 ∧
    (m.handle (.clcwReceived clcw)).1.vs = clcw.reportValue

/-- One of the first expirations, at most one more than the limit, gives an alert. -/
def GivesUp (m : FopMachine WIN BUF) : Prop :=
  ∃ n, n + 1 ≤ m.config.transmissionLimit.toNat + 1 ∧
    .alert ∈ ((m.expire n).handle .timerExpired).2 ∧
    ((m.expire n).handle .timerExpired).1.state = .initial

/-! ## The count of directive frames -/

/-- While the machine waits, it has sent the directive once, or fewer times than the limit. -/
def Counted (m : FopMachine WIN BUF) : Prop :=
  m.Directing → 1 ≤ m.bcTransmissionCount.toNat ∧
    (m.bcTransmissionCount.toNat = 1 ∨
      m.bcTransmissionCount.toNat < m.config.transmissionLimit.toNat)

theorem counted_of_state {state : FopState} (h : m.state = state) (hne : state ≠ .initWithSetVr)
    (hne' : state ≠ .initWithUnlock) : m.Counted :=
  fun hd => absurd hd (not_directing h hne hne')

theorem counted_of_active (h : m.state = .active) : m.Counted :=
  counted_of_state h (by decide) (by decide)

theorem counted_of_retransmitting (h : m.state = .retransmitting) : m.Counted :=
  counted_of_state h (by decide) (by decide)

theorem counted_of_initial (h : m.state = .initial) : m.Counted :=
  counted_of_state h (by decide) (by decide)

theorem Counted.congr {m' : FopMachine WIN BUF} (h : m.Counted) (hstate : m'.state = m.state)
    (hcount : m'.bcTransmissionCount = m.bcTransmissionCount) (hconfig : m'.config = m.config) :
    m'.Counted := by
  intro hd
  rw [Directing, hstate] at hd
  rw [hcount, hconfig]
  exact h hd

theorem Counted.succ_toNat (h : m.Counted) (hd : m.Directing) :
    (m.bcTransmissionCount + 1).toNat = m.bcTransmissionCount.toNat + 1 := by
  obtain ⟨-, hbound⟩ := h hd
  have hlimit := m.config.transmissionLimit.toNat_lt
  rw [UInt8.toNat_add]
  show (m.bcTransmissionCount.toNat + 1) % 256 = _
  omega

theorem handleTimerExpired_directing (hd : m.Directing) :
    ∃ frame, m.handleTimerExpired = m.repeatDirective frame := by
  obtain hst | hst := hd
  · refine ⟨.transmitBcSetVr m.setVrValue, ?_⟩
    rw [handleTimerExpired, hst]
  · refine ⟨.transmitBcUnlock, ?_⟩
    rw [handleTimerExpired, hst]

theorem repeatDirective_alert (frame : FopAction)
    (h : m.config.transmissionLimit ≤ m.bcTransmissionCount + 1) :
    (m.repeatDirective frame).1.state = .initial ∧
      (m.repeatDirective frame).2 = [.stopTimer, .alert] := by
  rw [repeatDirective]
  dsimp only
  rw [if_pos h]
  exact ⟨rfl, rfl⟩

theorem repeatDirective_again {frame : FopAction}
    (h : ¬ m.config.transmissionLimit ≤ m.bcTransmissionCount + 1) :
    m.repeatDirective frame =
      ({ m with bcTransmissionCount := m.bcTransmissionCount + 1 }, [frame, .startTimer]) := by
  rw [repeatDirective]
  dsimp only
  rw [if_neg h]

theorem Counted.repeatDirective (h : m.Counted) (hd : m.Directing) (frame : FopAction) :
    (m.repeatDirective frame).1.Counted := by
  by_cases hlimit : m.config.transmissionLimit ≤ m.bcTransmissionCount + 1
  · exact counted_of_initial (repeatDirective_alert frame hlimit).1
  · rw [repeatDirective_again hlimit]
    intro _
    have hsucc := h.succ_toNat hd
    rw [UInt8.le_iff_toNat_le] at hlimit
    show 1 ≤ (m.bcTransmissionCount + 1).toNat ∧ ((m.bcTransmissionCount + 1).toNat = 1 ∨
      (m.bcTransmissionCount + 1).toNat < m.config.transmissionLimit.toNat)
    omega

theorem Counted.handleSendAd (h : m.Counted) (fdu : Bytes) : (m.handleSendAd fdu).1.Counted := by
  obtain hreject | ⟨i, -, -, -, hqueued⟩ := handleSendAd_cases m fdu
  · rw [hreject]
    exact h
  · rw [hqueued]
    exact h.congr rfl rfl rfl

theorem Counted.handleSendBd (h : m.Counted) (fdu : Bytes) : (m.handleSendBd fdu).1.Counted := by
  rw [FopMachine.handleSendBd, bufferFdu]
  by_cases hroom : BUF < m.writePos + fdu.length
  · rw [if_pos hroom]
    exact h
  · rw [if_neg hroom]
    exact h.congr rfl rfl rfl

theorem Counted.handleClcw (h : m.Counted) (clcw : Clcw) : (m.handleClcw clcw).1.Counted := by
  obtain ⟨-, hsame⟩ | ⟨-, vs, henter⟩ | ⟨-, -, halert⟩ | ⟨-, -, -, hback⟩ |
    ⟨-, state, stop, hstate, -, -, hset⟩ := handleClcw_cases m clcw
  · rw [hsame]
    exact h
  · rw [henter]
    exact counted_of_active rfl
  · rw [halert]
    exact counted_of_initial rfl
  · rw [hback]
    exact counted_of_retransmitting rfl
  · rw [hset]
    obtain hactive | hretransmitting := hstate
    · exact counted_of_active hactive
    · exact counted_of_retransmitting hretransmitting

theorem Counted.handleTimerExpired (h : m.Counted) : m.handleTimerExpired.1.Counted := by
  by_cases hd : m.Directing
  · obtain ⟨frame, hframe⟩ := handleTimerExpired_directing hd
    rw [hframe]
    exact h.repeatDirective hd frame
  by_cases hw : m.Working
  · cases hl : m.limitExceeded with
    | true =>
      rw [handleTimerExpired_alert hw hl]
      exact counted_of_initial rfl
    | false =>
      rw [handleTimerExpired_goneBack hw hl]
      exact counted_of_retransmitting rfl
  · have hidle : m.handleTimerExpired = (m, []) := by
      rw [FopMachine.handleTimerExpired]
      cases hst : m.state with
      | active => exact absurd (.inl hst) hw
      | retransmitting => exact absurd (.inr hst) hw
      | initWithSetVr => exact absurd (.inl hst) hd
      | initWithUnlock => exact absurd (.inr hst) hd
      | initNoBC => rfl
      | initial => rfl
    rw [hidle]
    exact h

theorem Counted.handle (h : m.Counted) (e : FopEvent) : (m.handle e).1.Counted := by
  show (m.react e).1.Counted
  cases e with
  | sendAd fdu => exact h.handleSendAd fdu
  | sendBd fdu => exact h.handleSendBd fdu
  | clcwReceived clcw => exact h.handleClcw clcw
  | timerExpired => exact h.handleTimerExpired
  | initAdNoClcw =>
    show (handleInitNoClcw m).1.Counted
    rw [handleInitNoClcw]
    split
    · exact counted_of_active rfl
    · exact h
  | initAdWithClcw =>
    show (handleInitWithClcw m).1.Counted
    rw [handleInitWithClcw]
    split
    · have hst : ({ m.purgeSentQueue with state := .initNoBC } : FopMachine WIN BUF).state =
          .initNoBC := rfl
      exact counted_of_state hst (by decide) (by decide)
    · exact h
  | initAdSetVr vr =>
    show (handleInitSetVr m vr).1.Counted
    rw [handleInitSetVr]
    split
    · exact fun _ => ⟨Nat.le_refl 1, .inl rfl⟩
    · exact h
  | initAdUnlock =>
    show (handleInitUnlock m).1.Counted
    rw [handleInitUnlock]
    split
    · exact fun _ => ⟨Nat.le_refl 1, .inl rfl⟩
    · exact h
  | terminate => exact counted_of_initial rfl
  | resume =>
    show (handleResume m).1.Counted
    rw [handleResume]
    split
    · exact counted_of_active rfl
    · exact h

theorem counted_of_reachable (h : (machines WIN BUF).Reachable m) : m.Counted := by
  refine h.invariant Counted ?_ ?_
  · intro m hinit
    obtain ⟨config, rfl⟩ := hinit
    exact counted_of_initial rfl
  · intro m e m' hm _ hstep
    rw [hstep]
    exact hm.handle e

/-! ## The ways out -/

theorem Counted.exists_expire (h : m.Counted) (hd : m.Directing) {d : Nat}
    (hleft : m.config.transmissionLimit.toNat ≤ m.bcTransmissionCount.toNat + (d + 1)) :
    ∃ n ≤ d, .alert ∈ ((m.expire n).handle .timerExpired).2 ∧
      ((m.expire n).handle .timerExpired).1.state = .initial := by
  induction d generalizing m with
  | zero =>
    obtain ⟨frame, hframe⟩ := handleTimerExpired_directing hd
    have hsucc := h.succ_toNat hd
    have hlimit : m.config.transmissionLimit ≤ m.bcTransmissionCount + 1 := by
      rw [UInt8.le_iff_toNat_le]
      omega
    obtain ⟨hstate, hactions⟩ := repeatDirective_alert frame hlimit
    refine ⟨0, Nat.le_refl 0, ?_, ?_⟩
    · show .alert ∈ m.handleTimerExpired.2.take MAX_ACTIONS
      rw [hframe, hactions]
      decide
    · show m.handleTimerExpired.1.state = .initial
      rw [hframe]
      exact hstate
  | succ d ih =>
    obtain ⟨frame, hframe⟩ := handleTimerExpired_directing hd
    have hsucc := h.succ_toNat hd
    by_cases hlimit : m.config.transmissionLimit ≤ m.bcTransmissionCount + 1
    · obtain ⟨hstate, hactions⟩ := repeatDirective_alert frame hlimit
      refine ⟨0, Nat.zero_le _, ?_, ?_⟩
      · show .alert ∈ m.handleTimerExpired.2.take MAX_ACTIONS
        rw [hframe, hactions]
        decide
      · show m.handleTimerExpired.1.state = .initial
        rw [hframe]
        exact hstate
    · have hnext : (m.handle .timerExpired).1 =
          { m with bcTransmissionCount := m.bcTransmissionCount + 1 } := by
        show m.handleTimerExpired.1 = _
        rw [hframe, repeatDirective_again hlimit]
      have hcounted := h.handle .timerExpired
      rw [hnext] at hcounted
      obtain ⟨n, hn, hend⟩ := ih hcounted hd (by
        show m.config.transmissionLimit.toNat ≤ (m.bcTransmissionCount + 1).toNat + (d + 1)
        omega)
      refine ⟨n + 1, by omega, ?_⟩
      rw [expire, hnext]
      exact hend

theorem Counted.givesUp (h : m.Counted) (hd : m.Directing) : m.GivesUp := by
  obtain ⟨n, hn, hend⟩ := h.exists_expire hd (d := m.config.transmissionLimit.toNat) (by omega)
  exact ⟨n, by omega, hend⟩

theorem flags_setReportValue (v : UInt8) :
    (Clcw.new.setReportValue v).lockout = false ∧
    (Clcw.new.setReportValue v).retransmit = false := by
  have hbit : ∀ i, 8 ≤ i → (Clcw.new.setReportValue v).word.getLsbD i = false := by
    intro i hi
    have hvalue : v.toBitVec.getLsbD i = false := BitVec.getLsbD_of_ge _ _ hi
    have hzero : Clcw.new.word.getLsbD i = false := BitVec.getLsbD_zero
    rw [Clcw.setReportValue, Clcw.getLsbD_set, Clcw.trailingZeros_report, hzero,
      BitVec.getLsbD_setWidth, Nat.sub_zero, hvalue]
    simp
  rw [Clcw.lockout_eq, Clcw.retransmit_eq]
  exact ⟨hbit 13 (by decide), hbit 11 (by decide)⟩

theorem escapes_of_directing (hd : m.Directing) : m.Escapes := by
  obtain ⟨hlockout, hretransmit⟩ := flags_setReportValue m.setVrValue
  have hreport := Clcw.reportValue_set Clcw.new m.setVrValue
  refine ⟨Clcw.new.setReportValue m.setVrValue, hlockout, hretransmit, fun _ => hreport, ?_⟩
  have henter : ∃ vs, vs = (Clcw.new.setReportValue m.setVrValue).reportValue ∧
      m.handleClcw (Clcw.new.setReportValue m.setVrValue) =
        m.enterActive vs (Clcw.new.setReportValue m.setVrValue).reportValue := by
    rw [handleClcw]
    obtain hst | hst := hd
    · refine ⟨m.setVrValue, hreport.symm, ?_⟩
      rw [hst]
      exact if_pos ⟨hreport, hlockout, hretransmit⟩
    · refine ⟨_, rfl, ?_⟩
      rw [hst]
      exact if_pos ⟨hlockout, hretransmit⟩
  obtain ⟨vs, hvs, henter⟩ := henter
  refine ⟨?_, ?_, ?_⟩
  · show (m.handleClcw _).1.state = .active
    rw [henter]
    rfl
  · show .accept ∈ (m.handleClcw _).2.take MAX_ACTIONS
    rw [henter]
    exact List.mem_cons_of_mem _ List.mem_cons_self
  · show (m.handleClcw _).1.vs = _
    rw [henter]
    exact hvs

theorem not_escapes_of_noBC (h : m.state = .initNoBC) : ¬ m.Escapes := by
  intro hescapes
  obtain ⟨clcw, -, -, -, hactive, -, -⟩ := hescapes
  have hsame : (m.handle (.clcwReceived clcw)).1 = m := by
    show (m.handleClcw clcw).1 = m
    rw [handleClcw, h]
  rw [hsame, h] at hactive
  cases hactive

theorem ne_initial_of_noBC (h : m.state = .initNoBC) (n : Nat) :
    ((m.expire n).handle .timerExpired).1.state ≠ .initial := by
  have hsame : (m.handle .timerExpired).1 = m := by
    show m.handleTimerExpired.1 = m
    rw [handleTimerExpired, h]
  induction n with
  | zero =>
    show (m.handle .timerExpired).1.state ≠ .initial
    rw [hsame, h]
    decide
  | succ n ih =>
    rw [expire, hsame]
    exact ih

/-- An initialisation has its two ways out exactly when it is one with a directive frame. -/
theorem not_trap_iff (h : (machines WIN BUF).Reachable m)
    (hinit : m.state = .initNoBC ∨ m.state = .initWithSetVr ∨ m.state = .initWithUnlock) :
    (m.Escapes ∧ m.GivesUp) ↔ m.state ≠ .initNoBC := by
  constructor
  · intro hout hst
    exact not_escapes_of_noBC hst hout.1
  · intro hne
    have hd : m.Directing := by
      obtain hst | hd := hinit
      · exact absurd hst hne
      · exact hd
    exact ⟨escapes_of_directing hd, (counted_of_reachable h).givesUp hd⟩

/-- Set V(R) to 42, with one repetition allowed. -/
theorem not_trap_iff_setVr :
    ((FopMachine.new 2 8 ⟨2⟩).handle (.initAdSetVr 42)).1.Escapes ∧
      ((FopMachine.new 2 8 ⟨2⟩).handle (.initAdSetVr 42)).1.GivesUp := by
  have hreach : (machines 2 8).Reachable ((FopMachine.new 2 8 ⟨2⟩).handle (.initAdSetVr 42)).1 :=
    .step (.initAdSetVr 42) (.init ⟨⟨2⟩, rfl⟩) trivial rfl
  exact (not_trap_iff hreach (.inr (.inl rfl))).2 (by decide)

/-- The initialisation that waits for a control word never ends. -/
theorem noBC_trap :
    (machines 2 8).Reachable ((FopMachine.new 2 8 ⟨2⟩).handle .initAdWithClcw).1 ∧
      ((FopMachine.new 2 8 ⟨2⟩).handle .initAdWithClcw).1.state = .initNoBC ∧
      ¬ ((FopMachine.new 2 8 ⟨2⟩).handle .initAdWithClcw).1.Escapes ∧
      ¬ ((FopMachine.new 2 8 ⟨2⟩).handle .initAdWithClcw).1.GivesUp := by
  refine ⟨.step .initAdWithClcw (.init ⟨⟨2⟩, rfl⟩) trivial rfl, rfl,
    not_escapes_of_noBC rfl, ?_⟩
  intro hgives
  obtain ⟨n, -, -, hstate⟩ := hgives
  exact absurd hstate (ne_initial_of_noBC rfl n)

end FopMachine
end Cop1
end Leodos
