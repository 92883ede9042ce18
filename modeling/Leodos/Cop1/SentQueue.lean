/-
What the operations of the sender machine do to its sent queue.

A retransmission changes only the transmission counts, so the number, the data and
the occupancy of every slot are collected in `FduSlot.frame` and shown unchanged.
-/
import Leodos.Cop1.Fop

namespace Leodos
namespace Cop1

open Spp Memory

def FduSlot.frame (s : FduSlot) : Bool × UInt8 × Nat × Nat := (s.occupied, s.seq, s.offset, s.len)

theorem map_frame_bump (seq : UInt8) (queue : List FduSlot) :
    (bump seq queue).map FduSlot.frame = queue.map FduSlot.frame := by
  induction queue with
  | nil => rfl
  | cons s rest ih =>
    unfold bump
    by_cases h : s.occupied = true ∧ s.seq = seq
    · rw [if_pos h]
      rfl
    · rw [if_neg h, List.map_cons, ih, List.map_cons]

theorem map_frame_bumpAll (seqs : List UInt8) (queue : List FduSlot) :
    (bumpAll seqs queue).map FduSlot.frame = queue.map FduSlot.frame := by
  unfold bumpAll
  induction seqs generalizing queue with
  | nil => rfl
  | cons seq seqs ih => exact (ih _).trans (map_frame_bump seq queue)

theorem map_filter_frame (queue : List FduSlot) :
    (queue.filter fun s => s.occupied).map FduSlot.frame =
      (queue.map FduSlot.frame).filter fun f => f.1 := by
  rw [List.filter_map]
  rfl

/-! ## The order of retransmission -/

theorem foldl_orderedInsert (r : UInt8 → UInt8 → Prop) [DecidableRel r] (seqs acc : List UInt8) :
    (seqs.foldl (fun sorted seq => sorted.orderedInsert r seq) acc).Perm (seqs ++ acc) := by
  induction seqs generalizing acc with
  | nil => exact List.Perm.refl _
  | cons seq seqs ih =>
    have hins := (List.perm_orderedInsert r seq acc).append_left seqs
    exact (ih _).trans (hins.trans List.perm_middle)

theorem sortFrom_perm (nnr : UInt8) (seqs : List UInt8) : (sortFrom nnr seqs).Perm seqs := by
  have h := foldl_orderedInsert (fun key prev => prev - nnr ≤ key - nnr) seqs []
  rw [List.append_nil] at h
  exact (List.reverse_perm _).trans h

theorem sortFrom_pairwise (nnr : UInt8) (seqs : List UInt8) :
    (sortFrom nnr seqs).Pairwise fun a b => a - nnr ≤ b - nnr := by
  have htotal : Std.Total fun key prev : UInt8 => prev - nnr ≤ key - nnr :=
    ⟨fun a b => UInt8.le_total (b - nnr) (a - nnr)⟩
  have htrans : IsTrans UInt8 fun key prev : UInt8 => prev - nnr ≤ key - nnr :=
    ⟨fun a b c hab hbc => UInt8.le_trans hbc hab⟩
  have hsorted : ∀ acc : List UInt8,
      acc.Pairwise (fun key prev => prev - nnr ≤ key - nnr) →
      (seqs.foldl (fun sorted seq => sorted.orderedInsert
        (fun key prev => prev - nnr ≤ key - nnr) seq) acc).Pairwise
        fun key prev => prev - nnr ≤ key - nnr := by
    induction seqs with
    | nil => exact fun acc h => h
    | cons seq seqs ih => exact fun acc h => ih _ (h.orderedInsert seq acc)
  rw [sortFrom, List.pairwise_reverse]
  exact hsorted [] List.Pairwise.nil

namespace FopMachine

variable {WIN BUF : Nat} {m : FopMachine WIN BUF} {nr : UInt8}

/-- The machine sends numbered frames. -/
def Working (m : FopMachine WIN BUF) : Prop := m.state = .active ∨ m.state = .retransmitting

instance (m : FopMachine WIN BUF) : Decidable m.Working := inferInstanceAs (Decidable (_ ∨ _))

@[simp] theorem sent_purge : m.purgeSentQueue.sent = [] := by
  rw [sent, List.filter_eq_nil_iff]
  intro s hs
  obtain ⟨s', -, rfl⟩ := List.mem_map.mp hs
  exact Bool.false_ne_true

theorem mem_sent {s : FduSlot} : s ∈ m.sent ↔ s ∈ m.sentQueue ∧ s.occupied = true :=
  List.mem_filter

theorem sent_removeAcknowledged :
    (m.removeAcknowledged nr).1.sent = m.sent.filter fun s => ¬ s.Acked nr := by
  show (m.sentQueue.map (FduSlot.acknowledge nr)).filter (fun s => s.occupied) = _
  unfold sent
  induction m.sentQueue with
  | nil => rfl
  | cons s rest ih =>
    by_cases h : s.Acked nr
    · have hclear : s.acknowledge nr = s.clear := if_pos h
      rw [List.map_cons, hclear, List.filter_cons_of_neg (by simp [FduSlot.clear]), ih,
        List.filter_cons_of_pos h.1, List.filter_cons_of_neg (by simp [h])]
    · have hsame : s.acknowledge nr = s := if_neg h
      rw [List.map_cons, hsame]
      by_cases ho : s.occupied = true
      · rw [List.filter_cons_of_pos ho, ih, List.filter_cons_of_pos ho,
          List.filter_cons_of_pos (by simp [h])]
      · rw [List.filter_cons_of_neg ho, ih, List.filter_cons_of_neg ho]

theorem acks_removeAcknowledged :
    (m.removeAcknowledged nr).2 =
      (m.sent.filter fun s => s.Acked nr).map fun s => .acknowledged s.seq := by
  show (m.sentQueue.filter fun s => s.Acked nr).map _ = _
  congr 1
  unfold sent
  rw [List.filter_filter]
  apply List.filter_congr
  intro s _
  by_cases h : s.Acked nr
  · simp [h, h.1]
  · simp [h]

/-! ## Queueing -/

def nextSlot (m : FopMachine WIN BUF) (fdu : Bytes) : FduSlot :=
  ⟨true, m.vs, m.writePos, fdu.length, if m.state = .active then 1 else 0⟩

/-- The machine with one more frame, in slot `i`. -/
def queued (m : FopMachine WIN BUF) (i : Nat) (fdu : Bytes) : FopMachine WIN BUF :=
  { m with
    sentQueue := m.sentQueue.set i (m.nextSlot fdu)
    slots := m.set_slots i (m.nextSlot fdu)
    data := write m.data m.writePos fdu
    sized := m.write_sized fdu
    writePos := m.writePos + fdu.length
    vs := m.vs + 1 }

theorem handleSendAd_cases (m : FopMachine WIN BUF) (fdu : Bytes) :
    m.handleSendAd fdu = (m, [.reject]) ∨
    ∃ i, m.Working ∧ m.findEmptySlot = some i ∧ m.writePos + fdu.length ≤ BUF ∧
      m.handleSendAd fdu = (m.queued i fdu,
        if m.state = .active then [.transmitAd m.vs, .startTimer] else []) := by
  unfold handleSendAd
  by_cases hw : m.state = .active ∨ m.state = .retransmitting
  · rw [if_pos hw]
    cases hslot : m.findEmptySlot with
    | none => exact .inl rfl
    | some i =>
      by_cases hroom : BUF < m.writePos + fdu.length
      · simp only [bufferFdu, if_pos hroom]
        exact .inl trivial
      · refine .inr ⟨i, hw, rfl, by omega, ?_⟩
        simp only [bufferFdu, if_neg hroom]
        rfl
  · rw [if_neg hw]
    exact .inl rfl

theorem findEmptySlot_lt {i : Nat} (h : m.findEmptySlot = some i) : i < WIN := by
  have hi := (List.findIdx?_eq_some_iff_getElem.mp h).1
  rw [m.slots] at hi
  exact hi

/-! ## Go-back-N -/

theorem frames_initiateRetransmission :
    m.initiateRetransmission.1.sent.map FduSlot.frame = m.sent.map FduSlot.frame := by
  rw [sent, sent, map_filter_frame, map_filter_frame]
  exact congrArg _ (map_frame_bumpAll _ _)

theorem acks_add_sentCount :
    (m.removeAcknowledged nr).2.length + (m.removeAcknowledged nr).1.sentCount = m.sentCount := by
  have h := List.length_eq_length_filter_add (l := m.sent) fun s => decide (s.Acked nr)
  rw [acks_removeAcknowledged, sentCount, sent_removeAcknowledged, List.length_map, sentCount, h]
  simp

theorem pushed_initiateRetransmission :
    m.initiateRetransmission.2 =
      (sortFrom m.nnr (m.sent.map FduSlot.seq)).map .transmitAd ++
        if m.sent = [] then [] else [.startTimer] := by
  have hempty : (sortFrom m.nnr (m.sent.map FduSlot.seq)).isEmpty = true ↔ m.sent = [] := by
    rw [List.isEmpty_iff, ← List.length_eq_zero_iff, (sortFrom_perm _ _).length_eq,
      List.length_map, List.length_eq_zero_iff]
  show _ ++ (if (sortFrom m.nnr (m.sent.map FduSlot.seq)).isEmpty then _ else _) = _
  by_cases h : m.sent = []
  · rw [if_pos (hempty.mpr h), if_pos h]
  · rw [if_neg (fun h' => h (hempty.mp h')), if_neg h]

theorem seqs_initiateRetransmission :
    m.initiateRetransmission.1.sent.map FduSlot.seq = m.sent.map FduSlot.seq := by
  have h := congrArg (List.map fun f => f.2.1) (frames_initiateRetransmission (m := m))
  rw [List.map_map, List.map_map] at h
  exact h

theorem sent_initiateRetransmission_eq_nil :
    m.initiateRetransmission.1.sent = [] ↔ m.sent = [] := by
  rw [← List.map_eq_nil_iff, seqs_initiateRetransmission, List.map_eq_nil_iff]

theorem not_working (h : m.state ≠ .active) (h' : m.state ≠ .retransmitting) : ¬ m.Working :=
  fun hw => hw.elim h h'

theorem not_working_of_initial (h : m.state = .initial) : ¬ m.Working :=
  not_working (by rw [h]; decide) (by rw [h]; decide)

/-! ## A control word -/

def acknowledged (m : FopMachine WIN BUF) (nr : UInt8) : FopMachine WIN BUF :=
  { (m.removeAcknowledged nr).1 with nnr := nr }

theorem sent_acknowledged : (m.acknowledged nr).sent = m.sent.filter fun s => ¬ s.Acked nr :=
  sent_removeAcknowledged

theorem acks_add_acknowledged :
    (m.removeAcknowledged nr).2.length + (m.acknowledged nr).sentCount = m.sentCount :=
  acks_add_sentCount

def goneBack (m : FopMachine WIN BUF) : FopMachine WIN BUF :=
  { m.initiateRetransmission.1 with state := .retransmitting }

def setState (m : FopMachine WIN BUF) (state : FopState) : FopMachine WIN BUF :=
  { m with state := state }

/-- The timer is stopped when nothing is left to send. -/
def stopIfDone (m : FopMachine WIN BUF) : List FopAction :=
  if m.sentCount = 0 then [.stopTimer] else []

theorem stopTimer_notMem_stopIfDone (h : m.sent ≠ []) : .stopTimer ∉ m.stopIfDone := by
  have hcount : m.sentCount ≠ 0 := fun h0 => h (List.length_eq_zero_iff.mp h0)
  rw [stopIfDone, if_neg hcount]
  exact List.not_mem_nil

theorem handleClcw_cases (m : FopMachine WIN BUF) (clcw : Clcw) :
    (¬ m.Working ∧ m.handleClcw clcw = (m, [])) ∨
    (¬ m.Working ∧ ∃ vs, m.handleClcw clcw = m.enterActive vs clcw.reportValue) ∨
    (m.Working ∧ clcw.lockout = true ∧ m.handleClcw clcw = m.alert) ∨
    (m.state = .active ∧ clcw.lockout = false ∧ clcw.retransmit = true ∧
      m.handleClcw clcw = ((m.acknowledged clcw.reportValue).goneBack,
        (m.removeAcknowledged clcw.reportValue).2 ++
          (m.acknowledged clcw.reportValue).initiateRetransmission.2)) ∨
    (m.Working ∧ ∃ state stop, (state = .active ∨ state = .retransmitting) ∧
      (stop = [] ∨ stop = (m.acknowledged clcw.reportValue).stopIfDone) ∧
      (m.state = .active → clcw.retransmit = false) ∧
      m.handleClcw clcw = ((m.acknowledged clcw.reportValue).setState state,
        (m.removeAcknowledged clcw.reportValue).2 ++ stop)) := by
  unfold handleClcw
  cases hst : m.state with
  | active =>
    have hw : m.Working := .inl hst
    cases hl : clcw.lockout with
    | true => exact .inr (.inr (.inl ⟨hw, rfl, rfl⟩))
    | false =>
      cases hr : clcw.retransmit with
      | true => exact .inr (.inr (.inr (.inl ⟨rfl, rfl, rfl, rfl⟩)))
      | false =>
        exact .inr (.inr (.inr (.inr ⟨hw, m.state, _, .inl hst, .inr rfl, fun _ => rfl, rfl⟩)))
  | retransmitting =>
    have hw : m.Working := .inr hst
    cases hl : clcw.lockout with
    | true => exact .inr (.inr (.inl ⟨hw, rfl, rfl⟩))
    | false =>
      cases hr : clcw.retransmit with
      | true =>
        refine .inr (.inr (.inr (.inr ⟨hw, m.state, [], .inr hst, .inl rfl, nofun, ?_⟩)))
        rw [List.append_nil]
        rfl
      | false =>
        exact .inr (.inr (.inr (.inr ⟨hw, .active, _, .inl rfl, .inr rfl, nofun, rfl⟩)))
  | initWithSetVr =>
    have hw : ¬ m.Working := not_working (by rw [hst]; decide) (by rw [hst]; decide)
    by_cases h : clcw.reportValue = m.setVrValue ∧ clcw.lockout = false ∧ clcw.retransmit = false
    · exact .inr (.inl ⟨hw, m.setVrValue, if_pos h⟩)
    · exact .inl ⟨hw, if_neg h⟩
  | initWithUnlock =>
    have hw : ¬ m.Working := not_working (by rw [hst]; decide) (by rw [hst]; decide)
    by_cases h : clcw.lockout = false ∧ clcw.retransmit = false
    · exact .inr (.inl ⟨hw, clcw.reportValue, if_pos h⟩)
    · exact .inl ⟨hw, if_neg h⟩
  | initNoBC =>
    exact .inl ⟨not_working (by rw [hst]; decide) (by rw [hst]; decide), rfl⟩
  | initial =>
    exact .inl ⟨not_working (by rw [hst]; decide) (by rw [hst]; decide), rfl⟩

/-! ## The timer -/

theorem handleTimerExpired_alert (hw : m.Working) (hl : m.limitExceeded = true) :
    m.handleTimerExpired = m.alert := by
  unfold handleTimerExpired
  rcases hw with hst | hst <;> rw [hst, if_pos hl]

theorem handleTimerExpired_goneBack (hw : m.Working) (hl : m.limitExceeded = false) :
    m.handleTimerExpired = (m.goneBack, m.initiateRetransmission.2) := by
  have hl' : ¬ m.limitExceeded = true := by
    rw [hl]
    exact Bool.false_ne_true
  unfold handleTimerExpired
  rcases hw with hst | hst <;> rw [hst, if_neg hl'] <;> rfl

theorem sent_repeatDirective (h : m.sent = []) (frame : FopAction) :
    (m.repeatDirective frame).1.sent = [] := by
  simp only [repeatDirective]
  by_cases hl : m.config.transmissionLimit ≤ m.bcTransmissionCount + 1
  · rw [if_pos hl]
    exact sent_purge
  · rw [if_neg hl]
    exact h

theorem sent_handleTimerExpired_idle (hw : ¬ m.Working) (h : m.sent = []) :
    m.handleTimerExpired.1.sent = [] := by
  unfold handleTimerExpired
  cases hst : m.state with
  | active => exact absurd (.inl hst) hw
  | retransmitting => exact absurd (.inr hst) hw
  | initWithSetVr => exact sent_repeatDirective h _
  | initWithUnlock => exact sent_repeatDirective h _
  | initNoBC => exact h
  | initial => exact h

end FopMachine

end Cop1
end Leodos
