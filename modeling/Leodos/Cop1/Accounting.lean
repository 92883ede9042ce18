/-
The byte buffer of the sender machine.

Data is appended at the write position, which only a purge moves back.  `Accounted`
is what a user of the buffer relies on: every frame and the pending BD FDU read back
as submitted, their ranges are disjoint, and the space of what is gone can be used
again.  The first two hold while nothing is written over a BD FDU that a purge left
behind, and the third while no data leaves the buffer before a purge.
-/
import Leodos.Cop1.SentQueue
import Leodos.Transition.System
import Mathlib.Logic.Function.Basic

namespace Leodos
namespace Cop1

open Spp Memory Transition

/-! ## Ranges and frames -/

/-- No byte lies in both ranges, each an offset and a length. -/
def Apart (a b : Nat × Nat) : Prop :=
  a.2 = 0 ∨ b.2 = 0 ∨ a.1 + a.2 ≤ b.1 ∨ b.1 + b.2 ≤ a.1

instance (a b : Nat × Nat) : Decidable (Apart a b) :=
  inferInstanceAs (Decidable (_ ∨ _ ∨ _ ∨ _))

theorem apart_comm {a b : Nat × Nat} : Apart a b ↔ Apart b a := by
  unfold Apart
  omega

theorem slice_write_of_apart {data fdu : Bytes} {off : Nat} {b : Nat × Nat}
    (h : Apart (off, fdu.length) b) : slice (write data off fdu) b.1 b.2 = slice data b.1 b.2 := by
  by_cases hb : b.2 = 0
  · rw [hb, slice_zero, slice_zero]
  · by_cases hf : fdu.length = 0
    · rw [List.length_eq_zero_iff.mp hf, write_nil]
    · refine slice_write_of_disjoint ?_
      unfold Apart at h
      omega

def FduSlot.range (s : FduSlot) : Nat × Nat := (s.offset, s.len)

def bytesOf : List FduSlot → Nat
  | [] => 0
  | s :: rest => (if s.occupied then s.len else 0) + bytesOf rest

theorem bytesOf_congr {queue queue' : List FduSlot}
    (h : queue.map FduSlot.frame = queue'.map FduSlot.frame) : bytesOf queue = bytesOf queue' := by
  induction queue generalizing queue' with
  | nil =>
    rw [List.map_nil, eq_comm, List.map_eq_nil_iff] at h
    rw [h]
  | cons s rest ih =>
    cases queue' with
    | nil => cases h
    | cons s' rest' =>
      rw [List.map_cons, List.map_cons, List.cons.injEq] at h
      obtain ⟨hs, hrest⟩ := h
      simp only [FduSlot.frame, Prod.mk.injEq] at hs
      rw [bytesOf, bytesOf, hs.1, hs.2.2.2, ih hrest]

theorem bytesOf_set {queue : List FduSlot} {i : Nat} {s s' : FduSlot} (hi : queue[i]? = some s)
    (hs : s.occupied = false) (hs' : s'.occupied = true) :
    bytesOf (queue.set i s') = bytesOf queue + s'.len := by
  induction queue generalizing i with
  | nil => cases hi
  | cons a rest ih =>
    cases i with
    | zero =>
      rw [List.getElem?_cons_zero, Option.some.injEq] at hi
      rw [List.set_cons_zero, bytesOf, bytesOf, hi, hs, hs', if_pos rfl,
        if_neg Bool.false_ne_true]
      omega
    | succ i =>
      rw [List.getElem?_cons_succ] at hi
      rw [List.set_cons_succ, bytesOf, bytesOf, ih hi]
      omega

theorem bytesOf_acknowledge {queue : List FduSlot} {nr : UInt8}
    (h : ∀ s ∈ queue, s.Acked nr → s.len = 0) :
    bytesOf (queue.map (FduSlot.acknowledge nr)) = bytesOf queue := by
  induction queue with
  | nil => rfl
  | cons s rest ih =>
    rw [List.map_cons, bytesOf, bytesOf, ih fun s' hs' => h s' (List.mem_cons_of_mem _ hs')]
    by_cases ha : s.Acked nr
    · rw [FduSlot.acknowledge, if_pos ha, FduSlot.clear, if_neg Bool.false_ne_true, if_pos ha.1,
        h s List.mem_cons_self ha]
    · rw [FduSlot.acknowledge, if_neg ha]

namespace FopMachine

variable {WIN BUF : Nat} {m m' : FopMachine WIN BUF}

def getBdFdu (m : FopMachine WIN BUF) : Option Bytes :=
  m.pendingBd.map fun b => slice m.data b.1 b.2

/-- Slot `i` holds the frame. -/
def Files (m : FopMachine WIN BUF) (i : Nat) (f : Bool × UInt8 × Nat × Nat) : Prop :=
  (m.sentQueue.map FduSlot.frame)[i]? = some f ∧ f.1 = true

theorem files_iff {i : Nat} {f : Bool × UInt8 × Nat × Nat} :
    m.Files i f ↔ ∃ s, m.sentQueue[i]? = some s ∧ s.occupied = true ∧ s.frame = f := by
  unfold Files
  rw [List.getElem?_map, Option.map_eq_some_iff]
  constructor
  · rintro ⟨⟨s, hs, rfl⟩, ho⟩
    exact ⟨s, hs, ho, rfl⟩
  · rintro ⟨s, hs, ho, rfl⟩
    exact ⟨⟨s, hs, rfl⟩, ho⟩

theorem getFdu_of_files {i : Nat} {f : Bool × UInt8 × Nat × Nat} (h : m.Files i f)
    (huniq : ∀ j g, m.Files j g → g.2.1 = f.2.1 → j = i) :
    m.getFdu f.2.1 = some (slice m.data f.2.2.1 f.2.2.2) := by
  obtain ⟨s, hs, ho, rfl⟩ := files_iff.mp h
  unfold getFdu
  obtain ⟨t, ht⟩ : ∃ t, (m.sentQueue.find? fun t => t.occupied ∧ t.seq = s.frame.2.1) = some t := by
    rw [← Option.isSome_iff_exists, List.find?_isSome]
    exact ⟨s, List.mem_of_getElem? hs, by simp [ho, FduSlot.frame]⟩
  have hfound := List.find?_some ht
  simp only [decide_eq_true_eq] at hfound
  obtain ⟨j, hj⟩ := List.mem_iff_getElem?.mp (List.mem_of_find?_eq_some ht)
  have hji := huniq j t.frame (files_iff.mpr ⟨t, hj, hfound.1, rfl⟩) hfound.2
  subst hji
  rw [hs, Option.some.injEq] at hj
  rw [ht, hj]
  rfl

/-! ## What the events do to the buffer -/

/-- Nothing but counts and states changes. -/
structure Kept (m m' : FopMachine WIN BUF) : Prop where
  frames : m'.sentQueue.map FduSlot.frame = m.sentQueue.map FduSlot.frame
  data : m'.data = m.data
  writePos : m'.writePos = m.writePos
  pendingBd : m'.pendingBd = m.pendingBd

/-- The queue is emptied, and the buffer is filled from the start again. -/
structure Purged (m m' : FopMachine WIN BUF) : Prop where
  sent : m'.sent = []
  data : m'.data = m.data
  writePos : m'.writePos = 0
  pendingBd : m'.pendingBd = m.pendingBd

structure Released (nr : UInt8) (m m' : FopMachine WIN BUF) : Prop where
  frames : m'.sentQueue.map FduSlot.frame =
    (m.sentQueue.map (FduSlot.acknowledge nr)).map FduSlot.frame
  data : m'.data = m.data
  writePos : m'.writePos = m.writePos
  pendingBd : m'.pendingBd = m.pendingBd

theorem kept_refl (m : FopMachine WIN BUF) : Kept m m := ⟨rfl, rfl, rfl, rfl⟩

theorem kept_goneBack : Kept m m.goneBack := ⟨map_frame_bumpAll _ _, rfl, rfl, rfl⟩

theorem purged_alert : Purged m m.alert.1 := ⟨sent_purge, rfl, rfl, rfl⟩

theorem purged_enterActive {vs nr : UInt8} : Purged m (m.enterActive vs nr).1 :=
  ⟨sent_purge, rfl, rfl, rfl⟩

theorem released_goneBack {nr : UInt8} : Released nr m (m.acknowledged nr).goneBack :=
  ⟨map_frame_bumpAll _ _, rfl, rfl, rfl⟩

theorem released_setState {nr : UInt8} {state : FopState} :
    Released nr m ((m.acknowledged nr).setState state) :=
  ⟨rfl, rfl, rfl, rfl⟩

theorem handleClcw_buffer (m : FopMachine WIN BUF) (clcw : Clcw) :
    Kept m (m.handleClcw clcw).1 ∨ Purged m (m.handleClcw clcw).1 ∨
      m.Working ∧ clcw.lockout = false ∧
        Released clcw.reportValue m (m.handleClcw clcw).1 := by
  rcases handleClcw_cases m clcw with ⟨-, h⟩ | ⟨-, vs, h⟩ | ⟨-, -, h⟩ | ⟨hst, hl, -, h⟩ |
      ⟨hw, state, stop, -, -, -, h⟩
  · rw [h]
    exact .inl (kept_refl m)
  · rw [h]
    exact .inr (.inl purged_enterActive)
  · rw [h]
    exact .inr (.inl purged_alert)
  · rw [h]
    exact .inr (.inr ⟨.inl hst, hl, released_goneBack⟩)
  · by_cases hl : clcw.lockout = true
    · have halert : m.handleClcw clcw = m.alert := by
        rcases hw with hst | hst <;> simp only [handleClcw, hst, hl, if_true]
      rw [halert]
      exact .inr (.inl purged_alert)
    · rw [h]
      exact .inr (.inr ⟨hw, by simpa using hl, released_setState⟩)

theorem repeatDirective_buffer (m : FopMachine WIN BUF) (frame : FopAction) :
    Kept m (m.repeatDirective frame).1 ∨ Purged m (m.repeatDirective frame).1 := by
  simp only [repeatDirective]
  by_cases h : m.config.transmissionLimit ≤ m.bcTransmissionCount + 1
  · rw [if_pos h]
    exact .inr ⟨sent_purge, rfl, rfl, rfl⟩
  · rw [if_neg h]
    exact .inl ⟨rfl, rfl, rfl, rfl⟩

theorem handleTimerExpired_buffer (m : FopMachine WIN BUF) :
    Kept m m.handleTimerExpired.1 ∨ Purged m m.handleTimerExpired.1 := by
  by_cases hw : m.Working
  · cases hl : m.limitExceeded with
    | true =>
      rw [handleTimerExpired_alert hw hl]
      exact .inr purged_alert
    | false =>
      rw [handleTimerExpired_goneBack hw hl]
      exact .inl kept_goneBack
  · unfold handleTimerExpired
    cases hst : m.state with
    | active => exact absurd (.inl hst) hw
    | retransmitting => exact absurd (.inr hst) hw
    | initWithSetVr => exact repeatDirective_buffer m _
    | initWithUnlock => exact repeatDirective_buffer m _
    | initNoBC => exact .inl (kept_refl m)
    | initial => exact .inl (kept_refl m)

theorem started_buffer {actions : List FopAction} (h : Purged m m') :
    Kept m (if m.state = .initial then (m', actions) else (m, [.reject])).1 ∨
      Purged m (if m.state = .initial then (m', actions) else (m, [.reject])).1 := by
  by_cases hi : m.state = .initial
  · rw [if_pos hi]
    exact .inr h
  · rw [if_neg hi]
    exact .inl (kept_refl m)

theorem handleResume_buffer (m : FopMachine WIN BUF) : Kept m m.handleResume.1 := by
  unfold handleResume
  by_cases hi : m.state = .initial
  · rw [if_pos hi]
    exact ⟨rfl, rfl, rfl, rfl⟩
  · rw [if_neg hi]
    exact kept_refl m

def withBd (m : FopMachine WIN BUF) (fdu : Bytes) : FopMachine WIN BUF :=
  { m with
    data := write m.data m.writePos fdu
    sized := m.write_sized fdu
    writePos := m.writePos + fdu.length
    pendingBd := some (m.writePos, fdu.length) }

theorem handleSendBd_cases (m : FopMachine WIN BUF) (fdu : Bytes) :
    m.handleSendBd fdu = (m, [.reject]) ∨
      m.writePos + fdu.length ≤ BUF ∧ m.handleSendBd fdu = (m.withBd fdu, [.transmitBd]) := by
  unfold handleSendBd
  by_cases hroom : BUF < m.writePos + fdu.length
  · simp only [bufferFdu, if_pos hroom]
    exact .inl trivial
  · simp only [bufferFdu, if_neg hroom]
    exact .inr ⟨by omega, rfl⟩

end FopMachine

/-! ## Sessions -/

/-- The machine with what was submitted: the FDU of the last frame put in each slot,
and the last BD FDU. -/
structure Session (WIN BUF : Nat) where
  fop : FopMachine WIN BUF
  submitted : Nat → Bytes
  bd : Option Bytes

variable {WIN BUF : Nat}

def Session.new (WIN BUF : Nat) (config : FopConfig) : Session WIN BUF :=
  ⟨.new WIN BUF config, fun _ => [], none⟩

def Session.Rejects (s : Session WIN BUF) (e : FopEvent) : Prop := .reject ∈ (s.fop.handle e).2

instance (s : Session WIN BUF) (e : FopEvent) : Decidable (s.Rejects e) :=
  inferInstanceAs (Decidable (_ ∈ _))

def Session.next (s : Session WIN BUF) (e : FopEvent) : Session WIN BUF where
  fop := (s.fop.handle e).1
  submitted :=
    match e, s.fop.findEmptySlot with
    | .sendAd fdu, some i => if s.Rejects e then s.submitted else Function.update s.submitted i fdu
    | _, _ => s.submitted
  bd :=
    match e with
    | .sendBd fdu => if s.Rejects e then s.bd else some fdu
    | _ => s.bd

def sessions (WIN BUF : Nat) : System (Session WIN BUF) FopEvent where
  init s := ∃ config, s = .new WIN BUF config
  step s e s' := s' = s.next e

def FopMachine.bdBytes (m : FopMachine WIN BUF) : Nat :=
  match m.pendingBd with
  | none => 0
  | some b => b.2

/-- What was submitted reads back, from ranges of its own. -/
structure Readable (s : Session WIN BUF) : Prop where
  frames : ∀ (i : Nat) (slot : FduSlot), s.fop.sentQueue[i]? = some slot → slot.occupied = true →
    s.fop.getFdu slot.seq = some (s.submitted i)
  bd : s.fop.getBdFdu = s.bd
  slotsApart : ∀ (i j : Nat) (slot slot' : FduSlot), i ≠ j →
    s.fop.sentQueue[i]? = some slot → s.fop.sentQueue[j]? = some slot' →
      slot.occupied = true → slot'.occupied = true → Apart slot.range slot'.range
  bdApart : ∀ (i : Nat) (slot : FduSlot) (b : Nat × Nat), s.fop.sentQueue[i]? = some slot →
    slot.occupied = true → s.fop.pendingBd = some b → Apart slot.range b

/-- What the buffer promises its user. -/
structure Accounted (s : Session WIN BUF) : Prop extends Readable s where
  reusable : s.fop.state = .active → s.fop.findEmptySlot.isSome = true →
    ∀ fdu : Bytes, fdu.length + (bytesOf s.fop.sentQueue + s.fop.bdBytes) ≤ BUF →
      ¬ s.Rejects (.sendAd fdu)

/-- A new frame has a number of its own and keeps clear of the BD FDU. -/
def Clear (s : Session WIN BUF) : FopEvent → Prop
  | .sendAd fdu =>
      s.fop.Working → s.fop.findEmptySlot.isSome = true → s.fop.writePos + fdu.length ≤ BUF →
        (∀ slot ∈ s.fop.sent, slot.seq ≠ s.fop.vs) ∧
          ∀ b ∈ s.fop.pendingBd, Apart (s.fop.writePos, fdu.length) b
  | _ => True

instance (s : Session WIN BUF) : (e : FopEvent) → Decidable (Clear s e)
  | .sendAd _ => inferInstanceAs (Decidable (_ → _ → _ ≤ _ → (∀ slot ∈ s.fop.sent, _ ≠ _) ∧
      ∀ b ∈ s.fop.pendingBd, Apart _ b))
  | .sendBd _ | .clcwReceived _ | .timerExpired | .initAdNoClcw | .initAdWithClcw
  | .initAdSetVr _ | .initAdUnlock | .terminate | .resume => .isTrue trivial

/-- The data of the buffer stays until a purge: no BD FDU below the write position is
replaced, and no frame with data is acknowledged. -/
def Stays (s : Session WIN BUF) : FopEvent → Prop
  | .sendAd fdu => Clear s (.sendAd fdu)
  | .sendBd fdu =>
      s.fop.writePos + fdu.length ≤ BUF →
        ∀ b ∈ s.fop.pendingBd, b.2 = 0 ∨ s.fop.writePos ≤ b.1
  | .clcwReceived clcw =>
      s.fop.Working → clcw.lockout = false →
        ∀ slot ∈ s.fop.sent, slot.Acked clcw.reportValue → slot.len = 0
  | _ => True

instance (s : Session WIN BUF) : (e : FopEvent) → Decidable (Stays s e)
  | .sendAd fdu => inferInstanceAs (Decidable (Clear s (.sendAd fdu)))
  | .sendBd _ =>
      inferInstanceAs (Decidable (_ ≤ _ → ∀ b ∈ s.fop.pendingBd, b.2 = 0 ∨ _ ≤ b.1))
  | .clcwReceived _ =>
      inferInstanceAs (Decidable (_ → _ → ∀ slot ∈ s.fop.sent, slot.Acked _ → slot.len = 0))
  | .timerExpired | .initAdNoClcw | .initAdWithClcw | .initAdSetVr _ | .initAdUnlock
  | .terminate | .resume => .isTrue trivial

theorem Stays.clear {s : Session WIN BUF} {e : FopEvent} (h : Stays s e) : Clear s e := by
  cases e with
  | sendAd fdu => exact h
  | _ => exact trivial

/-! ## The layout of the buffer -/

/-- The bytes of the BD FDU, when it was put there since the last purge. -/
def FopMachine.bdBelow (m : FopMachine WIN BUF) : Nat :=
  match m.pendingBd with
  | none => 0
  | some b => if b.1 < m.writePos then b.2 else 0

/-- The frames lie one by one below the write position, with the BD FDU among them or
out of their way. -/
structure Laid (s : Session WIN BUF) : Prop where
  room : s.fop.writePos ≤ BUF
  below : ∀ i f, s.fop.Files i f → f.2.2.1 + f.2.2.2 ≤ s.fop.writePos
  held : ∀ i f, s.fop.Files i f → slice s.fop.data f.2.2.1 f.2.2.2 = s.submitted i
  apart : ∀ i j f g, i ≠ j → s.fop.Files i f → s.fop.Files j g → Apart f.2.2 g.2.2
  numbers : ∀ i j f g, s.fop.Files i f → s.fop.Files j g → g.2.1 = f.2.1 → j = i
  bdHeld : s.fop.getBdFdu = s.bd
  bdApart : ∀ i f b, s.fop.Files i f → s.fop.pendingBd = some b → Apart f.2.2 b

/-- There are no gaps below the write position. -/
def Filled (s : Session WIN BUF) : Prop :=
  s.fop.writePos ≤ bytesOf s.fop.sentQueue + s.fop.bdBelow

section Layout

open FopMachine

variable {s : Session WIN BUF} {m : FopMachine WIN BUF}

theorem bdBelow_congr {m m' : FopMachine WIN BUF} (hp : m'.pendingBd = m.pendingBd)
    (hw : m'.writePos = m.writePos) : m'.bdBelow = m.bdBelow := by
  unfold bdBelow
  rw [hp, hw]

theorem bdBelow_le (m : FopMachine WIN BUF) : m.bdBelow ≤ m.bdBytes := by
  unfold bdBelow bdBytes
  split
  · exact Nat.le_refl _
  · split
    · exact Nat.le_refl _
    · exact Nat.zero_le _

theorem getBdFdu_congr {m m' : FopMachine WIN BUF} (hp : m'.pendingBd = m.pendingBd)
    (hd : m'.data = m.data) : m'.getBdFdu = m.getBdFdu := by
  unfold getBdFdu
  rw [hp, hd]

theorem Laid.fewer (h : Laid s) (hfiles : ∀ i f, m.Files i f → s.fop.Files i f)
    (hd : m.data = s.fop.data) (hw : m.writePos = s.fop.writePos)
    (hp : m.pendingBd = s.fop.pendingBd) : Laid ⟨m, s.submitted, s.bd⟩ where
  room := hw ▸ h.room
  below := fun i f hf => hw ▸ h.below i f (hfiles i f hf)
  held := fun i f hf => hd ▸ h.held i f (hfiles i f hf)
  apart := fun i j f g hij hf hg => h.apart i j f g hij (hfiles i f hf) (hfiles j g hg)
  numbers := fun i j f g hf hg => h.numbers i j f g (hfiles i f hf) (hfiles j g hg)
  bdHeld := (getBdFdu_congr hp hd).trans h.bdHeld
  bdApart := fun i f b hf hb => h.bdApart i f b (hfiles i f hf) (hp ▸ hb)

theorem Filled.congr (h : Filled s) (hbytes : bytesOf m.sentQueue = bytesOf s.fop.sentQueue)
    (hw : m.writePos = s.fop.writePos) (hp : m.pendingBd = s.fop.pendingBd) :
    Filled ⟨m, s.submitted, s.bd⟩ := by
  show m.writePos ≤ bytesOf m.sentQueue + m.bdBelow
  rw [hw, hbytes, bdBelow_congr hp hw]
  exact h

theorem Laid.kept (h : Laid s) (hk : Kept s.fop m) : Laid ⟨m, s.submitted, s.bd⟩ := by
  refine h.fewer (fun i f hf => ?_) hk.data hk.writePos hk.pendingBd
  unfold Files at hf ⊢
  rw [hk.frames] at hf
  exact hf

theorem Laid.released {nr : UInt8} (h : Laid s) (hr : Released nr s.fop m) :
    Laid ⟨m, s.submitted, s.bd⟩ := by
  refine h.fewer (fun i f hf => ?_) hr.data hr.writePos hr.pendingBd
  unfold Files at hf
  rw [hr.frames, List.getElem?_map, List.getElem?_map, Option.map_map,
    Option.map_eq_some_iff] at hf
  obtain ⟨⟨slot, hslot, rfl⟩, ho⟩ := hf
  by_cases ha : slot.Acked nr
  · have hclear : slot.acknowledge nr = slot.clear := if_pos ha
    rw [Function.comp, hclear] at ho
    cases ho
  · have hsame : slot.acknowledge nr = slot := if_neg ha
    rw [Function.comp, hsame] at ho ⊢
    exact files_iff.mpr ⟨slot, hslot, ho, rfl⟩

theorem Filled.released {nr : UInt8} (h : Filled s) (hr : Released nr s.fop m)
    (hempty : ∀ slot ∈ s.fop.sent, slot.Acked nr → slot.len = 0) :
    Filled ⟨m, s.submitted, s.bd⟩ := by
  refine h.congr ?_ hr.writePos hr.pendingBd
  rw [bytesOf_congr hr.frames, bytesOf_acknowledge]
  intro slot hslot ha
  exact hempty slot (mem_sent.mpr ⟨hslot, ha.1⟩) ha

theorem not_files_of_sent_nil (h : m.sent = []) {i : Nat} {f : Bool × UInt8 × Nat × Nat} :
    ¬ m.Files i f := by
  intro hf
  obtain ⟨slot, hslot, ho, -⟩ := files_iff.mp hf
  have hmem := mem_sent.mpr ⟨List.mem_of_getElem? hslot, ho⟩
  rw [h] at hmem
  cases hmem

theorem Laid.purged (h : Laid s) (hp : Purged s.fop m) : Laid ⟨m, s.submitted, s.bd⟩ where
  room := by
    show m.writePos ≤ BUF
    rw [hp.writePos]
    exact Nat.zero_le _
  below := fun i f hf => absurd hf (not_files_of_sent_nil hp.sent)
  held := fun i f hf => absurd hf (not_files_of_sent_nil hp.sent)
  apart := fun i j f g _ hf => absurd hf (not_files_of_sent_nil hp.sent)
  numbers := fun i j f g hf => absurd hf (not_files_of_sent_nil hp.sent)
  bdHeld := (getBdFdu_congr hp.pendingBd hp.data).trans h.bdHeld
  bdApart := fun i f b hf => absurd hf (not_files_of_sent_nil hp.sent)

theorem filled_of_purged (hp : Purged s.fop m) : Filled ⟨m, s.submitted, s.bd⟩ := by
  show m.writePos ≤ _
  rw [hp.writePos]
  exact Nat.zero_le _

theorem files_queued {i : Nat} {fdu : Bytes} (hslot : m.findEmptySlot = some i) {j : Nat}
    {f : Bool × UInt8 × Nat × Nat} (hf : (m.queued i fdu).Files j f) :
    j = i ∧ f = (m.nextSlot fdu).frame ∨ j ≠ i ∧ m.Files j f := by
  have hi := findEmptySlot_lt hslot
  rw [← m.slots] at hi
  obtain ⟨slot, hget, ho, rfl⟩ := files_iff.mp hf
  have hget' : (m.sentQueue.set i (m.nextSlot fdu))[j]? = some slot := hget
  by_cases hji : j = i
  · rw [hji, List.getElem?_set_self hi, Option.some.injEq] at hget'
    exact .inl ⟨hji, by rw [hget']⟩
  · rw [List.getElem?_set_ne (Ne.symm hji)] at hget'
    exact .inr ⟨hji, files_iff.mpr ⟨slot, hget', ho, rfl⟩⟩

theorem bytesOf_queued {i : Nat} {fdu : Bytes} (hslot : m.findEmptySlot = some i) :
    bytesOf (m.queued i fdu).sentQueue = bytesOf m.sentQueue + fdu.length := by
  obtain ⟨hi, hempty, -⟩ := List.findIdx?_eq_some_iff_getElem.mp hslot
  exact bytesOf_set (List.getElem?_eq_getElem hi) (by simpa using hempty) rfl

theorem Laid.queued {i : Nat} {fdu : Bytes} (h : Laid s) (hslot : s.fop.findEmptySlot = some i)
    (hroom : s.fop.writePos + fdu.length ≤ BUF)
    (hseq : ∀ slot ∈ s.fop.sent, slot.seq ≠ s.fop.vs)
    (hbd : ∀ b ∈ s.fop.pendingBd, Apart (s.fop.writePos, fdu.length) b) :
    Laid ⟨s.fop.queued i fdu, Function.update s.submitted i fdu, s.bd⟩ := by
  have hnumber : ∀ j f, s.fop.Files j f → f.2.1 ≠ s.fop.vs := by
    intro j f hf
    obtain ⟨slot, hget, ho, rfl⟩ := files_iff.mp hf
    exact hseq slot (mem_sent.mpr ⟨List.mem_of_getElem? hget, ho⟩)
  have hnew : ∀ j f, s.fop.Files j f → Apart (s.fop.writePos, fdu.length) f.2.2 := fun j f hf =>
    .inr (.inr (.inr (h.below j f hf)))
  refine ⟨hroom, fun j f hf => ?_, fun j f hf => ?_, fun j k f g hjk hf hg => ?_,
    fun j k f g hf hg he => ?_, ?_, fun j f b hf hb => ?_⟩
  · rcases files_queued hslot hf with ⟨-, rfl⟩ | ⟨-, hf'⟩
    · exact Nat.le_refl _
    · exact Nat.le_trans (h.below j f hf') (Nat.le_add_right _ _)
  · rcases files_queued hslot hf with ⟨rfl, rfl⟩ | ⟨hji, hf'⟩
    · show slice (write s.fop.data s.fop.writePos fdu) s.fop.writePos fdu.length =
        Function.update s.submitted j fdu j
      rw [slice_write_self (by rw [s.fop.sized]; exact hroom), Function.update_self]
    · show slice (write s.fop.data s.fop.writePos fdu) f.2.2.1 f.2.2.2 =
        Function.update s.submitted i fdu j
      rw [slice_write_of_apart (hnew j f hf'), h.held j f hf', Function.update_of_ne hji]
  · rcases files_queued hslot hf with ⟨rfl, rfl⟩ | ⟨hji, hf'⟩
    · rcases files_queued hslot hg with ⟨rfl, rfl⟩ | ⟨-, hg'⟩
      · exact absurd rfl hjk
      · exact hnew k g hg'
    · rcases files_queued hslot hg with ⟨rfl, rfl⟩ | ⟨-, hg'⟩
      · exact apart_comm.mp (hnew j f hf')
      · exact h.apart j k f g hjk hf' hg'
  · rcases files_queued hslot hf with ⟨rfl, rfl⟩ | ⟨hji, hf'⟩
    · rcases files_queued hslot hg with ⟨rfl, rfl⟩ | ⟨-, hg'⟩
      · rfl
      · exact absurd he (hnumber k g hg')
    · rcases files_queued hslot hg with ⟨rfl, rfl⟩ | ⟨-, hg'⟩
      · exact absurd he.symm (hnumber j f hf')
      · exact h.numbers j k f g hf' hg' he
  · rw [← h.bdHeld]
    show (s.fop.pendingBd.map fun b =>
      slice (write s.fop.data s.fop.writePos fdu) b.1 b.2) = s.fop.getBdFdu
    unfold getBdFdu
    cases hp : s.fop.pendingBd with
    | none => rfl
    | some b => rw [Option.map_some, Option.map_some, slice_write_of_apart (hbd b hp)]
  · have hb' : s.fop.pendingBd = some b := hb
    rcases files_queued hslot hf with ⟨-, rfl⟩ | ⟨-, hf'⟩
    · exact hbd b hb'
    · exact h.bdApart j f b hf' hb'

theorem Filled.queued {i : Nat} {fdu : Bytes} (h : Filled s)
    (hslot : s.fop.findEmptySlot = some i) :
    Filled ⟨s.fop.queued i fdu, Function.update s.submitted i fdu, s.bd⟩ := by
  have hmono : s.fop.bdBelow ≤ (s.fop.queued i fdu).bdBelow := by
    show s.fop.bdBelow ≤ (match s.fop.pendingBd with
      | none => 0
      | some b => if b.1 < s.fop.writePos + fdu.length then b.2 else 0)
    unfold bdBelow
    split
    · exact Nat.le_refl _
    · split
      · rw [if_pos (by omega)]
      · exact Nat.zero_le _
  show s.fop.writePos + fdu.length ≤ bytesOf (s.fop.queued i fdu).sentQueue +
    (s.fop.queued i fdu).bdBelow
  rw [bytesOf_queued hslot]
  unfold Filled at h
  omega

theorem Laid.withBd {fdu : Bytes} (h : Laid s) (hroom : s.fop.writePos + fdu.length ≤ BUF) :
    Laid ⟨s.fop.withBd fdu, s.submitted, some fdu⟩ := by
  have hnew : ∀ j f, s.fop.Files j f → Apart (s.fop.writePos, fdu.length) f.2.2 := fun j f hf =>
    .inr (.inr (.inr (h.below j f hf)))
  refine ⟨hroom, fun i f hf => ?_, fun i f hf => ?_, h.apart, h.numbers, ?_,
    fun i f b hf hb => ?_⟩
  · exact Nat.le_trans (h.below i f hf) (Nat.le_add_right _ _)
  · show slice (write s.fop.data s.fop.writePos fdu) f.2.2.1 f.2.2.2 = s.submitted i
    rw [slice_write_of_apart (hnew i f hf), h.held i f hf]
  · show some (slice (write s.fop.data s.fop.writePos fdu) s.fop.writePos fdu.length) = some fdu
    rw [slice_write_self (by rw [s.fop.sized]; exact hroom)]
  · have hb' : some (s.fop.writePos, fdu.length) = some b := hb
    rw [Option.some.injEq] at hb'
    exact hb' ▸ apart_comm.mp (hnew i f hf)

theorem Filled.withBd {fdu : Bytes} (h : Filled s)
    (hbd : ∀ b ∈ s.fop.pendingBd, b.2 = 0 ∨ s.fop.writePos ≤ b.1) :
    Filled ⟨s.fop.withBd fdu, s.submitted, some fdu⟩ := by
  have hold : s.fop.bdBelow = 0 := by
    unfold bdBelow
    split
    · rfl
    · rename_i b hb
      rcases hbd b hb with hz | hle
      · rw [hz, ite_self]
      · rw [if_neg (by omega)]
  unfold Filled at h
  show s.fop.writePos + fdu.length ≤ bytesOf s.fop.sentQueue +
    (if s.fop.writePos < s.fop.writePos + fdu.length then fdu.length else 0)
  rw [hold] at h
  split <;> omega

/-! ## Steps -/

inductive Moves (s : Session WIN BUF) : FopEvent → Session WIN BUF → Prop
  | kept {e : FopEvent} {m : FopMachine WIN BUF} : Kept s.fop m →
      Moves s e ⟨m, s.submitted, s.bd⟩
  | purged {e : FopEvent} {m : FopMachine WIN BUF} : Purged s.fop m →
      Moves s e ⟨m, s.submitted, s.bd⟩
  | released {clcw : Clcw} {m : FopMachine WIN BUF} : s.fop.Working → clcw.lockout = false →
      Released clcw.reportValue s.fop m → Moves s (.clcwReceived clcw) ⟨m, s.submitted, s.bd⟩
  | queued {fdu : Bytes} {i : Nat} : s.fop.Working → s.fop.findEmptySlot = some i →
      s.fop.writePos + fdu.length ≤ BUF →
      Moves s (.sendAd fdu) ⟨s.fop.queued i fdu, Function.update s.submitted i fdu, s.bd⟩
  | withBd {fdu : Bytes} : s.fop.writePos + fdu.length ≤ BUF →
      Moves s (.sendBd fdu) ⟨s.fop.withBd fdu, s.submitted, some fdu⟩

theorem moves_self (e : FopEvent) : Moves s e s := .kept (kept_refl s.fop)

theorem rejects_sendAd {fdu : Bytes} (h : s.fop.handleSendAd fdu = (s.fop, [.reject])) :
    s.Rejects (.sendAd fdu) := by
  show _ ∈ (s.fop.handleSendAd fdu).2.take MAX_ACTIONS
  rw [h]
  exact List.mem_singleton.mpr rfl

theorem not_rejects_sendAd {fdu : Bytes} {i : Nat}
    (h : s.fop.handleSendAd fdu = (s.fop.queued i fdu,
      if s.fop.state = .active then [.transmitAd s.fop.vs, .startTimer] else [])) :
    ¬ s.Rejects (.sendAd fdu) := by
  show ¬ _ ∈ (s.fop.handleSendAd fdu).2.take MAX_ACTIONS
  rw [h]
  by_cases hst : s.fop.state = .active
  · rw [if_pos hst]
    simp [MAX_ACTIONS]
  · rw [if_neg hst]
    simp

theorem next_sendAd_rejected {fdu : Bytes}
    (h : s.fop.handleSendAd fdu = (s.fop, [.reject])) : s.next (.sendAd fdu) = s := by
  have hfop : (s.fop.handle (.sendAd fdu)).1 = s.fop := congrArg Prod.fst h
  have hrej := rejects_sendAd h
  unfold Session.next
  rw [hfop]
  cases s.fop.findEmptySlot with
  | none => rfl
  | some i =>
    simp only [if_pos hrej]

theorem next_sendAd_queued {fdu : Bytes} {i : Nat} (hslot : s.fop.findEmptySlot = some i)
    (h : s.fop.handleSendAd fdu = (s.fop.queued i fdu,
      if s.fop.state = .active then [.transmitAd s.fop.vs, .startTimer] else [])) :
    s.next (.sendAd fdu) = ⟨s.fop.queued i fdu, Function.update s.submitted i fdu, s.bd⟩ := by
  have hfop : (s.fop.handle (.sendAd fdu)).1 = s.fop.queued i fdu := congrArg Prod.fst h
  have hrej := not_rejects_sendAd h
  unfold Session.next
  rw [hfop, hslot]
  simp only [if_neg hrej]

theorem moves_sendAd (fdu : Bytes) : Moves s (.sendAd fdu) (s.next (.sendAd fdu)) := by
  rcases handleSendAd_cases s.fop fdu with hrej | ⟨i, hw, hslot, hroom, hacc⟩
  · rw [next_sendAd_rejected hrej]
    exact moves_self _
  · rw [next_sendAd_queued hslot hacc]
    exact .queued hw hslot hroom

theorem moves_sendBd (fdu : Bytes) : Moves s (.sendBd fdu) (s.next (.sendBd fdu)) := by
  rcases handleSendBd_cases s.fop fdu with hrej | ⟨hroom, hacc⟩
  · have hfop : (s.fop.handle (.sendBd fdu)).1 = s.fop := congrArg Prod.fst hrej
    have hr : s.Rejects (.sendBd fdu) := by
      show _ ∈ (s.fop.handleSendBd fdu).2.take MAX_ACTIONS
      rw [hrej]
      exact List.mem_singleton.mpr rfl
    have hnext : s.next (.sendBd fdu) = s := by
      unfold Session.next
      rw [hfop]
      simp only [if_pos hr]
    rw [hnext]
    exact moves_self _
  · have hfop : (s.fop.handle (.sendBd fdu)).1 = s.fop.withBd fdu := congrArg Prod.fst hacc
    have hr : ¬ s.Rejects (.sendBd fdu) := by
      show ¬ _ ∈ (s.fop.handleSendBd fdu).2.take MAX_ACTIONS
      rw [hacc]
      simp [MAX_ACTIONS]
    have hnext : s.next (.sendBd fdu) = ⟨s.fop.withBd fdu, s.submitted, some fdu⟩ := by
      unfold Session.next
      rw [hfop]
      simp only [if_neg hr]
    rw [hnext]
    exact .withBd hroom

theorem moves_next (s : Session WIN BUF) (e : FopEvent) : Moves s e (s.next e) := by
  have hstart {e : FopEvent} {m : FopMachine WIN BUF} (hm : Kept s.fop m ∨ Purged s.fop m) :
      Moves s e ⟨m, s.submitted, s.bd⟩ := hm.elim .kept .purged
  cases e with
  | sendAd fdu => exact moves_sendAd fdu
  | sendBd fdu => exact moves_sendBd fdu
  | clcwReceived clcw =>
    rcases handleClcw_buffer s.fop clcw with hk | hp | ⟨hw, hl, hr⟩
    · exact .kept hk
    · exact .purged hp
    · exact .released hw hl hr
  | timerExpired => exact hstart (handleTimerExpired_buffer s.fop)
  | initAdNoClcw => exact hstart (started_buffer ⟨sent_purge, rfl, rfl, rfl⟩)
  | initAdWithClcw => exact hstart (started_buffer ⟨sent_purge, rfl, rfl, rfl⟩)
  | initAdSetVr vr => exact hstart (started_buffer ⟨sent_purge, rfl, rfl, rfl⟩)
  | initAdUnlock => exact hstart (started_buffer ⟨sent_purge, rfl, rfl, rfl⟩)
  | terminate => exact .purged ⟨sent_purge, rfl, rfl, rfl⟩
  | resume => exact .kept (handleResume_buffer s.fop)

theorem Laid.moves {e : FopEvent} {s' : Session WIN BUF} (h : Laid s) (hs : Clear s e)
    (hm : Moves s e s') : Laid s' := by
  cases hm with
  | kept hk => exact h.kept hk
  | purged hp => exact h.purged hp
  | released _ _ hr => exact h.released hr
  | queued hw hslot hroom =>
    obtain ⟨hseq, hbd⟩ := hs hw (by rw [hslot]; rfl) hroom
    exact h.queued hslot hroom hseq hbd
  | withBd hroom => exact h.withBd hroom

theorem Filled.moves {e : FopEvent} {s' : Session WIN BUF} (h : Filled s) (hs : Stays s e)
    (hm : Moves s e s') : Filled s' := by
  cases hm with
  | kept hk => exact h.congr (bytesOf_congr hk.frames) hk.writePos hk.pendingBd
  | purged hp => exact filled_of_purged hp
  | released hw hl hr => exact h.released hr (hs hw hl)
  | queued _ hslot _ => exact h.queued hslot
  | withBd hroom => exact h.withBd (hs hroom)

theorem laid_new (config : FopConfig) : Laid (Session.new WIN BUF config) := by
  have hsent : (FopMachine.new WIN BUF config).sent = [] := by
    show (List.replicate WIN FduSlot.empty).filter _ = []
    rw [List.filter_eq_nil_iff]
    intro slot hslot
    rw [List.eq_of_mem_replicate hslot]
    exact Bool.false_ne_true
  exact ⟨Nat.zero_le _, fun i f hf => absurd hf (not_files_of_sent_nil hsent),
    fun i f hf => absurd hf (not_files_of_sent_nil hsent),
    fun i j f g _ hf => absurd hf (not_files_of_sent_nil hsent),
    fun i j f g hf => absurd hf (not_files_of_sent_nil hsent), rfl,
    fun i f b hf => absurd hf (not_files_of_sent_nil hsent)⟩

theorem sendAd_accepted {fdu : Bytes} (hst : s.fop.state = .active)
    (hslot : s.fop.findEmptySlot.isSome = true) (hroom : s.fop.writePos + fdu.length ≤ BUF) :
    ¬ s.Rejects (.sendAd fdu) := by
  obtain ⟨i, hi⟩ := Option.isSome_iff_exists.mp hslot
  rcases handleSendAd_cases s.fop fdu with hrej | ⟨j, -, -, -, hacc⟩
  · have hpushed := congrArg Prod.snd hrej
    simp [handleSendAd, hst, hi, bufferFdu, Nat.not_lt.mpr hroom] at hpushed
  · exact not_rejects_sendAd hacc

theorem Laid.readable (h : Laid s) : Readable s where
  frames := fun i slot hget ho => by
    have hf : s.fop.Files i slot.frame := files_iff.mpr ⟨slot, hget, ho, rfl⟩
    rw [← h.held i _ hf]
    exact getFdu_of_files hf fun j g hg he => h.numbers i j _ g hf hg he
  bd := h.bdHeld
  slotsApart := fun i j slot slot' hij hget hget' ho ho' =>
    h.apart i j slot.frame slot'.frame hij (files_iff.mpr ⟨slot, hget, ho, rfl⟩)
      (files_iff.mpr ⟨slot', hget', ho', rfl⟩)
  bdApart := fun i slot b hget ho hb =>
    h.bdApart i slot.frame b (files_iff.mpr ⟨slot, hget, ho, rfl⟩) hb

theorem Laid.accounted (h : Laid s) (hfilled : Filled s) : Accounted s where
  toReadable := h.readable
  reusable := fun hst hslot fdu hlen => by
    have hle := bdBelow_le s.fop
    unfold Filled at hfilled
    exact sendAd_accepted hst hslot (by omega)

end Layout

/-- Nothing is lost or overwritten in the runs whose steps are clear, and in those that also let
no data go before a purge all free space can be used. -/
theorem accounted_of_stays {s : Session WIN BUF} :
    ((sessions WIN BUF).Reaches Clear s → Readable s) ∧
      ((sessions WIN BUF).Reaches Stays s → Accounted s) := by
  constructor
  · intro h
    refine (h.invariant Laid ?_ ?_).readable
    · rintro s ⟨config, rfl⟩
      exact laid_new config
    · rintro s e _ hs hclear rfl
      exact hs.moves hclear (moves_next s e)
  · intro h
    have hinv : Laid s ∧ Filled s := by
      refine h.invariant (fun s => Laid s ∧ Filled s) ?_ ?_
      · rintro s ⟨config, rfl⟩
        exact ⟨laid_new config, Nat.zero_le _⟩
      · rintro s e _ ⟨hlaid, hfilled⟩ hstays rfl
        exact ⟨hlaid.moves hstays.clear (moves_next s e), hfilled.moves hstays (moves_next s e)⟩
    exact hinv.1.accounted hinv.2

set_option maxRecDepth 4000 in
/-- A frame with data is acknowledged, and a BD FDU with data is replaced.  And a BD FDU and two
frames, of which the acknowledged one has no data. -/
theorem accounted_of_stays_session :
    Readable ((((((Session.new 2 8 ⟨3⟩).next .initAdNoClcw).next (.sendBd [7])).next
      (.sendAd [1, 2])).next (.sendBd [9])).next
        (.clcwReceived (Clcw.new.setReportValue 1))) ∧
    Accounted ((((((Session.new 2 8 ⟨3⟩).next .initAdNoClcw).next (.sendBd [7])).next
      (.sendAd [])).next (.sendAd [1, 2])).next
        (.clcwReceived (Clcw.new.setReportValue 1))) :=
  ⟨accounted_of_stays.1 <|
    .step (.clcwReceived (Clcw.new.setReportValue 1))
      (.step (.sendBd [9])
        (.step (.sendAd [1, 2])
          (.step (.sendBd [7])
            (.step .initAdNoClcw (.init ⟨⟨3⟩, rfl⟩) trivial rfl) trivial rfl)
          (by decide) rfl) trivial rfl) trivial rfl,
  accounted_of_stays.2 <|
    .step (.clcwReceived (Clcw.new.setReportValue 1))
      (.step (.sendAd [1, 2])
        (.step (.sendAd [])
          (.step (.sendBd [7])
            (.step .initAdNoClcw (.init ⟨⟨3⟩, rfl⟩) trivial rfl) (by decide) rfl)
          (by decide) rfl) (by decide) rfl) (by decide) rfl⟩

set_option maxRecDepth 4000 in
/-- The space of an acknowledged frame is never used again: all slots are free and
nothing is pending, yet an FDU of two bytes is refused by a buffer of four.  And a BD FDU
that a purge left pending is overwritten. -/
theorem buffer_not_reused :
    (∃ s : Session 2 4, (sessions 2 4).Reachable s ∧ s.fop.state = .active ∧
      s.fop.sent = [] ∧ s.fop.pendingBd = none ∧ s.Rejects (.sendAd [4, 5]) ∧ ¬ Accounted s) ∧
    ∃ s : Session 2 4, (sessions 2 4).Reachable s ∧ s.bd = some [1, 2] ∧
      s.fop.getBdFdu = some [8, 9] ∧ ¬ Accounted s := by
  refine ⟨⟨_, .step (.clcwReceived (Clcw.new.setReportValue 1)) (.step (.sendAd [1, 2, 3])
      (.step .initAdNoClcw (.init ⟨⟨3⟩, rfl⟩) trivial rfl) trivial rfl) trivial rfl,
      by decide, by decide, by decide, by decide, fun h => ?_⟩,
    ⟨_, .step (.sendAd [8, 9]) (.step .initAdNoClcw (.step (.sendBd [1, 2])
      (.init ⟨⟨3⟩, rfl⟩) trivial rfl) trivial rfl) trivial rfl,
      by decide, by decide, fun h => ?_⟩⟩
  · exact h.reusable (by decide) (by decide) [4, 5] (by decide) (by decide)
  · exact absurd h.bd (by decide)

end Cop1
end Leodos
