/-
The configured limits of the sender machine.

A run is watched with a count of how often the frame in each slot, and the directive frame
of the last initialisation, was sent.  The machine looks at the transmission limit only
when the timer runs out, and never at the window width, so the limits are kept while the
window is not overrun, no number comes twice, and no control word asks for a frame that was
sent often enough.
-/
import Leodos.Cop1.Timer
import Leodos.Cop1.Initialisation
import Mathlib.Logic.Function.Basic

namespace Leodos
namespace Cop1

open Spp FopMachine Transition Function

/-! ## Counting what is sent -/

/-- The driver reads the frame of a number from the first slot that carries it. -/
def firstSlot (queue : List FduSlot) (seq : UInt8) : Option Nat :=
  queue.findIdx? fun s => s.occupied ∧ s.seq = seq

def countSend (queue : List FduSlot) (sends : Nat → Nat) (seq : UInt8) : Nat → Nat :=
  match firstSlot queue seq with
  | some i => update sends i (sends i + 1)
  | none => sends

def isDirective : FopAction → Bool
  | .transmitBcUnlock | .transmitBcSetVr _ => true
  | _ => false

def bumpsOverflow : List UInt8 → List FduSlot → Bool
  | [], _ => false
  | seq :: seqs, queue =>
      ((queue.find? fun s => s.occupied ∧ s.seq = seq).any fun s => s.transmissionCount = 255) ||
        bumpsOverflow seqs (bump seq queue)

variable {WIN BUF : Nat}

namespace FopMachine

/-- The frames that go-back-N sends. -/
def resent (m : FopMachine WIN BUF) : List UInt8 := sortFrom m.nnr (m.sent.map FduSlot.seq)

/-- The event takes one of the `u8` counters beyond 255. -/
def overflows (m : FopMachine WIN BUF) : FopEvent → Bool
  | .timerExpired =>
      if m.Working then !m.limitExceeded && bumpsOverflow m.resent m.sentQueue
      else decide m.Directing && m.bcTransmissionCount = 255
  | .clcwReceived clcw =>
      m.state = .active && !clcw.lockout && clcw.retransmit &&
        bumpsOverflow (m.acknowledged clcw.reportValue).resent
          (m.acknowledged clcw.reportValue).sentQueue
  | _ => false

/-- The event starts an initialisation with a directive frame. -/
def initiates (m : FopMachine WIN BUF) : FopEvent → Bool
  | .initAdSetVr _ | .initAdUnlock => m.state = .initial
  | _ => false

end FopMachine

/-- The machine with the part of its configuration that it does not read, how often the frame
in each slot was sent, how often the directive frame of the last initialisation was, and
whether a counter has overflowed. -/
structure Watched (WIN BUF : Nat) where
  fop : FopMachine WIN BUF
  windowWidth : UInt8
  sends : Nat → Nat
  directives : Nat
  overflowed : Bool

namespace Watched

def new (WIN BUF : Nat) (config : FopConfig) (windowWidth : UInt8) : Watched WIN BUF :=
  ⟨FopMachine.new WIN BUF config, windowWidth, fun _ => 0, 0, false⟩

def limit (s : Watched WIN BUF) : Nat := s.fop.config.transmissionLimit.toNat

/-- The counts before anything is sent: a frame that is taken into a slot starts anew. -/
def fresh (s : Watched WIN BUF) : FopEvent → Nat → Nat
  | .sendAd fdu =>
      if .reject ∈ (s.fop.handle (.sendAd fdu)).2 then s.sends
      else update s.sends (s.fop.findEmptySlot.getD 0) 0
  | _ => s.sends

def next (s : Watched WIN BUF) (e : FopEvent) : Watched WIN BUF where
  fop := (s.fop.handle e).1
  windowWidth := s.windowWidth
  sends := (transmits (s.fop.handle e).2).foldl (countSend (s.fop.handle e).1.sentQueue) (s.fresh e)
  directives :=
    (if s.fop.initiates e then 0 else s.directives) + (s.fop.handle e).2.countP isDirective
  overflowed := s.overflowed || s.fop.overflows e

/-- The limits of the configuration are kept. -/
structure Honoured (s : Watched WIN BUF) : Prop where
  window : s.fop.sentCount ≤ s.windowWidth.toNat
  sends : ∀ i, s.sends i ≤ s.limit
  directives : s.directives ≤ s.limit
  counters : s.overflowed = false

/-- The steps that the machine itself does not keep within the limits. -/
def Within (s : Watched WIN BUF) : FopEvent → Prop
  | .sendAd fdu =>
      s.fop.Working → s.fop.findEmptySlot ≠ none → s.fop.writePos + fdu.length ≤ BUF →
        s.fop.sentCount < s.windowWidth.toNat ∧ (∀ t ∈ s.fop.sent, t.seq ≠ s.fop.vs) ∧
        (s.fop.state = .active → 1 ≤ s.limit)
  | .clcwReceived clcw =>
      s.fop.state = .active → clcw.lockout = false → clcw.retransmit = true →
        ∀ i t, s.fop.sentQueue[i]? = some t → t.occupied = true → ¬ t.Acked clcw.reportValue →
          s.sends i < s.limit ∧ t.transmissionCount ≠ 255
  | .initAdSetVr _ | .initAdUnlock => s.fop.state = .initial → 1 ≤ s.limit
  | _ => True

end Watched

def watched (WIN BUF : Nat) : System (Watched WIN BUF) FopEvent where
  init s := ∃ config windowWidth, s = Watched.new WIN BUF config windowWidth
  step s e s' := s' = s.next e

/-! ## Slots and their numbers -/

def Distinct (queue : List FduSlot) : Prop :=
  ∀ (i j : Nat) (s t : FduSlot), queue[i]? = some s → queue[j]? = some t →
    s.occupied = true → t.occupied = true → s.seq = t.seq → i = j

/-- The occupied slots of the one queue stand unchanged in the other. -/
def Thins (queue queue' : List FduSlot) : Prop :=
  ∀ (i : Nat) (s : FduSlot), queue'[i]? = some s → s.occupied = true → queue[i]? = some s

variable {queue queue' : List FduSlot}

theorem Distinct.thin (h : Distinct queue) (hthin : Thins queue queue') : Distinct queue' := by
  intro i j s t hi hj hs ht
  exact h i j s t (hthin i s hi hs) (hthin j t hj ht) hs ht

theorem Distinct.tail {s : FduSlot} (h : Distinct (s :: queue)) : Distinct queue := by
  intro i j t u hi hj ht hu hseq
  exact Nat.succ.inj (h (i + 1) (j + 1) t u hi hj ht hu hseq)

theorem Distinct.head_ne {s t : FduSlot} (h : Distinct (s :: queue)) (hs : s.occupied = true)
    (ht : t ∈ queue) (hocc : t.occupied = true) : t.seq ≠ s.seq := by
  intro hseq
  obtain ⟨i, hi⟩ := List.mem_iff_getElem?.1 ht
  exact absurd (h 0 (i + 1) s t rfl hi hs hocc hseq.symm) (Nat.succ_ne_zero i).symm

theorem Distinct.nodup (h : Distinct queue) :
    ((queue.filter fun s => s.occupied).map FduSlot.seq).Nodup := by
  induction queue with
  | nil => exact List.nodup_nil
  | cons s queue ih =>
    by_cases hs : s.occupied = true
    · rw [List.filter_cons_of_pos hs, List.map_cons, List.nodup_cons]
      refine ⟨?_, ih h.tail⟩
      intro hmem
      obtain ⟨t, ht, hseq⟩ := List.mem_map.1 hmem
      obtain ⟨hin, hocc⟩ := List.mem_filter.1 ht
      exact h.head_ne hs hin hocc hseq
    · rw [List.filter_cons_of_neg hs]
      exact ih h.tail

def FduSlot.bumped (s : FduSlot) : FduSlot :=
  { s with transmissionCount := s.transmissionCount + 1 }

theorem bump_eq_map (h : Distinct queue) (seq : UInt8) :
    bump seq queue =
      queue.map fun s => if s.occupied = true ∧ s.seq = seq then s.bumped else s := by
  induction queue with
  | nil => rfl
  | cons s queue ih =>
    rw [bump, List.map_cons]
    by_cases hs : s.occupied = true ∧ s.seq = seq
    · rw [if_pos hs, if_pos hs]
      have hrest : queue.map (fun t => if t.occupied = true ∧ t.seq = seq then t.bumped else t) =
          queue := by
        conv => rhs; rw [← List.map_id queue]
        apply List.map_congr_left
        intro t ht
        apply if_neg
        intro hmatch
        exact h.head_ne hs.1 ht hmatch.1 (hmatch.2.trans hs.2.symm)
      rw [hrest]
      rfl
    · rw [if_neg hs, if_neg hs, ih h.tail]

theorem Distinct.bump (h : Distinct queue) (seq : UInt8) : Distinct (bump seq queue) := by
  have hframe : ∀ (i : Nat) (s : FduSlot), (Cop1.bump seq queue)[i]? = some s →
      ∃ s' : FduSlot, queue[i]? = some s' ∧ s'.occupied = s.occupied ∧ s'.seq = s.seq := by
    intro i s hi
    rw [bump_eq_map h, List.getElem?_map, Option.map_eq_some_iff] at hi
    obtain ⟨s', hs', heq⟩ := hi
    refine ⟨s', hs', ?_⟩
    by_cases hmatch : s'.occupied = true ∧ s'.seq = seq
    · rw [if_pos hmatch] at heq
      rw [← heq]
      exact ⟨rfl, rfl⟩
    · rw [if_neg hmatch] at heq
      rw [heq]
      exact ⟨rfl, rfl⟩
  intro i j s t hi hj hs ht hseq
  obtain ⟨s', hi', hocc, hsame⟩ := hframe i s hi
  obtain ⟨t', hj', hocc', hsame'⟩ := hframe j t hj
  exact h i j s' t' hi' hj' (hocc.trans hs) (hocc'.trans ht)
    ((hsame.trans hseq).trans hsame'.symm)

theorem bumpAll_eq_map {seqs : List UInt8} (h : Distinct queue) (hnodup : seqs.Nodup) :
    bumpAll seqs queue =
      queue.map fun s => if s.occupied = true ∧ s.seq ∈ seqs then s.bumped else s := by
  induction seqs generalizing queue with
  | nil =>
    show queue = _
    conv => lhs; rw [← List.map_id queue]
    apply List.map_congr_left
    intro s _
    exact (if_neg fun hmatch => absurd hmatch.2 List.not_mem_nil).symm
  | cons seq seqs ih =>
    obtain ⟨hnew, hrest⟩ := List.nodup_cons.1 hnodup
    show bumpAll seqs (bump seq queue) = _
    rw [ih (h.bump seq) hrest, bump_eq_map h, List.map_map]
    apply List.map_congr_left
    intro s _
    dsimp only [Function.comp_apply]
    by_cases hs : s.occupied = true ∧ s.seq = seq
    · have hnot : ¬ (s.bumped.occupied = true ∧ s.bumped.seq ∈ seqs) := by
        intro hmatch
        have hin : s.seq ∈ seqs := hmatch.2
        rw [hs.2] at hin
        exact hnew hin
      rw [if_pos hs, if_neg hnot, if_pos ⟨hs.1, by rw [hs.2]; exact List.mem_cons_self⟩]
    · rw [if_neg hs]
      by_cases hin : s.occupied = true ∧ s.seq ∈ seqs
      · rw [if_pos hin, if_pos ⟨hin.1, List.mem_cons_of_mem _ hin.2⟩]
      · rw [if_neg hin, if_neg]
        intro hmatch
        obtain heq | hmem := List.mem_cons.1 hmatch.2
        · exact hs ⟨hmatch.1, heq⟩
        · exact hin ⟨hmatch.1, hmem⟩

theorem bumpsOverflow_eq_false {seqs : List UInt8} (h : Distinct queue) (hnodup : seqs.Nodup)
    (hroom : ∀ s ∈ queue, s.occupied = true → s.seq ∈ seqs → s.transmissionCount ≠ 255) :
    bumpsOverflow seqs queue = false := by
  induction seqs generalizing queue with
  | nil => rfl
  | cons seq seqs ih =>
    obtain ⟨hnew, hrest⟩ := List.nodup_cons.1 hnodup
    have htail : ∀ s ∈ bump seq queue, s.occupied = true → s.seq ∈ seqs →
        s.transmissionCount ≠ 255 := by
      intro s hs hocc hmem
      rw [bump_eq_map h, List.mem_map] at hs
      obtain ⟨t, ht, heq⟩ := hs
      by_cases hmatch : t.occupied = true ∧ t.seq = seq
      · rw [if_pos hmatch] at heq
        have hseq : s.seq = seq := by
          rw [← heq]
          exact hmatch.2
        rw [hseq] at hmem
        exact absurd hmem hnew
      · rw [if_neg hmatch] at heq
        rw [← heq] at hocc hmem ⊢
        exact hroom t ht hocc (List.mem_cons_of_mem _ hmem)
    rw [bumpsOverflow, ih (h.bump seq) hrest htail, Bool.or_false]
    cases hfind : queue.find? fun s => s.occupied ∧ s.seq = seq with
    | none => rfl
    | some s =>
      have hmatch := List.find?_some hfind
      rw [decide_eq_true_eq] at hmatch
      have hroom' := hroom s (List.mem_of_find?_eq_some hfind) hmatch.1
        (by rw [hmatch.2]; exact List.mem_cons_self)
      exact decide_eq_false hroom'

/-! ## Frames sent once -/

variable {sends : Nat → Nat} {i : Nat}

theorem firstSlot_some {seq : UInt8} (h : firstSlot queue seq = some i) :
    ∃ s, queue[i]? = some s ∧ s.occupied = true ∧ s.seq = seq := by
  obtain ⟨hi, hmatch, -⟩ := List.findIdx?_eq_some_iff_getElem.1 h
  rw [decide_eq_true_eq] at hmatch
  exact ⟨queue[i], List.getElem?_eq_getElem hi, hmatch⟩

theorem countSend_of_ne {seq : UInt8}
    (h : ∀ s, queue[i]? = some s → s.occupied = true → s.seq ≠ seq) :
    countSend queue sends seq i = sends i := by
  rw [countSend]
  cases hfirst : firstSlot queue seq with
  | none => rfl
  | some j =>
    obtain ⟨s, hj, hocc, hseq⟩ := firstSlot_some hfirst
    apply update_of_ne
    intro heq
    rw [← heq] at hj
    exact h s hj hocc hseq

theorem countSend_le (seq : UInt8) : countSend queue sends seq i ≤ sends i + 1 := by
  rw [countSend]
  cases firstSlot queue seq with
  | none => exact Nat.le_succ _
  | some j =>
    show update sends j (sends j + 1) i ≤ _
    by_cases hij : i = j
    · rw [hij, update_self]
    · rw [update_of_ne hij]
      exact Nat.le_succ _

theorem foldl_countSend_of_ne {seqs : List UInt8}
    (h : ∀ s, queue[i]? = some s → s.occupied = true → s.seq ∉ seqs) :
    seqs.foldl (countSend queue) sends i = sends i := by
  induction seqs generalizing sends with
  | nil => rfl
  | cons seq seqs ih =>
    rw [List.foldl_cons, ih fun s hi hocc hmem => h s hi hocc (List.mem_cons_of_mem _ hmem)]
    apply countSend_of_ne
    intro s hi hocc heq
    apply h s hi hocc
    rw [heq]
    exact List.mem_cons_self

theorem foldl_countSend_le {seqs : List UInt8} (h : seqs.Nodup) :
    seqs.foldl (countSend queue) sends i ≤ sends i + 1 := by
  induction seqs generalizing sends with
  | nil => exact Nat.le_succ _
  | cons seq seqs ih =>
    obtain ⟨hnew, hrest⟩ := List.nodup_cons.1 h
    rw [List.foldl_cons]
    by_cases hmatch : ∃ s, queue[i]? = some s ∧ s.occupied = true ∧ s.seq = seq
    · obtain ⟨s, hi, -, hseq⟩ := hmatch
      rw [foldl_countSend_of_ne]
      · exact countSend_le seq
      · intro t ht _ hmem
        rw [hi, Option.some.injEq] at ht
        rw [← ht, hseq] at hmem
        exact hnew hmem
    · have hsame : countSend queue sends seq i = sends i := by
        apply countSend_of_ne
        intro s hi hocc hseq
        exact hmatch ⟨s, hi, hocc, hseq⟩
      rw [← hsame]
      exact ih hrest

/-! ## The invariant -/

/-- The limits are kept, and the counters of the machine say how much room is left. -/
structure Watched.Limited (s : Watched WIN BUF) : Prop where
  distinct : Distinct s.fop.sentQueue
  counted : ∀ (i : Nat) (t : FduSlot), s.fop.sentQueue[i]? = some t → t.occupied = true →
    s.sends i ≤ t.transmissionCount.toNat
  directing : s.fop.Directing → s.directives = s.fop.bcTransmissionCount.toNat
  bc : s.fop.Counted
  honoured : s.Honoured

variable {s : Watched WIN BUF} {e : FopEvent} {m : FopMachine WIN BUF}
  {actions : List FopAction}

theorem handle_of_react {m' : FopMachine WIN BUF} (h : m.react e = (m', actions)) :
    m.handle e = (m', actions.take MAX_ACTIONS) := by
  rw [handle, h]

theorem countP_directive_eq_zero (h : ∀ a ∈ actions, isDirective a = false) :
    (actions.take MAX_ACTIONS).countP isDirective = 0 := by
  rw [List.countP_eq_zero]
  intro a ha hdirective
  rw [h a (List.mem_of_mem_take ha)] at hdirective
  cases hdirective

theorem Watched.Limited.quiet (h : s.Limited) (hreact : s.fop.react e = (m, actions))
    (hthin : Thins s.fop.sentQueue m.sentQueue) (hcount : m.sentCount ≤ s.fop.sentCount)
    (hconfig : m.config = s.fop.config)
    (hdirecting : m.Directing →
      s.fop.Directing ∧ m.bcTransmissionCount = s.fop.bcTransmissionCount)
    (htransmits : transmits actions = []) (hquiet : ∀ a ∈ actions, isDirective a = false)
    (hfresh : s.fresh e = s.sends) (hinitiates : s.fop.initiates e = false)
    (hoverflows : s.fop.overflows e = false) : (s.next e).Limited := by
  have hhandle := handle_of_react hreact
  have hfop : (s.next e).fop = m := by
    show (s.fop.handle e).1 = m
    rw [hhandle]
  have hsends : (s.next e).sends = s.sends := by
    show (transmits (s.fop.handle e).2).foldl _ (s.fresh e) = _
    rw [hhandle, transmits_take_nil htransmits, hfresh]
    rfl
  have hdirectives : (s.next e).directives = s.directives := by
    show (if s.fop.initiates e then 0 else s.directives) +
      (s.fop.handle e).2.countP isDirective = _
    rw [hinitiates, hhandle, countP_directive_eq_zero hquiet]
    rfl
  have hover : (s.next e).overflowed = false := by
    show (s.overflowed || s.fop.overflows e) = false
    rw [h.honoured.counters, hoverflows]
    rfl
  have hlimit : (s.next e).limit = s.limit := by
    rw [limit, hfop, hconfig, limit]
  refine ⟨?_, ?_, ?_, ?_, ?_, ?_, ?_, hover⟩
  · rw [hfop]
    exact h.distinct.thin hthin
  · intro i t hi ht
    rw [hfop] at hi
    rw [hsends]
    exact h.counted i t (hthin i t hi ht) ht
  · intro hd
    rw [hfop] at hd
    rw [hdirectives, hfop, (hdirecting hd).2]
    exact h.directing (hdirecting hd).1
  · exact h.bc.handle e
  · rw [hfop]
    exact Nat.le_trans hcount h.honoured.window
  · intro i
    rw [hsends, hlimit]
    exact h.honoured.sends i
  · rw [hdirectives, hlimit]
    exact h.honoured.directives

theorem thins_clear (queue : List FduSlot) : Thins queue (queue.map FduSlot.clear) := by
  intro i t hi ht
  rw [List.getElem?_map, Option.map_eq_some_iff] at hi
  obtain ⟨s, -, rfl⟩ := hi
  cases ht

theorem thins_acknowledge (queue : List FduSlot) (nr : UInt8) :
    Thins queue (queue.map (FduSlot.acknowledge nr)) := by
  intro i t hi ht
  rw [List.getElem?_map, Option.map_eq_some_iff] at hi
  obtain ⟨s, hs, rfl⟩ := hi
  by_cases hacked : s.Acked nr
  · rw [FduSlot.acknowledge, if_pos hacked] at ht
    cases ht
  · rw [FduSlot.acknowledge, if_neg hacked]
    exact hs

theorem not_acked_of_acknowledge {queue : List FduSlot} {nr : UInt8} {i : Nat} {t : FduSlot}
    (hi : (queue.map (FduSlot.acknowledge nr))[i]? = some t) (ht : t.occupied = true) :
    ¬ t.Acked nr := by
  rw [List.getElem?_map, Option.map_eq_some_iff] at hi
  obtain ⟨s, hs, rfl⟩ := hi
  by_cases hacked : s.Acked nr
  · rw [FduSlot.acknowledge, if_pos hacked] at ht
    cases ht
  · rw [FduSlot.acknowledge, if_neg hacked]
    exact hacked

theorem config_acknowledged (m : FopMachine WIN BUF) (nr : UInt8) :
    (m.acknowledged nr).config = m.config := rfl

theorem sentCount_acknowledged_le (m : FopMachine WIN BUF) (nr : UInt8) :
    (m.acknowledged nr).sentCount ≤ m.sentCount := by
  rw [sentCount, sent_acknowledged]
  exact List.length_filter_le _ _

theorem Watched.Limited.purged (h : s.Limited) (hreact : s.fop.react e = (m, actions))
    (hqueue : m.sentQueue = s.fop.sentQueue.map FduSlot.clear)
    (hconfig : m.config = s.fop.config) (hdirecting : ¬ m.Directing)
    (htransmits : transmits actions = []) (hquiet : ∀ a ∈ actions, isDirective a = false)
    (hfresh : s.fresh e = s.sends) (hinitiates : s.fop.initiates e = false)
    (hoverflows : s.fop.overflows e = false) : (s.next e).Limited := by
  have hcount : m.sentCount = 0 := by
    have hsent : s.fop.purgeSentQueue.sent = [] := sent_purge
    rw [sentCount, sent, hqueue]
    exact congrArg List.length hsent
  apply h.quiet hreact _ _ hconfig _ htransmits hquiet hfresh hinitiates hoverflows
  · rw [hqueue]
    exact thins_clear _
  · rw [hcount]
    exact Nat.zero_le _
  · intro hd
    exact absurd hd hdirecting

theorem Watched.Limited.same (h : s.Limited) (hreact : s.fop.react e = (s.fop, actions))
    (htransmits : transmits actions = []) (hquiet : ∀ a ∈ actions, isDirective a = false)
    (hfresh : s.fresh e = s.sends) (hinitiates : s.fop.initiates e = false)
    (hoverflows : s.fop.overflows e = false) : (s.next e).Limited :=
  h.quiet hreact (fun _ _ hi _ => hi) (Nat.le_refl _) rfl (fun hd => ⟨hd, rfl⟩) htransmits hquiet
    hfresh hinitiates hoverflows

/-! ## Going back -/

theorem FopMachine.resent_perm (m : FopMachine WIN BUF) : m.resent.Perm (m.sent.map FduSlot.seq) :=
  sortFrom_perm _ _

theorem resent_nodup (h : Distinct m.sentQueue) : m.resent.Nodup :=
  m.resent_perm.nodup_iff.2 h.nodup

theorem sentQueue_goneBack (h : Distinct m.sentQueue) :
    m.goneBack.sentQueue = m.sentQueue.map fun s => if s.occupied then s.bumped else s := by
  show bumpAll m.resent m.sentQueue = _
  rw [bumpAll_eq_map h (resent_nodup h)]
  apply List.map_congr_left
  intro s hs
  by_cases hocc : s.occupied = true
  · have hin : s.seq ∈ m.resent :=
      m.resent_perm.mem_iff.2 (List.mem_map_of_mem (mem_sent.2 ⟨hs, hocc⟩))
    rw [if_pos ⟨hocc, hin⟩, if_pos hocc]
  · rw [if_neg hocc, if_neg]
    intro hmatch
    exact hocc hmatch.1

theorem getElem?_goneBack (h : Distinct m.sentQueue) {i : Nat} {t : FduSlot}
    (hi : m.goneBack.sentQueue[i]? = some t) (ht : t.occupied = true) :
    ∃ t', m.sentQueue[i]? = some t' ∧ t'.occupied = true ∧ t = t'.bumped := by
  rw [sentQueue_goneBack h, List.getElem?_map, Option.map_eq_some_iff] at hi
  obtain ⟨t', hi', heq⟩ := hi
  by_cases hocc : t'.occupied = true
  · rw [if_pos hocc] at heq
    exact ⟨t', hi', hocc, heq.symm⟩
  · rw [if_neg hocc] at heq
    rw [heq] at hocc
    exact absurd ht hocc

theorem distinct_goneBack (h : Distinct m.sentQueue) : Distinct m.goneBack.sentQueue := by
  intro i j t u hi hj ht hu hseq
  obtain ⟨t', hi', ht', rfl⟩ := getElem?_goneBack h hi ht
  obtain ⟨u', hj', hu', rfl⟩ := getElem?_goneBack h hj hu
  exact h i j t' u' hi' hj' ht' hu' hseq

theorem sentCount_goneBack (m : FopMachine WIN BUF) : m.goneBack.sentCount = m.sentCount := by
  have hseqs : m.initiateRetransmission.1.sent.map FduSlot.seq = m.sent.map FduSlot.seq :=
    seqs_initiateRetransmission
  have hlen := congrArg List.length hseqs
  rw [List.length_map, List.length_map] at hlen
  exact hlen

theorem transmits_goneBack {acks : List FopAction} (hacks : transmits acks = [])
    (h : Distinct m.sentQueue) :
    (transmits ((acks ++ m.initiateRetransmission.2).take MAX_ACTIONS)).Nodup := by
  have hsub : (transmits ((acks ++ m.initiateRetransmission.2).take MAX_ACTIONS)).Sublist
      (transmits (acks ++ m.initiateRetransmission.2)) :=
    (List.take_sublist _ _).filterMap _
  have hrest : transmits (if m.sent = [] then [] else [.startTimer]) = [] := by
    split <;> rfl
  have hall : transmits (acks ++ m.initiateRetransmission.2) = m.resent := by
    rw [transmits_append, hacks, pushed_initiateRetransmission, transmits_append, transmits_map,
      hrest, List.append_nil]
    rfl
  have hnodup := resent_nodup h
  rw [← hall] at hnodup
  exact hnodup.sublist hsub

theorem directive_goneBack {acks : List FopAction} (hacks : ∀ a ∈ acks, isDirective a = false) :
    ∀ a ∈ acks ++ m.initiateRetransmission.2, isDirective a = false := by
  intro a ha
  obtain hack | hsend := List.mem_append.1 ha
  · exact hacks a hack
  · rw [pushed_initiateRetransmission] at hsend
    obtain hsend | htimer := List.mem_append.1 hsend
    · obtain ⟨seq, -, rfl⟩ := List.mem_map.1 hsend
      rfl
    · by_cases hnil : m.sent = []
      · rw [if_pos hnil] at htimer
        cases htimer
      · rw [if_neg hnil] at htimer
        rw [List.mem_singleton.1 htimer]
        rfl

/-- A step that sends every frame of a thinned queue again, none of which was sent as often
as the limit. -/
theorem Watched.Limited.goneBack {acks : List FopAction} (h : s.Limited)
    (hreact : s.fop.react e = (m.goneBack, acks ++ m.initiateRetransmission.2))
    (hacks : transmits acks = []) (hquiet : ∀ a ∈ acks, isDirective a = false)
    (hthin : Thins s.fop.sentQueue m.sentQueue) (hcount : m.sentCount ≤ s.fop.sentCount)
    (hconfig : m.config = s.fop.config) (hfresh : s.fresh e = s.sends)
    (hinitiates : s.fop.initiates e = false)
    (hroom : ∀ (i : Nat) (t : FduSlot), m.sentQueue[i]? = some t → t.occupied = true →
      s.sends i < s.limit ∧ t.transmissionCount ≠ 255)
    (hoverflows : s.fop.overflows e = bumpsOverflow m.resent m.sentQueue) :
    (s.next e).Limited := by
  have hhandle := handle_of_react hreact
  have hdistinct := h.distinct.thin hthin
  have hfop : (s.next e).fop = m.goneBack := by
    show (s.fop.handle e).1 = _
    rw [hhandle]
  have hsends : (s.next e).sends =
      (transmits ((acks ++ m.initiateRetransmission.2).take MAX_ACTIONS)).foldl
        (countSend m.goneBack.sentQueue) s.sends := by
    show (transmits (s.fop.handle e).2).foldl _ (s.fresh e) = _
    rw [hhandle, hfresh]
  have hle : ∀ i, (s.next e).sends i ≤ s.sends i + 1 := by
    intro i
    rw [hsends]
    exact foldl_countSend_le (transmits_goneBack hacks hdistinct)
  have hdirectives : (s.next e).directives = s.directives := by
    show (if s.fop.initiates e then 0 else s.directives) +
      (s.fop.handle e).2.countP isDirective = _
    rw [hinitiates, hhandle, countP_directive_eq_zero (directive_goneBack hquiet)]
    rfl
  have hover : (s.next e).overflowed = false := by
    show (s.overflowed || s.fop.overflows e) = false
    rw [h.honoured.counters, hoverflows, Bool.false_or]
    apply bumpsOverflow_eq_false hdistinct (resent_nodup hdistinct)
    intro t ht hocc _
    obtain ⟨i, hi⟩ := List.mem_iff_getElem?.1 ht
    exact (hroom i t hi hocc).2
  have hlimit : (s.next e).limit = s.limit := by
    show (s.next e).fop.config.transmissionLimit.toNat = _
    rw [hfop]
    show m.config.transmissionLimit.toNat = _
    rw [hconfig, limit]
  refine ⟨?_, ?_, ?_, ?_, ?_, ?_, ?_, hover⟩
  · rw [hfop]
    exact distinct_goneBack hdistinct
  · intro i t hi ht
    rw [hfop] at hi
    obtain ⟨t', hi', ht', rfl⟩ := getElem?_goneBack hdistinct hi ht
    have hold := h.counted i t' (hthin i t' hi' ht') ht'
    have hnot := (hroom i t' hi' ht').2
    have hsucc : (t'.transmissionCount + 1).toNat = t'.transmissionCount.toNat + 1 := by
      have hlt := t'.transmissionCount.toNat_lt
      have hne : t'.transmissionCount.toNat ≠ 255 := by
        intro heq
        exact hnot (UInt8.toNat_inj.1 heq)
      rw [UInt8.toNat_add]
      show (t'.transmissionCount.toNat + 1) % 256 = _
      omega
    show (s.next e).sends i ≤ (t'.transmissionCount + 1).toNat
    rw [hsucc]
    have hnew := hle i
    omega
  · intro hd
    rw [hfop] at hd
    exact absurd hd (not_directing (show m.goneBack.state = .retransmitting from rfl)
      (by decide) (by decide))
  · exact h.bc.handle e
  · rw [hfop, sentCount_goneBack]
    exact Nat.le_trans hcount h.honoured.window
  · intro i
    rw [hlimit]
    by_cases hsent : ∃ t, m.sentQueue[i]? = some t ∧ t.occupied = true
    · obtain ⟨t, hi, ht⟩ := hsent
      have hlt := (hroom i t hi ht).1
      have hnew := hle i
      omega
    · have hold := h.honoured.sends i
      rw [hsends, foldl_countSend_of_ne]
      · exact hold
      · intro t hi ht _
        obtain ⟨t', hi', ht', -⟩ := getElem?_goneBack hdistinct hi ht
        exact hsent ⟨t', hi', ht'⟩
  · rw [hdirectives, hlimit]
    exact h.honoured.directives

/-! ## Taking a frame -/

theorem getElem?_queued {fdu : Bytes} {i j : Nat} {t : FduSlot} (hslot : m.findEmptySlot = some i)
    (hj : (m.queued i fdu).sentQueue[j]? = some t) :
    (j = i ∧ t = m.nextSlot fdu) ∨ (j ≠ i ∧ m.sentQueue[j]? = some t) := by
  have hi := findEmptySlot_lt hslot
  rw [← m.slots] at hi
  have hset : (m.sentQueue.set i (m.nextSlot fdu))[j]? = some t := hj
  by_cases hji : j = i
  · rw [hji, List.getElem?_set_self hi, Option.some.injEq] at hset
    exact Or.inl ⟨hji, hset.symm⟩
  · rw [List.getElem?_set_ne (Ne.symm hji)] at hset
    exact Or.inr ⟨hji, hset⟩

theorem distinct_queued {fdu : Bytes} {i : Nat} (h : Distinct m.sentQueue)
    (hslot : m.findEmptySlot = some i) (hnew : ∀ t ∈ m.sent, t.seq ≠ m.vs) :
    Distinct (m.queued i fdu).sentQueue := by
  intro j k t u hj hk ht hu hseq
  obtain ⟨hji, htn⟩ | ⟨hji, hj'⟩ := getElem?_queued hslot hj
  · obtain ⟨hki, -⟩ | ⟨hki, hk'⟩ := getElem?_queued hslot hk
    · exact hji.trans hki.symm
    · rw [htn] at hseq
      exact absurd hseq.symm (hnew u (mem_sent.2 ⟨List.mem_of_getElem? hk', hu⟩))
  · obtain ⟨hki, hun⟩ | ⟨hki, hk'⟩ := getElem?_queued hslot hk
    · rw [hun] at hseq
      exact absurd hseq (hnew t (mem_sent.2 ⟨List.mem_of_getElem? hj', ht⟩))
    · exact h j k t u hj' hk' ht hu hseq

theorem sentCount_queued {fdu : Bytes} {i : Nat} (hslot : m.findEmptySlot = some i) :
    (m.queued i fdu).sentCount = m.sentCount + 1 := by
  obtain ⟨hi, hempty, -⟩ := List.findIdx?_eq_some_iff_getElem.1 hslot
  have hfree : m.sentQueue[i].occupied = false := by
    rw [Bool.not_eq_true'] at hempty
    exact hempty
  show ((m.sentQueue.set i (m.nextSlot fdu)).filter fun s => s.occupied).length =
    (m.sentQueue.filter fun s => s.occupied).length + 1
  rw [← List.countP_eq_length_filter, ← List.countP_eq_length_filter, List.countP_set hi, hfree]
  rfl

theorem transmits_queued_eq (m : FopMachine WIN BUF) :
    transmits ((if m.state = .active then [.transmitAd m.vs, .startTimer] else []).take
      MAX_ACTIONS) = if m.state = .active then [m.vs] else [] := by
  by_cases hactive : m.state = .active
  · rw [if_pos hactive, if_pos hactive]
    rfl
  · rw [if_neg hactive, if_neg hactive]
    rfl

theorem Watched.Limited.queued {fdu : Bytes} {i : Nat} (h : s.Limited)
    (hslot : s.fop.findEmptySlot = some i)
    (hwindow : s.fop.sentCount < s.windowWidth.toNat) (hnew : ∀ t ∈ s.fop.sent, t.seq ≠ s.fop.vs)
    (hlimit : s.fop.state = .active → 1 ≤ s.limit) (hworking : s.fop.Working)
    (hreact : s.fop.react (.sendAd fdu) = (s.fop.queued i fdu,
      if s.fop.state = .active then [.transmitAd s.fop.vs, .startTimer] else [])) :
    (s.next (.sendAd fdu)).Limited := by
  have hhandle := handle_of_react hreact
  have hdistinct : Distinct (s.fop.queued i fdu).sentQueue := distinct_queued h.distinct hslot hnew
  have hnoreject : .reject ∉ (s.fop.handle (.sendAd fdu)).2 := by
    rw [hhandle]
    intro hmem
    have hpushed := List.mem_of_mem_take hmem
    by_cases hactive : s.fop.state = .active
    · rw [if_pos hactive] at hpushed
      obtain hsend | htimer := List.mem_cons.1 hpushed
      · cases hsend
      · cases List.mem_singleton.1 htimer
    · rw [if_neg hactive] at hpushed
      cases hpushed
  have hfresh : s.fresh (.sendAd fdu) = update s.sends i 0 := by
    rw [fresh, if_neg hnoreject, hslot]
    rfl
  have hfop : (s.next (.sendAd fdu)).fop = s.fop.queued i fdu := by
    show (s.fop.handle _).1 = _
    rw [hhandle]
  have hsends : (s.next (.sendAd fdu)).sends =
      (if s.fop.state = .active then [s.fop.vs] else []).foldl
        (countSend (s.fop.queued i fdu).sentQueue) (update s.sends i 0) := by
    show (transmits (s.fop.handle _).2).foldl _ (s.fresh _) = _
    rw [hhandle, hfresh, transmits_queued_eq]
  have hother : ∀ j, j ≠ i → (s.next (.sendAd fdu)).sends j = s.sends j := by
    intro j hj
    rw [hsends, foldl_countSend_of_ne, update_of_ne hj]
    intro t ht hocc hmem
    have hseq : t.seq = s.fop.vs := by
      by_cases hactive : s.fop.state = .active
      · rw [if_pos hactive] at hmem
        exact List.mem_singleton.1 hmem
      · rw [if_neg hactive] at hmem
        cases hmem
    obtain ⟨hji, -⟩ | ⟨-, hold⟩ := getElem?_queued hslot ht
    · exact hj hji
    · exact hnew t (mem_sent.2 ⟨List.mem_of_getElem? hold, hocc⟩) hseq
  have hself : (s.next (.sendAd fdu)).sends i ≤ (s.fop.nextSlot fdu).transmissionCount.toNat := by
    rw [hsends, nextSlot]
    by_cases hactive : s.fop.state = .active
    · rw [if_pos hactive, if_pos hactive, List.foldl_cons, List.foldl_nil]
      have hle : countSend (s.fop.queued i fdu).sentQueue (update s.sends i 0) s.fop.vs i ≤
          update s.sends i 0 i + 1 := countSend_le s.fop.vs
      rw [update_self] at hle
      exact hle
    · rw [if_neg hactive, List.foldl_nil, update_self]
      exact Nat.zero_le _
  have hdirecting : ¬ s.fop.Directing := by
    obtain hst | hst := hworking
    · exact not_directing hst (by decide) (by decide)
    · exact not_directing hst (by decide) (by decide)
  have hdirectives : (s.next (.sendAd fdu)).directives = s.directives := by
    show s.directives + (s.fop.handle _).2.countP isDirective = _
    rw [hhandle, countP_directive_eq_zero]
    · rfl
    · intro a ha
      by_cases hactive : s.fop.state = .active
      · rw [if_pos hactive] at ha
        obtain rfl | htimer := List.mem_cons.1 ha
        · rfl
        · rw [List.mem_singleton.1 htimer]
          rfl
      · rw [if_neg hactive] at ha
        cases ha
  refine ⟨?_, ?_, ?_, h.bc.handle _, ?_, ?_, ?_, ?_⟩
  · rw [hfop]
    exact hdistinct
  · intro j t hj ht
    rw [hfop] at hj
    obtain ⟨rfl, rfl⟩ | ⟨hji, hold⟩ := getElem?_queued hslot hj
    · exact hself
    · rw [hother j hji]
      exact h.counted j t hold ht
  · intro hd
    rw [hfop] at hd
    exact absurd hd hdirecting
  · rw [hfop, sentCount_queued hslot]
    exact hwindow
  · intro j
    show _ ≤ (s.next (.sendAd fdu)).fop.config.transmissionLimit.toNat
    rw [hfop]
    show _ ≤ s.limit
    by_cases hji : j = i
    · subst hji
      apply Nat.le_trans hself
      rw [nextSlot]
      by_cases hactive : s.fop.state = .active
      · rw [if_pos hactive]
        exact hlimit hactive
      · rw [if_neg hactive]
        exact Nat.zero_le _
    · rw [hother j hji]
      exact h.honoured.sends j
  · show _ ≤ (s.next (.sendAd fdu)).fop.config.transmissionLimit.toNat
    rw [hfop, hdirectives]
    exact h.honoured.directives
  · show (s.overflowed || false) = false
    rw [h.honoured.counters]
    rfl

/-! ## One event -/

namespace Watched

theorem Limited.sendAd {fdu : Bytes} (h : s.Limited) (hok : s.Within (.sendAd fdu)) :
    (s.next (.sendAd fdu)).Limited := by
  obtain hreject | ⟨i, hworking, hslot, hroom, hqueued⟩ := handleSendAd_cases s.fop fdu
  · have hreact : s.fop.react (.sendAd fdu) = (s.fop, [.reject]) := hreject
    have hmem : .reject ∈ (s.fop.handle (.sendAd fdu)).2 := by
      rw [handle_of_react hreact]
      exact List.mem_cons_self
    refine h.same hreact rfl ?_ (if_pos hmem) rfl rfl
    intro a ha
    rw [List.mem_singleton.1 ha]
    rfl
  · have hfree : s.fop.findEmptySlot ≠ none := by
      rw [hslot]
      exact Option.some_ne_none i
    obtain ⟨hwindow, hnew, hlimit⟩ := hok hworking hfree hroom
    exact h.queued hslot hwindow hnew hlimit hworking hqueued

theorem Limited.sendBd (h : s.Limited) (fdu : Bytes) : (s.next (.sendBd fdu)).Limited := by
  by_cases hroom : BUF < s.fop.writePos + fdu.length
  · have hreact : s.fop.react (.sendBd fdu) = (s.fop, [.reject]) := by
      show handleSendBd s.fop fdu = _
      rw [handleSendBd, bufferFdu, if_pos hroom]
    refine h.same hreact rfl ?_ rfl rfl rfl
    intro a ha
    rw [List.mem_singleton.1 ha]
    rfl
  · have hreact : ∃ m, s.fop.react (.sendBd fdu) = (m, [.transmitBd]) ∧
        m.sentQueue = s.fop.sentQueue ∧ m.config = s.fop.config ∧ m.state = s.fop.state ∧
        m.bcTransmissionCount = s.fop.bcTransmissionCount := by
      show ∃ m, handleSendBd s.fop fdu = _ ∧ _
      rw [handleSendBd, bufferFdu, if_neg hroom]
      exact ⟨_, rfl, rfl, rfl, rfl, rfl⟩
    obtain ⟨m, hreact, hqueue, hconfig, hstate, hbc⟩ := hreact
    have hcount : m.sentCount = s.fop.sentCount := by
      rw [sentCount, sent, hqueue]
      rfl
    refine h.quiet hreact ?_ (Nat.le_of_eq hcount) hconfig ?_ rfl ?_ rfl rfl rfl
    · rw [hqueue]
      exact fun _ _ hi _ => hi
    · intro hd
      rw [Directing, hstate] at hd
      exact ⟨hd, hbc⟩
    · intro a ha
      rw [List.mem_singleton.1 ha]
      rfl

theorem directive_acks {nr : UInt8} : ∀ a ∈ (m.removeAcknowledged nr).2, isDirective a = false := by
  intro a ha
  obtain ⟨t, -, rfl⟩ := List.mem_map.1 ha
  rfl

theorem overflows_clcw {clcw : Clcw}
    (h : ¬ (m.state = .active ∧ clcw.lockout = false ∧ clcw.retransmit = true)) :
    m.overflows (.clcwReceived clcw) = false := by
  have hguard : (decide (m.state = .active) && !clcw.lockout && clcw.retransmit) = false := by
    rw [Bool.eq_false_iff]
    intro htrue
    rw [Bool.and_eq_true, Bool.and_eq_true, decide_eq_true_eq, Bool.not_eq_true'] at htrue
    exact h ⟨htrue.1.1, htrue.1.2, htrue.2⟩
  rw [overflows, hguard]
  rfl

theorem Limited.clcw {clcw : Clcw} (h : s.Limited) (hok : s.Within (.clcwReceived clcw)) :
    (s.next (.clcwReceived clcw)).Limited := by
  obtain ⟨hidle, hsame⟩ | ⟨hidle, vs, henter⟩ | ⟨-, hlock, halert⟩ |
    ⟨hactive, hlock, hretransmit, hback⟩ | ⟨-, state, stop, hstate, hstop, hclear, hset⟩ :=
    handleClcw_cases s.fop clcw
  · refine h.same hsame rfl ?_ rfl rfl (overflows_clcw fun hg => hidle (.inl hg.1))
    intro a ha
    cases ha
  · refine h.purged henter rfl rfl (not_directing (show _ = FopState.active from rfl)
      (by decide) (by decide)) rfl ?_ rfl rfl (overflows_clcw fun hg => hidle (.inl hg.1))
    intro a ha
    obtain rfl | haccept := List.mem_cons.1 ha
    · rfl
    · rw [List.mem_singleton.1 haccept]
      rfl
  · refine h.purged halert rfl rfl (not_directing (show _ = FopState.initial from rfl)
      (by decide) (by decide)) rfl ?_ rfl rfl (overflows_clcw fun hg => ?_)
    · intro a ha
      obtain rfl | hlast := List.mem_cons.1 ha
      · rfl
      · rw [List.mem_singleton.1 hlast]
        rfl
    · rw [hlock] at hg
      cases hg.2.1
  · have hguard : s.fop.overflows (.clcwReceived clcw) =
        bumpsOverflow (s.fop.acknowledged clcw.reportValue).resent
          (s.fop.acknowledged clcw.reportValue).sentQueue := by
      rw [overflows, hactive, hlock, hretransmit]
      rfl
    refine h.goneBack hback transmits_acks directive_acks (thins_acknowledge _ _)
      (sentCount_acknowledged_le s.fop clcw.reportValue)
      (config_acknowledged s.fop clcw.reportValue) rfl rfl ?_ hguard
    intro i t hi ht
    exact hok hactive hlock hretransmit i t (thins_acknowledge _ _ i t hi ht) ht
      (not_acked_of_acknowledge hi ht)
  · have hdirecting : ¬ ((s.fop.acknowledged clcw.reportValue).setState state).Directing := by
      obtain hst | hst := hstate
      · exact not_directing hst (by decide) (by decide)
      · exact not_directing hst (by decide) (by decide)
    have htail : ∀ a ∈ stop, a = .stopTimer := by
      intro a ha
      obtain rfl | rfl := hstop
      · cases ha
      · rw [stopIfDone] at ha
        split at ha
        · exact List.mem_singleton.1 ha
        · cases ha
    have htransmits : transmits stop = [] := by
      rw [transmits, List.filterMap_eq_nil_iff]
      intro a ha
      rw [htail a ha]
    have hreact : s.fop.react (.clcwReceived clcw) =
        ((s.fop.acknowledged clcw.reportValue).setState state,
          (s.fop.removeAcknowledged clcw.reportValue).2 ++ stop) := hset
    refine h.quiet hreact (thins_acknowledge _ _)
      (sentCount_acknowledged_le s.fop clcw.reportValue)
      (config_acknowledged s.fop clcw.reportValue) ?_ ?_ ?_ rfl rfl (overflows_clcw fun hg => ?_)
    · intro hd
      exact absurd hd hdirecting
    · rw [transmits_append, transmits_acks, htransmits]
      rfl
    · intro a ha
      obtain hack | hstop := List.mem_append.1 ha
      · exact directive_acks a hack
      · rw [htail a hstop]
        rfl
    · rw [hclear hg.1] at hg
      cases hg.2.2

theorem room_of_limit (h : s.Limited) (hlimit : s.fop.limitExceeded = false) (i : Nat)
    (t : FduSlot) (hi : s.fop.sentQueue[i]? = some t) (ht : t.occupied = true) :
    s.sends i < s.limit ∧ t.transmissionCount ≠ 255 := by
  have hbelow : ¬ s.fop.config.transmissionLimit ≤ t.transmissionCount := by
    intro hle
    have hany : s.fop.limitExceeded = true := by
      rw [limitExceeded, List.any_eq_true]
      refine ⟨t, List.mem_of_getElem? hi, ?_⟩
      rw [ht, decide_eq_true hle]
      rfl
    rw [hlimit] at hany
    cases hany
  have hcounted := h.counted i t hi ht
  have hlt := s.fop.config.transmissionLimit.toNat_lt
  rw [UInt8.le_iff_toNat_le] at hbelow
  refine ⟨?_, ?_⟩
  · rw [limit]
    omega
  · intro hfull
    rw [hfull] at hbelow
    have h255 : (255 : UInt8).toNat = 255 := by decide
    omega

theorem Limited.directing_timer (h : s.Limited) (hd : s.fop.Directing) :
    (s.next .timerExpired).Limited := by
  have hidle : ¬ s.fop.Working := by
    intro hw
    obtain hst | hst := hd
    · exact not_working (by rw [hst]; decide) (by rw [hst]; decide) hw
    · exact not_working (by rw [hst]; decide) (by rw [hst]; decide) hw
  have hsucc := h.bc.succ_toNat hd
  have hover : s.fop.overflows .timerExpired = false := by
    have hnot : s.fop.bcTransmissionCount ≠ 255 := by
      intro hfull
      rw [hfull] at hsucc
      exact absurd hsucc (by decide)
    rw [overflows, if_neg hidle, decide_eq_false hnot, Bool.and_false]
  obtain ⟨frame, hframe, hdirective⟩ : ∃ frame,
      s.fop.react .timerExpired = s.fop.repeatDirective frame ∧ isDirective frame = true ∧
        transmits [frame, .startTimer] = [] := by
    obtain hst | hst := hd
    · refine ⟨.transmitBcSetVr s.fop.setVrValue, ?_, rfl, rfl⟩
      show s.fop.handleTimerExpired = _
      rw [handleTimerExpired, hst]
    · refine ⟨.transmitBcUnlock, ?_, rfl, rfl⟩
      show s.fop.handleTimerExpired = _
      rw [handleTimerExpired, hst]
  by_cases hlimit : s.fop.config.transmissionLimit ≤ s.fop.bcTransmissionCount + 1
  · have halert : s.fop.react .timerExpired =
        FopMachine.alert { s.fop with bcTransmissionCount := s.fop.bcTransmissionCount + 1 } := by
      rw [hframe, repeatDirective]
      exact if_pos hlimit
    refine h.purged halert rfl rfl (not_directing (show _ = FopState.initial from rfl)
      (by decide) (by decide)) rfl ?_ rfl rfl hover
    intro a ha
    obtain rfl | hlast := List.mem_cons.1 ha
    · rfl
    · rw [List.mem_singleton.1 hlast]
      rfl
  · have hagain : s.fop.react .timerExpired =
        ({ s.fop with bcTransmissionCount := s.fop.bcTransmissionCount + 1 },
          [frame, .startTimer]) := by
      rw [hframe, repeatDirective_again hlimit]
    have hhandle := handle_of_react hagain
    have hfop : (s.next .timerExpired).fop =
        { s.fop with bcTransmissionCount := s.fop.bcTransmissionCount + 1 } := by
      show (s.fop.handle _).1 = _
      rw [hhandle]
    have hsends : (s.next .timerExpired).sends = s.sends := by
      show (transmits (s.fop.handle _).2).foldl _ s.sends = _
      rw [hhandle]
      show (transmits [frame, .startTimer]).foldl _ s.sends = _
      rw [hdirective.2]
      rfl
    have hdirectives : (s.next .timerExpired).directives = s.directives + 1 := by
      show s.directives + (s.fop.handle _).2.countP isDirective = _
      rw [hhandle]
      show s.directives + List.countP isDirective [frame, .startTimer] = _
      rw [List.countP_cons, if_pos hdirective.1]
      rfl
    have hcount := h.directing hd
    rw [UInt8.le_iff_toNat_le] at hlimit
    refine ⟨?_, ?_, ?_, h.bc.handle _, ?_, ?_, ?_, ?_⟩
    · rw [hfop]
      exact h.distinct
    · rw [hfop, hsends]
      exact h.counted
    · intro _
      rw [hdirectives, hfop]
      show s.directives + 1 = (s.fop.bcTransmissionCount + 1).toNat
      omega
    · rw [hfop]
      exact h.honoured.window
    · intro i
      show _ ≤ (s.next .timerExpired).fop.config.transmissionLimit.toNat
      rw [hfop, hsends]
      exact h.honoured.sends i
    · show _ ≤ (s.next .timerExpired).fop.config.transmissionLimit.toNat
      rw [hfop, hdirectives]
      show s.directives + 1 ≤ s.fop.config.transmissionLimit.toNat
      omega
    · show (s.overflowed || s.fop.overflows .timerExpired) = false
      rw [h.honoured.counters, hover]
      rfl

theorem Limited.timer (h : s.Limited) : (s.next .timerExpired).Limited := by
  by_cases hd : s.fop.Directing
  · exact h.directing_timer hd
  by_cases hw : s.fop.Working
  · cases hl : s.fop.limitExceeded with
    | true =>
      have halert : s.fop.react .timerExpired = s.fop.alert := handleTimerExpired_alert hw hl
      have hover : s.fop.overflows .timerExpired = false := by
        rw [overflows, if_pos hw, hl]
        rfl
      refine h.purged halert rfl rfl (not_directing (show _ = FopState.initial from rfl)
        (by decide) (by decide)) rfl ?_ rfl rfl hover
      intro a ha
      obtain rfl | hlast := List.mem_cons.1 ha
      · rfl
      · rw [List.mem_singleton.1 hlast]
        rfl
    | false =>
      have hback : s.fop.react .timerExpired =
          (s.fop.goneBack, [] ++ s.fop.initiateRetransmission.2) :=
        handleTimerExpired_goneBack hw hl
      have hover : s.fop.overflows .timerExpired =
          bumpsOverflow s.fop.resent s.fop.sentQueue := by
        rw [overflows, if_pos hw, hl]
        rfl
      refine h.goneBack hback rfl ?_ (fun _ _ hi _ => hi) (Nat.le_refl _) rfl rfl rfl
        (room_of_limit h hl) hover
      intro a ha
      cases ha
  · have hover : s.fop.overflows .timerExpired = false := by
      rw [overflows, if_neg hw, decide_eq_false hd]
      rfl
    have hidle : s.fop.react .timerExpired = (s.fop, []) := by
      show s.fop.handleTimerExpired = _
      rw [handleTimerExpired]
      cases hst : s.fop.state with
      | active => exact absurd (.inl hst) hw
      | retransmitting => exact absurd (.inr hst) hw
      | initWithSetVr => exact absurd (.inl hst) hd
      | initWithUnlock => exact absurd (.inr hst) hd
      | initNoBC => rfl
      | initial => rfl
    refine h.same hidle rfl ?_ rfl rfl hover
    intro a ha
    cases ha

theorem Limited.initiated {frame : FopAction} (h : s.Limited)
    (hreact : s.fop.react e = (m, [frame, .startTimer]))
    (hqueue : m.sentQueue = s.fop.sentQueue.map FduSlot.clear)
    (hconfig : m.config = s.fop.config) (hbc : m.bcTransmissionCount = 1)
    (hframe : isDirective frame = true) (hsilent : transmits [frame, .startTimer] = [])
    (hfresh : s.fresh e = s.sends) (hinitiates : s.fop.initiates e = true)
    (hoverflows : s.fop.overflows e = false) (hlimit : 1 ≤ s.limit) : (s.next e).Limited := by
  have hhandle := handle_of_react hreact
  have hfop : (s.next e).fop = m := by
    show (s.fop.handle e).1 = m
    rw [hhandle]
  have hsends : (s.next e).sends = s.sends := by
    show (transmits (s.fop.handle e).2).foldl _ (s.fresh e) = _
    rw [hhandle, hfresh]
    show (transmits [frame, .startTimer]).foldl _ s.sends = _
    rw [hsilent]
    rfl
  have hdirectives : (s.next e).directives = 1 := by
    show (if s.fop.initiates e then 0 else s.directives) +
      (s.fop.handle e).2.countP isDirective = _
    rw [hinitiates, hhandle]
    show 0 + List.countP isDirective [frame, .startTimer] = 1
    rw [List.countP_cons, if_pos hframe]
    rfl
  have hsame : (s.next e).limit = s.limit := by
    rw [limit, hfop, hconfig, limit]
  have hthin : Thins s.fop.sentQueue m.sentQueue := by
    rw [hqueue]
    exact thins_clear _
  have hcount : m.sentCount = 0 := by
    have hsent : s.fop.purgeSentQueue.sent = [] := sent_purge
    rw [sentCount, sent, hqueue]
    exact congrArg List.length hsent
  refine ⟨?_, ?_, ?_, h.bc.handle e, ?_, ?_, ?_, ?_⟩
  · rw [hfop]
    exact h.distinct.thin hthin
  · intro i t hi ht
    rw [hfop] at hi
    rw [hsends]
    exact h.counted i t (hthin i t hi ht) ht
  · intro _
    rw [hdirectives, hfop, hbc]
    rfl
  · rw [hfop, hcount]
    exact Nat.zero_le _
  · intro i
    rw [hsends, hsame]
    exact h.honoured.sends i
  · rw [hdirectives, hsame]
    exact hlimit
  · show (s.overflowed || s.fop.overflows e) = false
    rw [h.honoured.counters, hoverflows]
    rfl

theorem Limited.rejected (h : s.Limited) (hreact : s.fop.react e = (s.fop, [.reject]))
    (hfresh : s.fresh e = s.sends) (hinitiates : s.fop.initiates e = false)
    (hoverflows : s.fop.overflows e = false) : (s.next e).Limited := by
  refine h.same hreact rfl ?_ hfresh hinitiates hoverflows
  intro a ha
  rw [List.mem_singleton.1 ha]
  rfl

theorem Limited.step (h : s.Limited) (hok : s.Within e) : (s.next e).Limited := by
  have hone : ∀ {action : FopAction}, isDirective action = false →
      ∀ a ∈ [action], isDirective a = false := by
    intro action haction a ha
    rw [List.mem_singleton.1 ha]
    exact haction
  cases e with
  | sendAd fdu => exact h.sendAd hok
  | sendBd fdu => exact h.sendBd fdu
  | clcwReceived clcw => exact h.clcw hok
  | timerExpired => exact h.timer
  | initAdNoClcw =>
    by_cases hst : s.fop.state = .initial
    · have hreact : s.fop.react .initAdNoClcw =
          ({ s.fop.purgeSentQueue with state := .active }, [.accept]) := if_pos hst
      exact h.purged hreact rfl rfl (not_directing (show _ = FopState.active from rfl)
        (by decide) (by decide)) rfl (hone rfl) rfl rfl rfl
    · exact h.rejected (if_neg hst) rfl rfl rfl
  | initAdWithClcw =>
    by_cases hst : s.fop.state = .initial
    · have hreact : s.fop.react .initAdWithClcw =
          ({ s.fop.purgeSentQueue with state := .initNoBC }, [.startTimer]) := if_pos hst
      exact h.purged hreact rfl rfl (not_directing (show _ = FopState.initNoBC from rfl)
        (by decide) (by decide)) rfl (hone rfl) rfl rfl rfl
    · exact h.rejected (if_neg hst) rfl rfl rfl
  | initAdSetVr vr =>
    by_cases hst : s.fop.state = .initial
    · have hreact : s.fop.react (.initAdSetVr vr) =
          ({ s.fop.purgeSentQueue with
              setVrValue := vr, bcTransmissionCount := 1, state := .initWithSetVr },
            [.transmitBcSetVr vr, .startTimer]) := if_pos hst
      exact h.initiated hreact rfl rfl rfl rfl rfl rfl (decide_eq_true hst) rfl (hok hst)
    · exact h.rejected (if_neg hst) rfl (decide_eq_false hst) rfl
  | initAdUnlock =>
    by_cases hst : s.fop.state = .initial
    · have hreact : s.fop.react .initAdUnlock =
          ({ s.fop.purgeSentQueue with bcTransmissionCount := 1, state := .initWithUnlock },
            [.transmitBcUnlock, .startTimer]) := if_pos hst
      exact h.initiated hreact rfl rfl rfl rfl rfl rfl (decide_eq_true hst) rfl (hok hst)
    · exact h.rejected (if_neg hst) rfl (decide_eq_false hst) rfl
  | terminate =>
    have hreact : s.fop.react .terminate =
        ({ s.fop.purgeSentQueue with state := .initial }, [.stopTimer, .terminated]) := rfl
    refine h.purged hreact rfl rfl (not_directing (show _ = FopState.initial from rfl)
      (by decide) (by decide)) rfl ?_ rfl rfl rfl
    intro a ha
    obtain rfl | hlast := List.mem_cons.1 ha
    · rfl
    · rw [List.mem_singleton.1 hlast]
      rfl
  | resume =>
    by_cases hst : s.fop.state = .initial
    · have hreact : s.fop.react .resume = ({ s.fop with state := .active }, [.accept]) :=
        if_pos hst
      have hdirecting : ¬ ({ s.fop with state := .active } : FopMachine WIN BUF).Directing :=
        not_directing (show _ = FopState.active from rfl) (by decide) (by decide)
      exact h.quiet hreact (fun _ _ hi _ => hi) (Nat.le_refl _) rfl
        (fun hd => absurd hd hdirecting) rfl (hone rfl) rfl rfl rfl
    · exact h.rejected (if_neg hst) rfl rfl rfl

theorem limited_new (config : FopConfig) (windowWidth : UInt8) :
    (Watched.new WIN BUF config windowWidth).Limited := by
  have hempty : ∀ (i : Nat) (t : FduSlot), (List.replicate WIN FduSlot.empty)[i]? = some t →
      t.occupied = true → False := by
    intro i t hi ht
    rw [List.eq_of_mem_replicate (List.mem_of_getElem? hi)] at ht
    cases ht
  refine ⟨?_, ?_, ?_, counted_of_initial rfl, ?_, fun _ => Nat.zero_le _, Nat.zero_le _, rfl⟩
  · intro i j t u hi hj ht hu _
    exact (hempty i t hi ht).elim
  · intro i t hi ht
    exact (hempty i t hi ht).elim
  · intro hd
    exact absurd hd (not_directing (show _ = FopState.initial from rfl) (by decide) (by decide))
  · have hnone : (List.replicate WIN FduSlot.empty).filter (fun t => t.occupied) = [] := by
      rw [List.filter_eq_nil_iff]
      intro t ht
      rw [List.eq_of_mem_replicate ht]
      exact Bool.false_ne_true
    show ((List.replicate WIN FduSlot.empty).filter fun t => t.occupied).length ≤ _
    rw [hnone]
    exact Nat.zero_le _

/-- In a run whose every step stays within them, the limits of the configuration are kept. -/
theorem honoured_of_within (h : (watched WIN BUF).Reaches Within s) : s.Honoured := by
  refine (h.invariant Limited ?_ ?_).honoured
  · intro s hinit
    obtain ⟨config, windowWidth, rfl⟩ := hinit
    exact limited_new config windowWidth
  · intro s e s' hs hok hstep
    rw [hstep]
    exact hs.step hok

/-- A frame is sent, and once more when the timer runs out. -/
theorem honoured_of_within_timer :
    ((((Watched.new 2 8 ⟨2⟩ 1).next .initAdNoClcw).next (.sendAd [1])).next
      .timerExpired).Honoured := by
  have hinit : (watched 2 8).Reaches Within (Watched.new 2 8 ⟨2⟩ 1) := .init ⟨⟨2⟩, 1, rfl⟩
  have hactive : (watched 2 8).Reaches Within ((Watched.new 2 8 ⟨2⟩ 1).next .initAdNoClcw) :=
    .step .initAdNoClcw hinit trivial rfl
  have hroom : ((Watched.new 2 8 ⟨2⟩ 1).next .initAdNoClcw).Within (.sendAd [1]) :=
    fun _ _ _ => ⟨by decide, by decide, by decide⟩
  exact honoured_of_within (.step .timerExpired (.step (.sendAd [1]) hactive hroom rfl) trivial rfl)

/-- A window width of one, and two frames queued; a limit of one, and a frame sent twice on
request; a limit of nought, and a directive frame sent. -/
theorem limits_overrun :
    ¬ (([.initAdNoClcw, .sendAd [1], .sendAd [2]] : List FopEvent).foldl Watched.next
        (Watched.new 2 8 ⟨3⟩ 1)).Honoured ∧
      ¬ (([.initAdNoClcw, .sendAd [1], .clcwReceived retransmitRequest] :
        List FopEvent).foldl Watched.next (Watched.new 2 8 ⟨1⟩ 4)).Honoured ∧
      ¬ (([.initAdUnlock] : List FopEvent).foldl Watched.next
        (Watched.new 2 8 ⟨0⟩ 4)).Honoured := by
  refine ⟨?_, ?_, ?_⟩
  · intro h
    exact absurd h.window (by decide)
  · intro h
    exact absurd (h.sends 0) (by decide +kernel)
  · intro h
    exact absurd h.directives (by decide)

end Watched

end Cop1
end Leodos
