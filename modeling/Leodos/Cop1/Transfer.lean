/-
The sender and the receiver machine over two lossy links that keep order.

A frame in flight is known by its number in the session and by how many FDUs had been
taken when it was sent; a control word by how many had been accepted when it was
reported.  Both counts never fall along a link, which is what keeps old frames and old
control words inside the windows they are judged by.
-/
import Leodos.Cop1.Window
import Leodos.Transition.System
import Mathlib.Data.List.InsertIdx

namespace Leodos
namespace Cop1

open Spp FopMachine Transition

inductive Label where
  | sendAd (fdu : Bytes)
  | timerExpired
  | deliverClcw
  | loseClcw (i : Nat)
  | deliverFrame (bufferAvailable : Bool)
  | loseFrame (i : Nat)
  | bufferRelease
  | report
  deriving DecidableEq

/-- The two machines, the links, and what was taken from above and delivered. -/
structure Transfer (WIN BUF : Nat) where
  fop : FopMachine WIN BUF
  farm : FarmMachine
  forward : List (UInt8 × Bytes)
  back : List Clcw
  taken : List Bytes
  accepted : List Bytes
  /-- V(S) when the session began. -/
  first : UInt8
  deriving DecidableEq

variable {WIN BUF : Nat}

/-- The frames that the actions put on the forward link. -/
def framesOf (m : FopMachine WIN BUF) (actions : List FopAction) : List (UInt8 × Bytes) :=
  actions.filterMap fun action =>
    match action with
    | .transmitAd seq => (m.getFdu seq).map fun fdu => (seq, fdu)
    | _ => none

def delivered (actions : List FarmAction) : List Bytes :=
  actions.filterMap fun action =>
    match action with
    | .accept fdu => some fdu
    | _ => none

/-- The sender handles an event, and its frames go on the link. -/
def Transfer.send (s : Transfer WIN BUF) (e : FopEvent) : Transfer WIN BUF :=
  let (m, actions) := s.fop.handle e
  { s with fop := m, forward := s.forward ++ framesOf m actions }

def Transfer.receive (s : Transfer WIN BUF) (e : FarmEvent) : Transfer WIN BUF :=
  let (m, actions) := s.farm.handle e
  { s with farm := m, accepted := s.accepted ++ delivered actions }

def Transfer.next (s : Transfer WIN BUF) : Label → Transfer WIN BUF
  | .sendAd fdu =>
      if .reject ∈ (s.fop.handle (.sendAd fdu)).2 then s.send (.sendAd fdu)
      else { s.send (.sendAd fdu) with taken := s.taken ++ [fdu] }
  | .timerExpired => s.send .timerExpired
  | .deliverClcw =>
      match s.back with
      | [] => s
      | clcw :: back => { s.send (.clcwReceived clcw) with back := back }
  | .loseClcw i => { s with back := s.back.eraseIdx i }
  | .deliverFrame bufferAvailable =>
      match s.forward with
      | [] => s
      | (seq, fdu) :: forward =>
          { s with forward := forward }.receive (.adFrame seq bufferAvailable fdu)
  | .loseFrame i => { s with forward := s.forward.eraseIdx i }
  | .bufferRelease => s.receive .bufferRelease
  | .report => { s with back := s.back ++ [s.farm.clcw] }

/-- A session begins when the sender becomes active with V(S) = V(R).  Control words
from before may still be in flight if they report that V(R). -/
structure Transfer.Begins (s : Transfer WIN BUF) : Prop where
  active : s.fop.state = .active
  idle : s.fop.sent = []
  room : s.fop.writePos ≤ BUF
  vs : s.fop.vs = s.first
  vr : s.farm.vr = s.first
  unlocked : s.farm.state ≠ .lockout
  windows : ∃ width : UInt8, s.farm.pw = width / 2 ∧ s.farm.nw = width / 2 ∧
    WIN ≤ (width / 2).toNat
  forward : s.forward = []
  back : ∀ clcw ∈ s.back, clcw.reportValue = s.first
  taken : s.taken = []
  accepted : s.accepted = []

def transfer (WIN BUF : Nat) : System (Transfer WIN BUF) Label where
  init := Transfer.Begins
  step s l s' := s' = s.next l

/-! ## The invariant -/

variable {first : UInt8} {taken taken' : List Bytes} {r base base' : Nat}

/-- A frame in flight: frame `g.1`, sent when `g.2` FDUs had been taken, while `r` have
been accepted. -/
structure Flies (WIN : Nat) (first : UInt8) (taken : List Bytes) (r : Nat) (g : Nat × Nat)
    (frame : UInt8 × Bytes) : Prop where
  seq : frame.1 = numbered first g.1
  data : taken[g.1]? = some frame.2
  old : g.1 < g.2
  recent : g.2 ≤ g.1 + WIN
  near : g.2 ≤ r + WIN
  known : g.2 ≤ taken.length
  ahead : r ≤ g.2

/-- The frames on the link, oldest first. -/
def Forward (WIN : Nat) (first : UInt8) (taken : List Bytes) (r : Nat)
    (frames : List (UInt8 × Bytes)) : Prop :=
  ∃ zs : List ((Nat × Nat) × UInt8 × Bytes), zs.map Prod.snd = frames ∧
    (∀ z ∈ zs, Flies WIN first taken r z.1 z.2) ∧ zs.Pairwise fun z z' => z.1.2 ≤ z'.1.2

/-- The control words on the link, oldest first: each reports a count of accepted FDUs
between `base` and `r`. -/
def Back (first : UInt8) (r base : Nat) (words : List Clcw) : Prop :=
  ∃ zs : List (Nat × Clcw), zs.map Prod.snd = words ∧
    (∀ z ∈ zs, z.2.reportValue = numbered first z.1 ∧ base ≤ z.1 ∧ z.1 ≤ r) ∧
    zs.Pairwise fun z z' => z.1 ≤ z'.1

structure Inv (s : Transfer WIN BUF) (base : Nat) : Prop where
  fits : WIN ≤ 127
  expects : s.farm.Expects s.first s.accepted.length WIN
  prefixed : s.accepted <+: s.taken
  base_le : base ≤ s.accepted.length
  forward : Forward WIN s.first s.taken s.accepted.length s.forward
  back : Back s.first s.accepted.length base s.back
  sender : (s.fop.Working ∧ s.fop.Queues s.first base s.taken) ∨ s.fop.state = .initial

variable {s : Transfer WIN BUF}

/-! ## The links -/

theorem Forward.eraseIdx {frames : List (UInt8 × Bytes)} (h : Forward WIN first taken r frames)
    (i : Nat) : Forward WIN first taken r (frames.eraseIdx i) := by
  obtain ⟨zs, rfl, hfly, hord⟩ := h
  have hsub := List.eraseIdx_sublist zs i
  exact ⟨zs.eraseIdx i, (List.eraseIdx_map ..).symm, fun z hz => hfly z (hsub.subset hz),
    hord.sublist hsub⟩

theorem Back.eraseIdx {words : List Clcw} (h : Back first r base words) (i : Nat) :
    Back first r base (words.eraseIdx i) := by
  obtain ⟨zs, rfl, hrep, hord⟩ := h
  have hsub := List.eraseIdx_sublist zs i
  exact ⟨zs.eraseIdx i, (List.eraseIdx_map ..).symm, fun z hz => hrep z (hsub.subset hz),
    hord.sublist hsub⟩

theorem Forward.concat {frames : List (UInt8 × Bytes)} {frame : UInt8 × Bytes} {j : Nat}
    (h : Forward WIN first taken r frames)
    (hfly : Flies WIN first taken r (j, taken.length) frame) :
    Forward WIN first taken r (frames ++ [frame]) := by
  obtain ⟨zs, rfl, hall, hord⟩ := h
  refine ⟨zs ++ [((j, taken.length), frame)], by rw [List.map_append]; rfl, ?_, ?_⟩
  · intro z hz
    rcases List.mem_append.mp hz with hz | hz
    · exact hall z hz
    · rw [List.mem_singleton.mp hz]
      exact hfly
  · refine List.pairwise_append.mpr ⟨hord, List.pairwise_singleton _ _, ?_⟩
    intro z hz z' hz'
    rw [List.mem_singleton.mp hz']
    exact (hall z hz).known

theorem Forward.append {frames new : List (UInt8 × Bytes)} (h : Forward WIN first taken r frames)
    (hnew : ∀ frame ∈ new, ∃ j, Flies WIN first taken r (j, taken.length) frame) :
    Forward WIN first taken r (frames ++ new) := by
  induction new generalizing frames with
  | nil =>
    rw [List.append_nil]
    exact h
  | cons frame new ih =>
    obtain ⟨j, hj⟩ := hnew frame List.mem_cons_self
    have := ih (h.concat hj) fun frame' hmem => hnew frame' (List.mem_cons_of_mem _ hmem)
    rw [List.append_assoc] at this
    exact this

theorem Back.concat {words : List Clcw} {clcw : Clcw} (h : Back first r base words)
    (hrep : clcw.reportValue = numbered first r) (hlo : base ≤ r) :
    Back first r base (words ++ [clcw]) := by
  obtain ⟨zs, rfl, hall, hord⟩ := h
  refine ⟨zs ++ [(r, clcw)], by rw [List.map_append]; rfl, ?_, ?_⟩
  · intro z hz
    rcases List.mem_append.mp hz with hz | hz
    · exact hall z hz
    · rw [List.mem_singleton.mp hz]
      exact ⟨hrep, hlo, Nat.le_refl _⟩
  · refine List.pairwise_append.mpr ⟨hord, List.pairwise_singleton _ _, ?_⟩
    intro z hz z' hz'
    rw [List.mem_singleton.mp hz']
    exact (hall z hz).2.2

theorem Forward.mono {frames : List (UInt8 × Bytes)} (h : Forward WIN first taken r frames)
    (htaken : taken <+: taken') : Forward WIN first taken' r frames := by
  obtain ⟨zs, rfl, hall, hord⟩ := h
  refine ⟨zs, rfl, fun z hz => ?_, hord⟩
  obtain ⟨hseq, hdata, hold, hrecent, hnear, hknown, hahead⟩ := hall z hz
  refine ⟨hseq, ?_, hold, hrecent, hnear, Nat.le_trans hknown htaken.length_le, hahead⟩
  obtain ⟨more, rfl⟩ := htaken
  rw [List.getElem?_append_left (by omega)]
  exact hdata

theorem Back.cons {clcw : Clcw} {words : List Clcw} (h : Back first r base (clcw :: words)) :
    ∃ n, clcw.reportValue = numbered first n ∧ base ≤ n ∧ n ≤ r ∧ Back first r n words := by
  obtain ⟨zs, hzs, hall, hord⟩ := h
  cases zs with
  | nil => cases hzs
  | cons z zs =>
    rw [List.map_cons, List.cons.injEq] at hzs
    obtain ⟨rfl, rfl⟩ := hzs
    rw [List.pairwise_cons] at hord
    obtain ⟨hrep, hlo, hhi⟩ := hall z List.mem_cons_self
    refine ⟨z.1, hrep, hlo, hhi, zs, rfl, fun z' hz' => ?_, hord.2⟩
    obtain ⟨hrep', -, hhi'⟩ := hall z' (List.mem_cons_of_mem _ hz')
    exact ⟨hrep', hord.1 z' hz', hhi'⟩

/-! ## Sending -/

/-- The frames carry numbers of the window from `base` on, each with its FDU. -/
def Sends (WIN : Nat) (first : UInt8) (base : Nat) (taken : List Bytes)
    (frames : List (UInt8 × Bytes)) : Prop :=
  ∀ frame ∈ frames, ∃ j, base ≤ j ∧ j < taken.length ∧ taken.length ≤ base + WIN ∧
    frame.1 = numbered first j ∧ taken[j]? = some frame.2

theorem Inv.sender_step (h : Inv s base) {m : FopMachine WIN BUF} {actions : List FopAction}
    {taken : List Bytes} {back : List Clcw} (hhi : base' ≤ s.accepted.length)
    (htaken : s.taken <+: taken) (hback : Back s.first s.accepted.length base' back)
    (hsender : (m.Working ∧ m.Queues s.first base' taken) ∨ m.state = .initial)
    (hsends : Sends WIN s.first base' taken (framesOf m actions)) :
    Inv { s with
      fop := m, forward := s.forward ++ framesOf m actions,
      taken := taken, back := back } base' := by
  refine ⟨h.fits, h.expects, h.prefixed.trans htaken, hhi, ?_, hback, hsender⟩
  refine (h.forward.mono htaken).append fun frame hframe => ?_
  obtain ⟨j, hlo, hj, hwindow, hseq, hdata⟩ := hsends frame hframe
  exact ⟨j, hseq, hdata, hj, Nat.le_trans hwindow (Nat.add_le_add_right hlo WIN),
    Nat.le_trans hwindow (Nat.add_le_add_right hhi WIN), Nat.le_refl _,
    Nat.le_trans h.prefixed.length_le htaken.length_le⟩

theorem sends_nil {first : UInt8} {taken : List Bytes} {m : FopMachine WIN BUF}
    {actions : List FopAction} (h : ∀ seq, .transmitAd seq ∉ actions) :
    Sends WIN first base taken (framesOf m actions) := by
  intro frame hframe
  obtain ⟨action, hmem, haction⟩ := List.mem_filterMap.mp hframe
  cases action with
  | transmitAd seq => exact absurd hmem (h seq)
  | _ => cases haction

theorem sends_queued {m : FopMachine WIN BUF} {first : UInt8} {taken : List Bytes}
    {actions : List FopAction} (hq : m.Queues first base taken) (hwin : WIN ≤ 127)
    (hseqs : ∀ seq, .transmitAd seq ∈ actions →
      ∃ j, base ≤ j ∧ j < taken.length ∧ seq = numbered first j) :
    Sends WIN first base taken (framesOf m actions) := by
  intro frame hframe
  obtain ⟨action, hmem, haction⟩ := List.mem_filterMap.mp hframe
  cases action with
  | transmitAd seq =>
    obtain ⟨j, hlo, hhi, rfl⟩ := hseqs seq hmem
    have hget := hq.getFdu hwin hlo hhi
    obtain ⟨fdu, hfdu, rfl⟩ := Option.map_eq_some_iff.mp haction
    exact ⟨j, hlo, hhi, hq.window, rfl, by rw [← hget]; exact hfdu⟩
  | _ => cases haction

theorem transmits_queued {m : FopMachine WIN BUF} {first : UInt8} {taken : List Bytes}
    (hq : m.Queues first base taken) {seq : UInt8}
    (hmem : .transmitAd seq ∈ m.initiateRetransmission.2) :
    ∃ j, base ≤ j ∧ j < taken.length ∧ seq = numbered first j := by
  rw [pushed_initiateRetransmission, List.mem_append] at hmem
  rcases hmem with hmem | hmem
  · obtain ⟨seq', hseq', heq⟩ := List.mem_map.mp hmem
    injection heq with heq
    subst heq
    obtain ⟨s, hs, rfl⟩ := List.mem_map.mp ((sortFrom_perm _ _).mem_iff.mp hseq')
    obtain ⟨j, hlo, hhi, hcarries⟩ := hq.filed s.frame (List.mem_map.mpr ⟨s, hs, rfl⟩)
    exact ⟨j, hlo, hhi, hcarries.1⟩
  · split at hmem <;> simp at hmem

theorem send_eq {e : FopEvent} {m : FopMachine WIN BUF} {actions : List FopAction}
    (heq : s.fop.handle e = (m, actions)) :
    s.send e = { s with fop := m, forward := s.forward ++ framesOf m actions } := by
  simp only [Transfer.send, heq]

theorem handle_eq {m m' : FopMachine WIN BUF} {actions : List FopAction} (e : FopEvent)
    (heq : m.react e = (m', actions)) : m.handle e = (m', actions.take MAX_ACTIONS) := by
  simp only [handle, heq]

theorem Inv.queued (h : Inv s base) {fdu : Bytes} {i : Nat} {actions : List FopAction}
    (hw : s.fop.Working) (hslot : s.fop.findEmptySlot = some i)
    (hroom : s.fop.writePos + fdu.length ≤ BUF)
    (hhandle : s.fop.handle (.sendAd fdu) = (s.fop.queued i fdu, actions))
    (hreject : .reject ∉ actions) (hseqs : ∀ seq, .transmitAd seq ∈ actions → seq = s.fop.vs) :
    Inv (s.next (.sendAd fdu)) base := by
  have hle := Nat.le_trans h.base_le h.prefixed.length_le
  rcases h.sender with ⟨-, hq⟩ | hi
  · have hq' := hq.queued h.fits hslot hroom hle
    rw [Transfer.next, hhandle, if_neg hreject, send_eq hhandle]
    refine h.sender_step h.base_le (List.prefix_append _ _) h.back (.inl ⟨hw, hq'⟩)
      (sends_queued hq' h.fits fun seq hmem => ⟨s.taken.length, hle, ?_, ?_⟩)
    · rw [List.length_append]
      exact Nat.lt_succ_self _
    · rw [hseqs seq hmem, hq.vs]
  · exact absurd hw (not_working_of_initial hi)

theorem Inv.sendAd (h : Inv s base) (fdu : Bytes) : Inv (s.next (.sendAd fdu)) base := by
  rcases s.fop.handleSendAd_cases fdu with hrej | ⟨i, hw, hslot, hroom, heq⟩
  · have hhandle : s.fop.handle (.sendAd fdu) = (s.fop, [.reject]) := handle_eq (.sendAd fdu) hrej
    rw [Transfer.next, hhandle, if_pos List.mem_cons_self, send_eq hhandle]
    exact h.sender_step h.base_le (List.prefix_refl _) h.back h.sender (sends_nil (by simp))
  · by_cases hactive : s.fop.state = .active
    · rw [if_pos hactive] at heq
      have hhandle : s.fop.handle (.sendAd fdu) =
          (s.fop.queued i fdu, [.transmitAd s.fop.vs, .startTimer]) :=
        handle_eq (.sendAd fdu) heq
      exact h.queued hw hslot hroom hhandle (by simp) (by simp)
    · rw [if_neg hactive] at heq
      have hhandle : s.fop.handle (.sendAd fdu) = (s.fop.queued i fdu, []) :=
        handle_eq (.sendAd fdu) heq
      exact h.queued hw hslot hroom hhandle (by simp) (by simp)

theorem Inv.timerExpired (h : Inv s base) : Inv (s.next .timerExpired) base := by
  rcases h.sender with ⟨hw, hq⟩ | hi
  · cases hl : s.fop.limitExceeded with
    | true =>
      have heq : s.fop.handle .timerExpired = (s.fop.alert.1, [.stopTimer, .alert]) :=
        handle_eq .timerExpired (handleTimerExpired_alert hw hl)
      rw [Transfer.next, send_eq heq]
      exact h.sender_step h.base_le (List.prefix_refl _) h.back (.inr rfl)
        (sends_nil (by simp))
    | false =>
      have heq := handle_eq .timerExpired (handleTimerExpired_goneBack hw hl)
      rw [Transfer.next, send_eq heq]
      exact h.sender_step h.base_le (List.prefix_refl _) h.back (.inl ⟨.inr rfl, hq.goneBack⟩)
        (sends_queued hq.goneBack h.fits fun seq hmem =>
          transmits_queued hq (List.mem_of_mem_take hmem))
  · have hidle : s.fop.handleTimerExpired = (s.fop, []) := by
      unfold handleTimerExpired
      rw [hi]
    have heq := handle_eq .timerExpired hidle
    rw [Transfer.next, send_eq heq]
    exact h.sender_step h.base_le (List.prefix_refl _) h.back (.inr hi) (sends_nil (by simp))

theorem transmitAd_notMem_acks {m : FopMachine WIN BUF} {nr seq : UInt8} :
    .transmitAd seq ∉ (m.removeAcknowledged nr).2 := by
  intro h
  obtain ⟨_, -, h⟩ := List.mem_map.mp h
  cases h

theorem transmitAd_notMem_stopIfDone {m : FopMachine WIN BUF} {seq : UInt8} :
    .transmitAd seq ∉ m.stopIfDone := by
  unfold stopIfDone
  split <;> simp

theorem Inv.clcwReceived (h : Inv s base) {clcw : Clcw} {back : List Clcw} {n : Nat}
    (hrep : clcw.reportValue = numbered s.first n) (hlo : base ≤ n) (hhi : n ≤ s.accepted.length)
    (hback : Back s.first s.accepted.length n back) :
    Inv { s.send (.clcwReceived clcw) with back := back } n := by
  have hn := Nat.le_trans hhi h.prefixed.length_le
  rcases h.sender with ⟨hw, hq⟩ | hi
  · have hq' := hq.acknowledged h.fits hlo hn
    rcases s.fop.handleClcw_cases clcw with ⟨hnw, -⟩ | ⟨hnw, -⟩ | ⟨-, -, heq⟩ |
      ⟨-, -, -, heq⟩ | ⟨-, state, stop, hstate, hstop, -, heq⟩
    · exact absurd hw hnw
    · exact absurd hw hnw
    · have hhandle : s.fop.handle (.clcwReceived clcw) = (s.fop.alert.1, [.stopTimer, .alert]) :=
        handle_eq (.clcwReceived clcw) heq
      rw [send_eq hhandle]
      exact h.sender_step hhi (List.prefix_refl _) hback (.inr rfl) (sends_nil (by simp))
    · rw [hrep] at heq
      rw [send_eq (handle_eq (.clcwReceived clcw) heq)]
      refine h.sender_step hhi (List.prefix_refl _) hback (.inl ⟨.inr rfl, hq'.goneBack⟩)
        (sends_queued hq'.goneBack h.fits fun seq hmem => ?_)
      rcases List.mem_append.mp (List.mem_of_mem_take hmem) with hmem | hmem
      · exact absurd hmem transmitAd_notMem_acks
      · exact transmits_queued hq' hmem
    · rw [hrep] at heq
      rw [send_eq (handle_eq (.clcwReceived clcw) heq)]
      refine h.sender_step hhi (List.prefix_refl _) hback (.inl ⟨hstate, hq'.setState state⟩)
        (sends_nil fun seq hmem => ?_)
      rcases List.mem_append.mp (List.mem_of_mem_take hmem) with hmem | hmem
      · exact transmitAd_notMem_acks hmem
      · rcases hstop with rfl | rfl
        · exact List.not_mem_nil hmem
        · exact transmitAd_notMem_stopIfDone hmem
  · have hidle : s.fop.handleClcw clcw = (s.fop, []) := by
      unfold handleClcw
      rw [hi]
    have hhandle : s.fop.handle (.clcwReceived clcw) = (s.fop, []) :=
      handle_eq (.clcwReceived clcw) hidle
    rw [send_eq hhandle]
    exact h.sender_step hhi (List.prefix_refl _) hback (.inr hi) (sends_nil (by simp))

theorem Inv.deliverClcw (h : Inv s base) : ∃ base', Inv (s.next .deliverClcw) base' := by
  cases hb : s.back with
  | nil =>
    refine ⟨base, ?_⟩
    simp only [Transfer.next, hb]
    exact h
  | cons clcw back =>
    have hback := h.back
    rw [hb] at hback
    obtain ⟨n, hrep, hlo, hhi, hrest⟩ := hback.cons
    refine ⟨n, ?_⟩
    simp only [Transfer.next, hb]
    exact h.clcwReceived hrep hlo hhi hrest

/-! ## Receiving -/

theorem prefix_concat {xs ys : List Bytes} {x : Bytes} (h : xs <+: ys)
    (hx : ys[xs.length]? = some x) : xs ++ [x] <+: ys := by
  obtain ⟨rest, rfl⟩ := h
  rw [List.getElem?_append_right (Nat.le_refl _), Nat.sub_self] at hx
  cases rest with
  | nil => cases hx
  | cons y rest =>
    have hy : y = x := Option.some.inj hx
    subst hy
    exact ⟨rest, by rw [List.append_assoc]; rfl⟩

/-- A step of the receiver: it expects the frame after those accepted, and what is left
on the link was sent when at least that many had been taken. -/
theorem Inv.receiver_step (h : Inv s base) {farm : FarmMachine} (accepted : List Bytes)
    {zs : List ((Nat × Nat) × UInt8 × Bytes)}
    (hexpects : farm.Expects s.first accepted.length WIN) (hgrow : s.accepted <+: accepted)
    (hpre : accepted <+: s.taken)
    (hall : ∀ z ∈ zs, Flies WIN s.first s.taken s.accepted.length z.1 z.2)
    (hahead : ∀ z ∈ zs, accepted.length ≤ z.1.2) (hord : zs.Pairwise fun z z' => z.1.2 ≤ z'.1.2) :
    Inv { s with farm := farm, accepted := accepted, forward := zs.map Prod.snd } base := by
  have hlen := hgrow.length_le
  refine ⟨h.fits, hexpects, hpre, Nat.le_trans h.base_le hlen, ⟨zs, rfl, ?_, hord⟩, ?_,
    h.sender⟩
  · intro z hz
    obtain ⟨hseq, hdata, hold, hrecent, hnear, hknown, -⟩ := hall z hz
    exact ⟨hseq, hdata, hold, hrecent, Nat.le_trans hnear (Nat.add_le_add_right hlen WIN), hknown,
      hahead z hz⟩
  · obtain ⟨ws, hws, hrep, hordered⟩ := h.back
    refine ⟨ws, hws, fun w hw => ?_, hordered⟩
    obtain ⟨hvalue, hlo, hhi⟩ := hrep w hw
    exact ⟨hvalue, hlo, Nat.le_trans hhi hlen⟩

theorem Inv.deliverFrame (h : Inv s base) (available : Bool) :
    Inv (s.next (.deliverFrame available)) base := by
  obtain ⟨zs, hzs, hall, hord⟩ := h.forward
  cases zs with
  | nil =>
    have hf : s.forward = [] := hzs.symm
    simp only [Transfer.next, hf]
    exact h
  | cons z zs =>
    obtain ⟨⟨j, sent⟩, seq, fdu⟩ := z
    rw [List.pairwise_cons] at hord
    have hf : s.forward = (seq, fdu) :: zs.map Prod.snd := hzs.symm
    obtain ⟨hseq, hdata, hold, hrecent, hnear, hknown, hahead⟩ := hall _ List.mem_cons_self
    simp only at hseq hdata hold hrecent hnear hknown hahead
    have hrest : ∀ z ∈ zs, Flies WIN s.first s.taken s.accepted.length z.1 z.2 :=
      fun z hz => hall z (List.mem_cons_of_mem _ hz)
    have hcase := h.expects.handleAdFrame (j := j) available fdu (by omega) (by omega)
    simp only [Transfer.next, hf, Transfer.receive, FarmMachine.handle, hseq]
    rcases hcase with ⟨hj, hactions, hexpects⟩ | ⟨hactions, hexpects⟩
    · have hlen : (s.accepted ++ [fdu]).length = s.accepted.length + 1 := by
        rw [List.length_append, List.length_singleton]
      rw [hactions]
      refine h.receiver_step (s.accepted ++ [fdu]) (hlen ▸ hexpects)
        (List.prefix_append _ _) (prefix_concat h.prefixed (hj ▸ hdata)) hrest (fun z hz => ?_)
        hord.2
      have := hord.1 z hz
      simp only at this
      omega
    · rw [hactions]
      refine h.receiver_step (s.accepted ++ []) ?_ ?_ ?_ hrest ?_ hord.2
      · rw [List.append_nil]
        exact hexpects
      · exact List.prefix_append _ _
      · rw [List.append_nil]
        exact h.prefixed
      · rw [List.append_nil]
        exact fun z hz => (hrest z hz).ahead

theorem Inv.step (h : Inv s base) (l : Label) : ∃ base', Inv (s.next l) base' := by
  cases l with
  | sendAd fdu => exact ⟨base, h.sendAd fdu⟩
  | timerExpired => exact ⟨base, h.timerExpired⟩
  | deliverClcw => exact h.deliverClcw
  | loseClcw i =>
    exact ⟨base, h.fits, h.expects, h.prefixed, h.base_le, h.forward, h.back.eraseIdx i, h.sender⟩
  | deliverFrame available => exact ⟨base, h.deliverFrame available⟩
  | loseFrame i =>
    exact ⟨base, h.fits, h.expects, h.prefixed, h.base_le, h.forward.eraseIdx i, h.back, h.sender⟩
  | bufferRelease =>
    have hnone : delivered s.farm.handleBufferRelease.2 = [] := by
      unfold FarmMachine.handleBufferRelease
      cases s.farm.state <;> rfl
    refine ⟨base, ?_⟩
    simp only [Transfer.next, Transfer.receive, FarmMachine.handle, hnone, List.append_nil]
    exact ⟨h.fits, h.expects.handleBufferRelease, h.prefixed, h.base_le, h.forward, h.back,
      h.sender⟩
  | report =>
    refine ⟨base, h.fits, h.expects, h.prefixed, h.base_le, h.forward, ?_, h.sender⟩
    exact h.back.concat (FarmMachine.clcw_reportValue.trans h.expects.vr) h.base_le

theorem Transfer.Begins.inv (h : s.Begins) : Inv s 0 := by
  obtain ⟨width, hpw, hnw, hfits⟩ := h.windows
  have hhalf : (width / 2).toNat ≤ 127 := by
    rw [UInt8.toNat_div]
    have := width.toNat_lt
    show width.toNat / 2 ≤ 127
    omega
  have hzero : s.accepted.length = 0 := by rw [h.accepted]; rfl
  refine ⟨by omega, ⟨?_, h.unlocked, hpw ▸ ⟨hfits, hhalf⟩, hnw ▸ ⟨hfits, hhalf⟩⟩, ?_,
    Nat.zero_le _, ?_, ?_, .inl ⟨.inl h.active, ?_, h.room, ?_, ?_, ?_⟩⟩
  · rw [hzero, numbered_zero, h.vr]
  · rw [h.accepted]
    exact List.nil_prefix
  · rw [h.forward]
    exact ⟨[], rfl, nofun, List.Pairwise.nil⟩
  · refine ⟨s.back.map fun clcw => (0, clcw), ?_, ?_, ?_⟩
    · rw [List.map_map]
      exact List.map_id _
    · intro z hz
      obtain ⟨clcw, hclcw, rfl⟩ := List.mem_map.mp hz
      exact ⟨(h.back clcw hclcw).trans (numbered_zero _).symm, Nat.le_refl _, Nat.zero_le _⟩
    · rw [List.pairwise_map]
      exact List.pairwise_of_forall fun _ _ => Nat.le_refl _
  · rw [h.taken, List.length_nil, numbered_zero, h.vs]
  · rw [h.taken]
    exact Nat.zero_le _
  · unfold frames
    rw [h.idle]
    nofun
  · rw [h.taken]
    intro j _ hj
    exact absurd hj (Nat.not_lt_zero j)

theorem inv_of_reachable (h : (transfer WIN BUF).Reachable s) : ∃ base, Inv s base := by
  refine h.invariant (fun s => ∃ base, Inv s base) ?_ ?_
  · exact fun s hs => ⟨0, hs.inv⟩
  · rintro s l _ ⟨base, hs⟩ - rfl
    exact hs.step l

theorem acknowledged_mem {m : FopMachine WIN BUF} {clcw : Clcw} {seq : UInt8}
    (hmem : .acknowledged seq ∈ (m.handleClcw clcw).2) :
    m.Working ∧ .acknowledged seq ∈ (m.removeAcknowledged clcw.reportValue).2 := by
  rcases m.handleClcw_cases clcw with ⟨-, heq⟩ | ⟨-, vs, heq⟩ | ⟨-, -, heq⟩ |
    ⟨hst, -, -, heq⟩ | ⟨hw, state, stop, -, hstop, -, heq⟩
  · rw [heq] at hmem
    exact absurd hmem List.not_mem_nil
  · rw [heq] at hmem
    simp [enterActive] at hmem
  · rw [heq] at hmem
    simp [alert] at hmem
  · rw [heq, List.mem_append, pushed_initiateRetransmission, List.mem_append] at hmem
    rcases hmem with hmem | hmem | hmem
    · exact ⟨.inl hst, hmem⟩
    · obtain ⟨_, -, h⟩ := List.mem_map.mp hmem
      cases h
    · split at hmem <;> simp at hmem
  · rw [heq, List.mem_append] at hmem
    rcases hmem with hmem | hmem
    · exact ⟨hw, hmem⟩
    · rcases hstop with rfl | rfl
      · exact absurd hmem List.not_mem_nil
      · unfold stopIfDone at hmem
        split at hmem <;> simp at hmem

/-- What the receiver delivered is a prefix of what the sender took, the receiver is
never locked out, and a frame the sender reports acknowledged has been accepted: among
the last `WIN` frames taken, the one of that number, with the data the sender holds. -/
theorem transfer_safe (h : (transfer WIN BUF).Reachable s) :
    s.accepted <+: s.taken ∧ s.farm.state ≠ .lockout ∧
      ∀ clcw ∈ s.back.head?, ∀ seq, .acknowledged seq ∈ (s.fop.handle (.clcwReceived clcw)).2 →
        ∃ j, j < s.accepted.length ∧ s.taken.length ≤ j + WIN ∧ seq = numbered s.first j ∧
          s.fop.getFdu seq = s.accepted[j]? := by
  obtain ⟨base, hinv⟩ := inv_of_reachable h
  refine ⟨hinv.prefixed, hinv.expects.unlocked, fun clcw hclcw seq hmem => ?_⟩
  obtain ⟨rest, hback⟩ : ∃ rest, s.back = clcw :: rest := by
    cases hb : s.back with
    | nil =>
      rw [hb] at hclcw
      cases hclcw
    | cons c rest =>
      rw [hb] at hclcw
      cases hclcw
      exact ⟨rest, rfl⟩
  obtain ⟨n, hrep, hlo, hhi, -⟩ := (hback ▸ hinv.back).cons
  obtain ⟨hw, hacked⟩ := acknowledged_mem (List.mem_of_mem_take hmem)
  rcases hinv.sender with ⟨-, hq⟩ | hi
  · have hlen := hinv.prefixed.length_le
    rw [hrep] at hacked
    obtain ⟨j, hjlo, hjn, rfl⟩ := hq.acks hinv.fits hlo (by omega) hacked
    have hwindow := hq.window
    refine ⟨j, by omega, by omega, rfl, ?_⟩
    rw [hq.getFdu hinv.fits hjlo (by omega)]
    obtain ⟨more, hmore⟩ := hinv.prefixed
    rw [← hmore, List.getElem?_append_left (by omega)]
  · exact absurd hw (not_working_of_initial hi)

/-- A session whose first frame is lost once. -/
theorem transfer_safe_after_loss :
    ∃ s : Transfer 2 8, s.accepted = [[1], [2]] ∧ s.accepted <+: s.taken ∧
      s.farm.state ≠ .lockout ∧
      ∃ j, j < s.accepted.length ∧ s.taken.length ≤ j + 2 ∧ (0 : UInt8) = numbered s.first j ∧
        s.fop.getFdu 0 = s.accepted[j]? := by
  obtain ⟨labels, hlabels⟩ : ∃ labels : List Label, labels =
      [.sendAd [1], .sendAd [2], .loseFrame 0, .deliverFrame true, .report, .deliverClcw,
        .deliverFrame true, .deliverFrame true, .report] := ⟨_, rfl⟩
  obtain ⟨start, hstart⟩ : ∃ start : Transfer 2 8, start =
      ⟨(FopMachine.new 2 8 ⟨3⟩).handleInitNoClcw.1, FarmMachine.new ⟨0, 10⟩, [], [], [], [], 0⟩ :=
    ⟨_, rfl⟩
  have hbegins : start.Begins := by
    rw [hstart]
    exact ⟨rfl, rfl, by decide, rfl, rfl, by decide, ⟨10, by decide⟩, rfl, nofun, rfl, rfl⟩
  have hinit : (transfer 2 8).Reachable start := .init hbegins
  have hmeets : System.Meets Transfer.next (fun _ _ => True) start labels := by
    rw [hlabels]
    exact ⟨trivial, trivial, trivial, trivial, trivial, trivial, trivial, trivial, trivial,
      trivial⟩
  have hrun : (transfer 2 8).Reachable (labels.foldl Transfer.next start) :=
    hinit.foldl (fun _ _ h => ⟨h, rfl⟩) hmeets
  obtain ⟨hpre, hunlocked, hacks⟩ := transfer_safe hrun
  have haccepted : (labels.foldl Transfer.next start).accepted = [[1], [2]] := by
    rw [hstart, hlabels]
    decide +kernel
  have hhead : (labels.foldl Transfer.next start).back.head? = some ⟨0x01000002⟩ := by
    rw [hstart, hlabels]
    decide +kernel
  refine ⟨_, haccepted, hpre, hunlocked, hacks _ hhead 0 ?_⟩
  rw [hstart, hlabels]
  decide +kernel

end Cop1
end Leodos
