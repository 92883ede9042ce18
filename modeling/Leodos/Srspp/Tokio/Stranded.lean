/-
Runs of the tokio driver.

A popped `Transmit` whose build or write fails is gone, and so is an action pushed
onto a full queue; either way a slot can be left with nothing that would send or
time it again.  In runs without such a step no slot is ever stranded.
-/
import Leodos.Srspp.Tokio.Coupling

namespace Leodos
namespace Srspp

open Isl Spp Transition SenderMachine

namespace SrsppSender

variable {WIN MTU : Nat}

/-- Runs of the driver.  A label is a call with the results of its link writes. -/
def driver (WIN MTU : Nat) (config : SenderConfig) (bufSize : Nat) :
    System (SrsppSender WIN MTU) (Call × List Bool) where
  init s := s = .new config bufSize
  step s c s' := s' = (s.call c.1 c.2).1

/-- No link write fails, what a send admits builds, fits the queue and reuses no count
in use, and the actions of an acknowledgement or a retransmission fit the queue. -/
def Healthy (s : SrsppSender WIN MTU) (c : Call × List Bool) : Prop :=
  (∀ w ∈ c.2, w = true) ∧
    match c.1 with
    | .send target data => s.SendHealthy (.sendRequest target data)
    | .sendEos target => s.SendHealthy (.sendEos target)
    | .incomingAck ack bitmap =>
        s.actions.inner.length + ackedCount s.machine ack bitmap ≤ MAX_ACTIONS
    | .timeouts expired => ∀ seq, expired.head? = some seq →
        (∃ i, (s.machine.slots i).state = .awaitingAck ∧ (s.machine.slots i).seq = seq ∧
          (s.machine.slots i).retransmitCount < s.machine.config.maxRetransmits) →
            s.actions.inner.length < MAX_ACTIONS
    | .processActions => True

/-- A send that is refused admits nothing, so it leaves no action behind. -/
def SendsWhole (s : SrsppSender WIN MTU) (c : Call × List Bool) : Prop :=
  match c.1 with
  | .send target data =>
      s.machine.roomFor (s.machine.intended (.sendRequest target data)) = 0 ∨
        s.machine.roomFor (s.machine.intended (.sendRequest target data)) =
          (s.machine.intended (.sendRequest target data)).length
  | _ => True

theorem Settled.sendEvent {s : SrsppSender WIN MTU} (h : Settled s) {e : Event}
    (he : (∃ target data, e = .sendRequest target data) ∨ ∃ target, e = .sendEos target)
    (hok : s.SendHealthy e) {writes : List Bool} (hw : ∀ w ∈ writes, w = true) :
    Settled (s.handleEvent e writes).1 ∧
      (s.actions.inner = [] →
        (s.machine.roomFor (s.machine.intended e) = 0 ∨
          s.machine.roomFor (s.machine.intended e) = (s.machine.intended e).length) →
        (s.handleEvent e writes).1.actions.inner = []) := by
  obtain ⟨m', a', res, hh, hq, hres⟩ := handle_queues h.layout he s.actions
  have hs := h.send he hok hh
  simp only [handleEvent, hh]
  cases res with
  | ok u =>
    obtain ⟨s', writes', hp, hs', hempty, -⟩ := hs.toCoupled.processActions hw
    simp only [hp]
    exact ⟨hs', fun _ _ => hempty⟩
  | error err =>
    refine ⟨hs, fun hnil hwhole => ?_⟩
    have hne : s.machine.roomFor (s.machine.intended e) ≠ (s.machine.intended e).length :=
      fun heq => by simpa using hres.2 heq
    rw [hwhole.resolve_right hne, List.take_zero] at hq
    have ha := hq.actions
    show a'.inner = []
    rw [ha, hnil]
    rfl

theorem Settled.timeouts {expired : List SequenceCount} {s : SrsppSender WIN MTU}
    (h : Settled s) {writes : List Bool} (hw : ∀ w ∈ writes, w = true)
    (hroom : ∀ seq, expired.head? = some seq →
      (∃ i, (s.machine.slots i).state = .awaitingAck ∧ (s.machine.slots i).seq = seq ∧
        (s.machine.slots i).retransmitCount < s.machine.config.maxRetransmits) →
          s.actions.inner.length < MAX_ACTIONS) :
    Settled (handleTimeouts expired s writes).1 ∧
      (s.actions.inner = [] → (handleTimeouts expired s writes).1.actions.inner = []) := by
  induction expired generalizing s writes with
  | nil => exact ⟨h, fun hnil => hnil⟩
  | cons seq expired ih =>
    have hs := h.timeout (hroom seq rfl)
    obtain ⟨s', writes', hp, hs', hempty, hw'⟩ := hs.toCoupled.processActions hw
    have he : (s.setTimer seq false).handleEvent (.retransmitTimeout seq) writes =
        (s', writes', .ok ()) := hp
    simp only [handleTimeouts, he]
    have hrest := ih hs' hw' fun _ _ _ => by
      rw [hempty]
      exact Nat.zero_lt_succ _
    exact ⟨hrest.1, fun _ => hrest.2 hempty⟩

theorem Settled.call {s : SrsppSender WIN MTU} (h : Settled s) {c : Call × List Bool}
    (hok : s.Healthy c) :
    Settled (s.call c.1 c.2).1 ∧
      (s.actions.inner = [] → s.SendsWhole c → (s.call c.1 c.2).1.actions.inner = []) := by
  obtain ⟨c, writes⟩ := c
  obtain ⟨hw, hok⟩ := hok
  cases c with
  | send target data =>
    have hs := h.sendEvent (Or.inl ⟨target, data, rfl⟩) hok hw
    exact ⟨hs.1, hs.2⟩
  | sendEos target =>
    have hs := h.sendEvent (Or.inr ⟨target, rfl⟩) hok hw
    have hroom := (roomFor_le s.machine (s.machine.intended (.sendEos target))).1
    have hone : (s.machine.intended (.sendEos target)).length = 1 := rfl
    exact ⟨hs.1, fun hnil _ => hs.2 hnil (by omega)⟩
  | incomingAck ack bitmap =>
    obtain ⟨s', writes', hp, hs', hempty, -⟩ := (h.ack hok).processActions hw
    have he : s.call (.incomingAck ack bitmap) writes = (s', writes', .ok ()) := hp
    simp only [he]
    exact ⟨hs', fun _ _ => hempty⟩
  | timeouts expired =>
    have hs := h.timeouts hw hok
    exact ⟨hs.1, fun hnil _ => hs.2 hnil⟩
  | processActions =>
    obtain ⟨s', writes', hp, hs', hempty, -⟩ := h.toCoupled.processActions hw
    have he : s.call .processActions writes = (s', writes', .ok ()) := hp
    simp only [he]
    exact ⟨hs', fun _ _ => hempty⟩

/-- In every state of a healthy run no slot is stranded.  If moreover no send was
refused half way, a sender that is not idle has an armed timer, so `flush` has a
deadline to wait for. -/
theorem unstranded_of_reaches {config : SenderConfig} {bufSize : Nat} {s : SrsppSender WIN MTU}
    (h : (driver WIN MTU config bufSize).Reaches Healthy s) :
    Unstranded s ∧
      ((driver WIN MTU config bufSize).Reaches (fun s c => s.Healthy c ∧ s.SendsWhole c) s →
        s.machine.isIdle = false → ∃ seq, s.retransmitTimers seq = true) := by
  have hsettled : Settled s := by
    refine h.invariant Settled ?_ ?_
    · rintro _ rfl
      exact settled_new config bufSize
    · rintro s c _ hs hok rfl
      exact (hs.call hok).1
  refine ⟨hsettled.unstranded, fun hwhole hidle => ?_⟩
  have hempty : Settled s ∧ s.actions.inner = [] := by
    refine hwhole.invariant (fun s => Settled s ∧ s.actions.inner = []) ?_ ?_
    · rintro _ rfl
      exact ⟨settled_new config bufSize, rfl⟩
    · rintro s c _ ⟨hs, hnil⟩ ⟨hok, hw⟩ rfl
      exact ⟨(hs.call hok).1, (hs.call hok).2 hnil hw⟩
  have hbusy : ∃ i, (s.machine.slots i).Occupied := by
    obtain ⟨i, -, hi⟩ := List.all_eq_false.1 hidle
    exact ⟨i, by simpa [PacketMeta.Occupied] using hi⟩
  obtain ⟨i, hi⟩ := hbusy
  rcases hsettled.unstranded.slot i hi with ⟨-, rto, hmem⟩ | ⟨-, htimer⟩
  · rw [hempty.2] at hmem
    cases hmem
  · exact ⟨_, htimer⟩

def oneSlot : SrsppSender 1 32 := .new smallConfig 8

/-- The first write fails: the slot waits for transmission with an empty queue and no
timer. -/
theorem unstranded_failed_write :
    ∃ s : SrsppSender 1 32, (driver 1 32 smallConfig 8).Reachable s ∧ ¬ Unstranded s := by
  refine ⟨(oneSlot.call (.send (.ground 1) [1]) [false]).1,
    .step (.send (.ground 1) [1], [false]) (.init rfl) trivial rfl, fun h => ?_⟩
  have hqueue : (oneSlot.call (.send (.ground 1) [1]) [false]).1.actions.inner = [] := by decide
  rcases h.slot 0 (by decide) with ⟨-, rto, hmem⟩ | ⟨hst, -⟩
  · rw [hqueue] at hmem
    cases hmem
  · revert hst
    decide

/-- The write succeeds: the slot waits for its acknowledgement with its timer armed. -/
theorem unstranded_of_reaches_written :
    Unstranded (oneSlot.call (.send (.ground 1) [1]) [true]).1 ∧
      ∃ seq, (oneSlot.call (.send (.ground 1) [1]) [true]).1.retransmitTimers seq = true := by
  have hok : oneSlot.Healthy (.send (.ground 1) [1], [true]) :=
    ⟨by decide, by decide, by decide, by decide⟩
  have hwhole : oneSlot.SendsWhole (.send (.ground 1) [1], [true]) := Or.inr (by decide)
  have hrun : (driver 1 32 smallConfig 8).Reaches Healthy
      (oneSlot.call (.send (.ground 1) [1]) [true]).1 :=
    .step (.send (.ground 1) [1], [true]) (.init rfl) hok rfl
  obtain ⟨hun, hflush⟩ := unstranded_of_reaches hrun
  exact ⟨hun, hflush (.step _ (.init rfl) ⟨hok, hwhole⟩ rfl) (by decide)⟩

end SrsppSender

end Srspp
end Leodos
