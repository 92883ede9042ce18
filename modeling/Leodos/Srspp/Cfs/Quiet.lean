/-
What keeps the slots of the endpoint free of errors.

While every packet in a slot fits the transmit buffer and the link takes what it is
given, transmitting and retransmitting succeed.  An acknowledgement never fails.
-/
import Leodos.Srspp.Cfs.Endpoint
import Leodos.Srspp.Consistency
import Leodos.Srspp.Sender.Integrity

namespace Leodos
namespace Srspp

open Container Isl Spp

/-! ## Packets that fit -/

namespace SenderMachine

variable {WIN MTU : Nat}

/-- Every packet in a slot fits `MTU` octets with its headers. -/
def PacketsFit (m : SenderMachine WIN MTU) : Prop :=
  ∀ i, (m.slots i).Occupied → HEADER_SIZE + (m.slots i).len ≤ MTU

instance (m : SenderMachine WIN MTU) : Decidable m.PacketsFit :=
  inferInstanceAs (Decidable (∀ _, _ → _))

theorem SameCargo.packetsFit {m m' : SenderMachine WIN MTU} (h : SameCargo m m')
    (hfit : m.PacketsFit) : m'.PacketsFit := by
  intro i hi
  obtain ⟨hocc, st, n, hslot⟩ := h.slot i hi
  rw [hslot]
  exact hfit i hocc

theorem PacketsFit.builds {m : SenderMachine WIN MTU} (hfit : m.PacketsFit) {seq : SequenceCount}
    {info : PayloadInfo} (h : m.getPayload seq = some info) : info.Builds MTU := by
  obtain ⟨i, hi, -, hpayload⟩ := getPayload_slot h
  have hlen : info.payload.length ≤ (m.slots i).len := by
    rw [hpayload]
    exact List.length_take_le ..
  have hslot := hfit i hi
  rw [PayloadInfo.Builds]
  by_cases heos : info.isEos = true
  · rw [if_pos heos]
    omega
  · rw [if_neg heos]
    omega

end SenderMachine

theorem length_of_transmitPacket {ids : PacketIds} {buffer packet : Bytes} {source : Address}
    {seq : SequenceCount} {info : PayloadInfo}
    (h : transmitPacket ids buffer source seq info = .ok packet) :
    packet.length ≤ buffer.length := by
  have hbuilds := (transmitPacket_ok_iff ids buffer source seq info).1 ⟨packet, h⟩
  rw [PayloadInfo.Builds] at hbuilds
  rw [transmitPacket] at h
  by_cases heos : info.isEos = true
  · rw [if_pos heos] at h hbuilds
    generalize SrsppEosPacket.new buffer source info.target ids.apid ids.functionCode seq = x at h
    cases x with
    | error e => cases h
    | ok p =>
      cases h
      exact hbuilds
  · rw [if_neg heos] at h hbuilds
    generalize SrsppDataPacket.new buffer source info.target ids.apid ids.functionCode seq
      info.flags info.payload.length = x at h
    cases x with
    | error e => cases h
    | ok p =>
      cases h
      show (p.headers.asBytes ++ info.payload).length ≤ buffer.length
      rw [List.length_append, Headers.length_asBytes]
      exact hbuilds

theorem Wire.length_handOver {WIN MTU : Nat} (ids : PacketIds) (w : Wire)
    (m : SenderMachine WIN MTU) (a : SenderAction) :
    (w.handOver ids m a).txBuffer.length = w.txBuffer.length := by
  cases a with
  | transmit seq rtoTicks =>
    dsimp only [handOver]
    cases m.getPayload seq with
    | none => rfl
    | some info =>
      dsimp only
      cases hpacket : transmitPacket ids w.txBuffer m.config.sourceAddress seq info with
      | error e => rfl
      | ok packet =>
        have hle := length_of_transmitPacket hpacket
        show (packet ++ w.txBuffer.drop packet.length).length = _
        rw [List.length_append, List.length_drop]
        omega
  | _ => rfl

/-! ## One slot -/

namespace Cfs
namespace SenderState

variable {WIN MTU : Nat}

/-- The slot can go on: nothing has failed and every packet in it fits. -/
structure Sound (s : SenderState WIN MTU) : Prop where
  error : s.error = none
  fit : s.machine.PacketsFit

theorem execute_ok (ids : PacketIds) (now rto : Nat) {s : SenderState WIN MTU} (h : s.Sound)
    {txBuffer : Bytes} (hbuf : txBuffer.length = MTU) (a : SenderAction) :
    ∃ s', s.execute ids now rto txBuffer [] a = (s', [], .ok ()) ∧ s'.Sound := by
  cases a with
  | transmit seq rtoTicks =>
    rw [execute]
    cases hinfo : s.machine.getPayload seq with
    | none => exact ⟨s, rfl, h⟩
    | some info =>
      obtain ⟨packet, hpacket⟩ := (transmitPacket_ok_iff ids txBuffer
        s.machine.config.sourceAddress seq info).2 (hbuf ▸ h.fit.builds hinfo)
      dsimp only
      rw [hpacket]
      exact ⟨_, rfl, h.error,
        (SenderMachine.markTransmitted_sameCargo s.machine seq).packetsFit h.fit⟩
  | stopTimer seq => exact ⟨_, rfl, h.error, h.fit⟩
  | packetLost seq => exact ⟨s, rfl, h⟩
  | messageLost => exact ⟨s, rfl, h⟩
  | spaceAvailable bytes => exact ⟨s, rfl, h⟩

theorem drain_ok (ids : PacketIds) (now rto fuel : Nat) {s : SenderState WIN MTU}
    (h : s.Sound) {w : Wire} (hbuf : w.txBuffer.length = MTU) :
    ∃ s' w', s.drain ids now rto fuel w [] = (s', w', [], .ok ()) ∧ s'.Sound ∧
      w'.txBuffer.length = MTU := by
  induction fuel generalizing s w with
  | zero => exact ⟨s, w, rfl, h, hbuf⟩
  | succ fuel ih =>
    rw [drain]
    cases hpop : s.actions.popFront with
    | none => exact ⟨s, w, rfl, h, hbuf⟩
    | some popped =>
      obtain ⟨a, actions⟩ := popped
      have hpopped : ({ s with actions } : SenderState WIN MTU).Sound := ⟨h.error, h.fit⟩
      obtain ⟨s₁, hexec, h₁⟩ := execute_ok ids now rto hpopped hbuf a
      dsimp only
      rw [hexec]
      exact ih h₁ ((Wire.length_handOver ids w s.machine a).trans hbuf)

theorem transmit_ok (ids : PacketIds) (now rto : Nat) {s : SenderState WIN MTU}
    (h : s.Sound) {w : Wire} (hbuf : w.txBuffer.length = MTU) :
    ∃ s' w', s.transmit ids now rto w [] = (s', w', [], .ok ()) ∧ s'.Sound ∧
      w'.txBuffer.length = MTU := drain_ok ids now rto _ h hbuf

theorem retransmit_ok (ids : PacketIds) (now rto : Nat) (expired : List SequenceCount)
    {s : SenderState WIN MTU} (h : s.Sound) {w : Wire} (hbuf : w.txBuffer.length = MTU) :
    ∃ s' w', retransmit ids now rto expired s w [] = (s', w', [], .ok ()) ∧ s'.Sound ∧
      w'.txBuffer.length = MTU := by
  induction expired generalizing s w with
  | nil => exact ⟨s, w, rfl, h, hbuf⟩
  | cons seq expired ih =>
    have hfit := (SenderMachine.handleTimeout_sameCargo s.machine seq s.actions).packetsFit h.fit
    obtain ⟨s₁, w₁, hrun, h₁, hbuf₁⟩ := transmit_ok ids now rto
      (s := (s.handle (.retransmitTimeout seq)).1) ⟨h.error, hfit⟩ hbuf
    obtain ⟨s₂, w₂, hrest, h₂, hbuf₂⟩ := ih h₁ hbuf₁
    refine ⟨s₂, w₂, ?_, h₂, hbuf₂⟩
    rw [← hrest]
    have hstep : s.handle (.retransmitTimeout seq) =
        ((s.handle (.retransmitTimeout seq)).1, .ok ()) := rfl
    rw [retransmit, hstep]
    dsimp only
    rw [hrun]

theorem handleTimeouts_ok (ids : PacketIds) (now rto : Nat) {s : SenderState WIN MTU}
    (h : s.Sound) {w : Wire} (hbuf : w.txBuffer.length = MTU) :
    ∃ s' w', s.handleTimeouts ids now rto w [] = (s', w', [], .ok ()) ∧ s'.Sound ∧
      w'.txBuffer.length = MTU :=
  retransmit_ok ids now rto _ (s := { s with timers := (s.timers.expired now).2 })
    ⟨h.error, h.fit⟩ hbuf

theorem processAck_ok (s : SenderState WIN MTU) (packet : Bytes) :
    (s.processAck packet).2 = .ok () ∧ (s.processAck packet).1.error = s.error := by
  rw [processAck]
  generalize SrsppPacket.parse packet >>= SrsppPacket.srsppType = x
  obtain e | _ | _ | _ := x
  · exact ⟨rfl, rfl⟩
  · exact ⟨rfl, rfl⟩
  · dsimp only
    cases SrsppAckPacket.parse packet with
    | error e => exact ⟨rfl, rfl⟩
    | ok ack => exact ⟨rfl, rfl⟩
  · exact ⟨rfl, rfl⟩

end SenderState

/-! ## All slots -/

namespace TxSlot

variable {WIN MTU : Nat} {α : Type}

/-- What `f` keeps of a slot, the first match included, holds of all slots afterwards. -/
theorem withFirst_some {p : TxSlot WIN MTU → Bool} {f : TxSlot WIN MTU → TxSlot WIN MTU × α}
    {P : TxSlot WIN MTU → Prop} (hf : ∀ slot, P slot → P (f slot).1)
    {slots slots' : List (TxSlot WIN MTU)} {a : α} (h : withFirst p f slots = some (slots', a))
    (hP : ∀ slot ∈ slots, P slot) :
    (∀ slot ∈ slots', P slot) ∧ ∃ slot, a = (f slot).2 := by
  induction slots generalizing slots' with
  | nil => cases h
  | cons slot slots ih =>
    obtain ⟨hslot, hrest⟩ := List.forall_mem_cons.1 hP
    rw [withFirst] at h
    by_cases hp : p slot = true
    · rw [if_pos hp] at h
      cases h
      exact ⟨List.forall_mem_cons.2 ⟨hf slot hslot, hrest⟩, slot, rfl⟩
    · rw [if_neg hp] at h
      obtain ⟨⟨slots₁, a₁⟩, hfirst, heq⟩ := Option.map_eq_some_iff.1 h
      cases heq
      obtain ⟨hall, ha⟩ := ih hfirst hrest
      exact ⟨List.forall_mem_cons.2 ⟨hslot, hall⟩, ha⟩

/-- Every slot is free of errors, and what the bound ones hold fits. -/
def AllSound (slots : List (TxSlot WIN MTU)) : Prop :=
  ∀ slot ∈ slots, slot.state.error = none ∧
    (slot.target.isSome = true → slot.state.machine.PacketsFit)

theorem forBound_ok {f : SenderState WIN MTU → Wire → List Bool →
      SenderState WIN MTU × Wire × List Bool × Except TransportError Unit}
    (hf : ∀ s w, s.Sound → w.txBuffer.length = MTU →
      ∃ s' w', f s w [] = (s', w', [], .ok ()) ∧ s'.Sound ∧ w'.txBuffer.length = MTU)
    {slots : List (TxSlot WIN MTU)} (h : AllSound slots) {w : Wire}
    (hbuf : w.txBuffer.length = MTU) :
    ∃ slots' w', forBound f slots w [] = (slots', w', [], .ok ()) ∧
      (∀ slot ∈ slots', slot.state.error = none) ∧ w'.txBuffer.length = MTU := by
  induction slots generalizing w with
  | nil => exact ⟨[], w, rfl, List.forall_mem_nil _, hbuf⟩
  | cons slot slots ih =>
    obtain ⟨⟨herr, hfit⟩, hrest⟩ := List.forall_mem_cons.1 h
    rw [forBound]
    cases htarget : slot.target with
    | none =>
      obtain ⟨slots', w', hrun, hall, hbuf'⟩ := ih hrest hbuf
      rw [if_pos Option.isNone_none, hrun]
      exact ⟨_, w', rfl, List.forall_mem_cons.2 ⟨herr, hall⟩, hbuf'⟩
    | some target =>
      rw [htarget] at hfit
      obtain ⟨s₁, w₁, hcall, h₁, hbuf₁⟩ := hf slot.state w ⟨herr, hfit rfl⟩ hbuf
      obtain ⟨slots', w', hrun, hall, hbuf'⟩ := ih hrest hbuf₁
      have hbound : ¬ (some target).isNone = true := Bool.false_ne_true
      rw [if_neg hbound, hcall]
      dsimp only
      rw [hrun]
      exact ⟨_, w', rfl, List.forall_mem_cons.2 ⟨h₁.error, hall⟩, hbuf'⟩

end TxSlot
end Cfs

end Srspp
end Leodos
