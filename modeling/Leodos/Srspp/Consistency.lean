/-
Whether the packets that the drivers hand to the link agree with themselves.
-/
import Leodos.Srspp.Cfs.Sender
import Leodos.Srspp.Tokio.Sender

namespace Leodos
namespace Srspp

open Isl Spp

/-! ## Buffers -/

theorem transmitPacket_ok_iff (ids : PacketIds) (buffer : Bytes) (source : Address)
    (seq : SequenceCount) (info : PayloadInfo) :
    (∃ packet, transmitPacket ids buffer source seq info = .ok packet) ↔
      info.Builds buffer.length := by
  unfold transmitPacket PayloadInfo.Builds
  by_cases heos : info.isEos = true
  · rw [if_pos heos, if_pos heos]
    constructor
    · rintro ⟨packet, h⟩
      cases hnew : SrsppEosPacket.new buffer source info.target ids.apid ids.functionCode seq with
      | error e =>
        rw [hnew] at h
        cases h
      | ok p => exact (SrsppEosPacket.new_ok hnew).1
    · intro hsize
      obtain ⟨headers, hsplit⟩ := Headers.refFromPrefix_of_le hsize
      rw [SrsppEosPacket.new, hsplit]
      exact ⟨_, rfl⟩
  · rw [if_neg heos, if_neg heos]
    constructor
    · rintro ⟨packet, h⟩
      cases hnew : SrsppDataPacket.new buffer source info.target ids.apid ids.functionCode seq
          info.flags info.payload.length with
      | error e =>
        rw [hnew] at h
        cases h
      | ok p => exact (SrsppDataPacket.new_ok hnew).1
    · intro hsize
      have hheaders : HEADER_SIZE ≤ buffer.length := Nat.le_trans (Nat.le_add_right _ _) hsize
      obtain ⟨headers, hsplit⟩ := Headers.refFromPrefix_of_le hheaders
      have hroom : ¬ (buffer.drop HEADER_SIZE).length < info.payload.length := by
        rw [List.length_drop]
        omega
      rw [SrsppDataPacket.new, hsplit]
      dsimp only
      rw [if_neg hroom]
      exact ⟨_, rfl⟩

/-! ## The two drivers -/

namespace Cfs
namespace SenderState

variable {WIN MTU : Nat} {ids : PacketIds} {now rto : Nat}

theorem genuine_drain (fuel : Nat) {s : SenderState WIN MTU} {w : Wire} (hw : w.Genuine ids)
    (writes : List Bool) : (drain ids now rto fuel s w writes).2.1.Genuine ids := by
  induction fuel generalizing s w writes with
  | zero => exact hw
  | succ fuel ih =>
    dsimp only [drain]
    cases s.actions.popFront with
    | none => exact hw
    | some popped =>
      obtain ⟨a, actions⟩ := popped
      have hw' := Wire.genuine_handOver hw s.machine a
      dsimp only
      generalize { s with actions }.execute ids now rto w.txBuffer writes a = r
      obtain ⟨s', writes', _ | u⟩ := r
      · exact hw'
      · exact ih hw' writes'

end SenderState
end Cfs

namespace SrsppSender

variable {WIN MTU : Nat}

/-- What `drain` hands to the link. -/
def hand (ids : PacketIds) : Nat → SrsppSender WIN MTU → Wire → List Bool → Wire
  | 0, _, w, _ => w
  | fuel + 1, s, w, writes =>
      match s.actions.popFront with
      | none => w
      | some (a, actions) =>
          match { s with actions }.execute writes a with
          | (s', writes', .ok ()) => hand ids fuel s' (w.handOver ids s.machine a) writes'
          | _ => w.handOver ids s.machine a

/-- What `process_actions` hands to the link. -/
def handAll (ids : PacketIds) (s : SrsppSender WIN MTU) (w : Wire) (writes : List Bool) : Wire :=
  hand ids s.actions.inner.length s w writes

theorem genuine_hand {ids : PacketIds} (fuel : Nat) {s : SrsppSender WIN MTU} {w : Wire}
    (hw : w.Genuine ids) (writes : List Bool) : (hand ids fuel s w writes).Genuine ids := by
  induction fuel generalizing s w writes with
  | zero => exact hw
  | succ fuel ih =>
    dsimp only [hand]
    cases s.actions.popFront with
    | none => exact hw
    | some popped =>
      obtain ⟨a, actions⟩ := popped
      have hw' := Wire.genuine_handOver hw s.machine a
      dsimp only
      generalize { s with actions }.execute writes a = r
      obtain ⟨s', writes', _ | u⟩ := r
      · exact hw'
      · exact ih hw' writes'

end SrsppSender

/-- A packet that a driver hands to the link is consistent exactly when its source is
encodable and, for DATA, its payload fits the length field and has the checksum of what the
transmit buffer held in its place.  ACK packets for encodable addresses always are. -/
theorem handed_consistent_iff (ids : PacketIds) {WIN MTU : Nat} (txBuffer : Bytes)
    (writes : List Bool) :
    (∀ (s : Cfs.SenderState WIN MTU) (now rto : Nat),
      ∀ h ∈ (s.transmit ids now rto ⟨txBuffer, []⟩ writes).2.1.handed,
        h.Consistent ids ↔ h.Clean) ∧
    (∀ s : SrsppSender WIN MTU, ∀ h ∈ (s.handAll ids ⟨txBuffer, []⟩ writes).handed,
      h.Consistent ids ↔ h.Clean) ∧
    ∀ (source target : Address) (seq cumulativeAck : SequenceCount) (selectiveBitmap : BitVec 16)
      (p : SrsppAckPacket), source.Encodable → target.Encodable →
      SrsppAckPacket.new txBuffer source target ids.apid ids.functionCode seq cumulativeAck
        selectiveBitmap = .ok p →
      SrsppAckPacket.Consistent p.asBytes
        ⟨.ack, source, target, ids.apid, ids.functionCode, seq, .unsegmented⟩ cumulativeAck
        selectiveBitmap := by
  have hempty : Wire.Genuine ids ⟨txBuffer, []⟩ := fun h hh => absurd hh List.not_mem_nil
  refine ⟨fun s now rto h hh => ?_, fun s h hh => ?_, ?_⟩
  · exact Handed.consistent_iff (Cfs.SenderState.genuine_drain _ hempty writes h hh)
  · exact Handed.consistent_iff (SrsppSender.genuine_hand _ hempty writes h hh)
  · exact fun source target seq cumulativeAck selectiveBitmap p hsource htarget hnew =>
      ack_consistent hnew hsource htarget

/-! ## One octet in a fresh buffer -/

section

def oneOctetIds : PacketIds := ⟨0x42, 0⟩

def oneOctetConfig : SenderConfig := ⟨.satellite ⟨1, 5⟩, 100, 3, 13⟩

def oneOctet : Cfs.SenderState 2 32 :=
  (Cfs.SenderState.handle ⟨.new oneOctetConfig 64, .new, .new 2, none⟩
    (.sendRequest (.ground 3) [1])).1

def freshBuffer : Bytes := List.replicate 32 0

/-- The checksum was computed over the zero that the payload replaces. -/
theorem one_octet_not_consistent :
    ¬ ∀ h ∈ (oneOctet.transmit oneOctetIds 0 100 ⟨freshBuffer, []⟩ []).2.1.handed,
      h.Consistent oneOctetIds := by
  intro hall
  obtain ⟨h, hmem, hdirty⟩ : ∃ h ∈
      (oneOctet.transmit oneOctetIds 0 100 ⟨freshBuffer, []⟩ []).2.1.handed,
        h.info.isEos = false ∧
          checksumU8 ((h.prior.drop HEADER_SIZE).take h.info.payload.length) ≠
            checksumU8 h.info.payload := by
    decide
  have hempty : Wire.Genuine oneOctetIds ⟨freshBuffer, []⟩ :=
    fun h hh => absurd hh List.not_mem_nil
  have hbuilt := Cfs.SenderState.genuine_drain _ hempty [] h hmem
  exact hdirty.2 (((Handed.consistent_iff hbuilt).1 (hall h hmem)).2 hdirty.1).2

end

end Srspp
end Leodos
