/-
What the drivers of the sender hand to the link.

Both drivers turn a `Transmit` action into a packet in the same way: the builder writes
over the front of the transmit buffer, then the payload is copied in.  The checksum is
computed in between, so it covers what the buffer held before.
-/
import Leodos.Srspp.Wire

namespace Leodos
namespace Srspp

open Bits Isl Spp

/-! ## Packets that agree with themselves -/

/-- A packet on the wire is taken by `SrsppPacket::parse` and by the parser of its own
kind, reads back the fields `f` and what `Carries` says, states its length, and passes
the checksum. -/
structure SelfConsistent {P : Type} (parse : Bytes → Except SrsppPacketError P)
    (headers : P → Headers) (validate : P → Bool) (bytes : Bytes) (f : Fields)
    (Carries : P → Prop) : Prop where
  common : ∃ p, SrsppPacket.parse bytes = .ok p ∧ p.headers.fields = .ok f ∧
    p.headers.primary.packetDataLength.toNat + 7 = bytes.length
  own : ∃ p, parse bytes = .ok p ∧ (headers p).fields = .ok f ∧ Carries p ∧ validate p = true

def SrsppDataPacket.Consistent (bytes : Bytes) (f : Fields) (payload : Bytes) : Prop :=
  SelfConsistent parse headers validateCfeChecksum bytes f fun p => p.payload = payload

def SrsppAckPacket.Consistent (bytes : Bytes) (f : Fields) (cumulativeAck : SequenceCount)
    (selectiveBitmap : BitVec 16) : Prop :=
  SelfConsistent parse headers validateCfeChecksum bytes f fun p =>
    p.ackPayload.count = cumulativeAck ∧ p.ackPayload.selectiveAckBitmap = selectiveBitmap

def SrsppEosPacket.Consistent (bytes : Bytes) (f : Fields) : Prop :=
  SelfConsistent parse headers validateCfeChecksum bytes f fun _ => True

theorem parse_headers (h : Headers) (body : Bytes) :
    SrsppPacket.parse (h.asBytes ++ body) = .ok ⟨h, body⟩ := by
  rw [SrsppPacket.parse, Headers.refFromPrefix_asBytes]

/-- A packet with filled and sealed headers is consistent when its addresses are encodable,
its length fits the field, and the checksum was computed over a body that has the checksum
of its own. -/
theorem selfConsistent_iff {P : Type} {parse : Bytes → Except SrsppPacketError P}
    {headers : P → Headers} {validate : P → Bool} {Carries : P → Prop} {p : P} {body sealed : Bytes}
    {h : Headers} {f : Fields} (hheaders : headers p =
      (h.fill f (2 + 2 + 3 + body.length)).setCfeChecksum sealed)
    (hparse : parse ((headers p).asBytes ++ body) = .ok p)
    (hvalidate : validate p = validateChecksumU8 ((headers p).asBytes ++ body))
    (hcarries : Carries p) :
    SelfConsistent parse headers validate ((headers p).asBytes ++ body) f Carries ↔
      (f.sourceAddress.Encodable ∧ f.target.Encodable) ∧ body.length + 6 < 65536 ∧
        checksumU8 sealed = checksumU8 body := by
  have hfields : (headers p).fields = .ok f ↔ f.sourceAddress.Encodable ∧ f.target.Encodable := by
    rw [hheaders, Headers.fields_setCfeChecksum, Headers.fields_fill_iff]
  have hlength : (headers p).primary.packetDataLength = BitVec.ofNat 16 (body.length + 6) := by
    rw [hheaders]
    exact Headers.packetDataLength_fill h f body.length
  have hbytes : ((headers p).asBytes ++ body).length = body.length + 13 := by
    rw [List.length_append, Headers.length_asBytes, Nat.add_comm]
    rfl
  have hchecksum : validate p = true ↔ checksumU8 sealed = checksumU8 body := by
    rw [hvalidate, hheaders, Headers.validate_setCfeChecksum]
  constructor
  · rintro ⟨⟨q, hq, hqf, hqlen⟩, p', hp', hpf, -, hv⟩
    rw [parse_headers, Except.ok.injEq] at hq
    rw [hparse, Except.ok.injEq] at hp'
    subst hq hp'
    rw [hlength, hbytes, BitVec.toNat_ofNat] at hqlen
    exact ⟨hfields.1 hpf, by omega, hchecksum.1 hv⟩
  · rintro ⟨haddr, hlen, hsum⟩
    refine ⟨⟨_, parse_headers _ _, hfields.2 haddr, ?_⟩,
      p, hparse, hfields.2 haddr, hcarries, hchecksum.2 hsum⟩
    rw [hlength, hbytes, BitVec.toNat_ofNat, Nat.mod_eq_of_lt hlen]

/-! ## The three builders -/

section

variable {buffer : Bytes} {source target : Address} {apid : Apid} {functionCode : UInt8}
variable {seq : SequenceCount}

theorem SrsppDataPacket.new_ok {flag : SequenceFlag} {n : Nat} {p : SrsppDataPacket}
    (h : new buffer source target apid functionCode seq flag n = .ok p) :
    HEADER_SIZE + n ≤ buffer.length ∧ p.payload = (buffer.drop HEADER_SIZE).take n ∧
      ∃ headers : Headers, p.headers =
        (headers.fill ⟨.data, source, target, apid, functionCode, seq, flag⟩ (2 + 2 + 3 + n)
          ).setCfeChecksum p.payload := by
  unfold new at h
  by_cases hsize : HEADER_SIZE ≤ buffer.length
  · obtain ⟨headers, hsplit⟩ := Headers.refFromPrefix_of_le hsize
    rw [hsplit] at h
    dsimp only at h
    by_cases hn : (buffer.drop HEADER_SIZE).length < n
    · rw [if_pos hn] at h
      cases h
    · rw [if_neg hn, Except.ok.injEq] at h
      subst h
      rw [List.length_drop] at hn
      exact ⟨by omega, rfl, headers, rfl⟩
  · rw [Headers.refFromPrefix_of_lt (Nat.lt_of_not_le hsize)] at h
    cases h

/-- A DATA packet is consistent with the payload that was copied in when the old content of
the buffer has the checksum of the payload. -/
theorem data_consistent_iff {flag : SequenceFlag} {payload : Bytes} {p : SrsppDataPacket}
    (h : SrsppDataPacket.new buffer source target apid functionCode seq flag payload.length =
      .ok p) :
    SrsppDataPacket.Consistent { p with payload }.asBytes
        ⟨.data, source, target, apid, functionCode, seq, flag⟩ payload ↔
      (source.Encodable ∧ target.Encodable) ∧ payload.length + 6 < 65536 ∧
        checksumU8 ((buffer.drop HEADER_SIZE).take payload.length) = checksumU8 payload := by
  obtain ⟨-, hold, headers, hheaders⟩ := SrsppDataPacket.new_ok h
  rw [← hold]
  exact selfConsistent_iff hheaders (SrsppDataPacket.parse_asBytes _) rfl rfl

theorem SrsppEosPacket.new_ok {p : SrsppEosPacket}
    (h : new buffer source target apid functionCode seq = .ok p) :
    HEADER_SIZE ≤ buffer.length ∧ ∃ headers : Headers, p.headers =
      (headers.fill ⟨.eos, source, target, apid, functionCode, seq, .unsegmented⟩ (2 + 2 + 3)
        ).setCfeChecksum [] := by
  unfold new at h
  by_cases hsize : HEADER_SIZE ≤ buffer.length
  · obtain ⟨headers, hsplit⟩ := Headers.refFromPrefix_of_le hsize
    rw [hsplit, Except.ok.injEq] at h
    subst h
    exact ⟨hsize, headers, rfl⟩
  · rw [Headers.refFromPrefix_of_lt (Nat.lt_of_not_le hsize)] at h
    cases h

theorem eos_consistent_iff {p : SrsppEosPacket}
    (h : SrsppEosPacket.new buffer source target apid functionCode seq = .ok p) :
    SrsppEosPacket.Consistent p.asBytes
        ⟨.eos, source, target, apid, functionCode, seq, .unsegmented⟩ ↔
      source.Encodable ∧ target.Encodable := by
  obtain ⟨-, headers, hheaders⟩ := SrsppEosPacket.new_ok h
  have hempty : p.headers = (headers.fill
      ⟨.eos, source, target, apid, functionCode, seq, .unsegmented⟩
      (2 + 2 + 3 + ([] : Bytes).length)).setCfeChecksum [] := hheaders
  have hbytes : p.asBytes = p.headers.asBytes ++ [] := (List.append_nil _).symm
  have hparse : SrsppEosPacket.parse (p.headers.asBytes ++ []) = .ok p := by
    rw [← hbytes]
    exact SrsppEosPacket.parse_asBytes p
  have hvalidate : p.validateCfeChecksum = validateChecksumU8 (p.headers.asBytes ++ []) := by
    rw [← hbytes]
    rfl
  have hcarries : (fun _ : SrsppEosPacket => True) p := trivial
  rw [hbytes]
  refine (selfConsistent_iff hempty hparse hvalidate hcarries).trans ?_
  exact ⟨fun h => h.1, fun h => ⟨h, show 0 + 6 < 65536 by decide, rfl⟩⟩

theorem SrsppAckPacket.new_ok {cumulativeAck : SequenceCount} {selectiveBitmap : BitVec 16}
    {p : SrsppAckPacket} (h : new buffer source target apid functionCode seq cumulativeAck
      selectiveBitmap = .ok p) :
    p.ackPayload = .new (cumulativeAck.setWidth 16) selectiveBitmap ∧
      ∃ headers : Headers, p.headers =
        (headers.fill ⟨.ack, source, target, apid, functionCode, seq, .unsegmented⟩ (2 + 2 + 3 + 4)
          ).setCfeChecksum p.ackPayload.asBytes := by
  unfold new at h
  cases hsplit : Headers.refFromPrefix (buffer.take SIZE) with
  | none =>
    rw [hsplit] at h
    cases h
  | some view =>
    rw [hsplit] at h
    dsimp only at h
    by_cases hn : view.2.length < 4
    · rw [if_pos hn] at h
      cases h
    · rw [if_neg hn, Except.ok.injEq] at h
      subst h
      exact ⟨rfl, view.1, rfl⟩

theorem ack_consistent {cumulativeAck : SequenceCount} {selectiveBitmap : BitVec 16}
    {p : SrsppAckPacket} (h : SrsppAckPacket.new buffer source target apid functionCode seq
      cumulativeAck selectiveBitmap = .ok p)
    (hsource : source.Encodable) (htarget : target.Encodable) :
    SrsppAckPacket.Consistent p.asBytes
      ⟨.ack, source, target, apid, functionCode, seq, .unsegmented⟩ cumulativeAck
      selectiveBitmap := by
  obtain ⟨hpayload, headers, hheaders⟩ := SrsppAckPacket.new_ok h
  have hcount : p.ackPayload.count = cumulativeAck := by
    rw [hpayload, AckPayload.new, AckPayload.count,
      BitVec.setWidth_setWidth_of_le cumulativeAck (by decide), BitVec.setWidth_eq]
  have hbitmap : p.ackPayload.selectiveAckBitmap = selectiveBitmap := by
    rw [hpayload]
    rfl
  have hsize : p.ackPayload.asBytes.length + 6 < 65536 := show 4 + 6 < 65536 by decide
  exact (selfConsistent_iff hheaders (SrsppAckPacket.parse_asBytes p) rfl ⟨hcount, hbitmap⟩).2
    ⟨⟨hsource, htarget⟩, hsize, rfl⟩

end

/-! ## Handing packets to the link -/

/-- The fields of `SenderConfig` that only packets carry. -/
structure PacketIds where
  apid : Apid
  functionCode : UInt8
  deriving DecidableEq, Repr

/-- Build the packet of a slot at the front of the transmit buffer. -/
def transmitPacket (ids : PacketIds) (buffer : Bytes) (source : Address) (seq : SequenceCount)
    (info : PayloadInfo) : Except SrsppPacketError Bytes :=
  if info.isEos then
    (SrsppEosPacket.new buffer source info.target ids.apid ids.functionCode seq).map
      SrsppEosPacket.asBytes
  else
    (SrsppDataPacket.new buffer source info.target ids.apid ids.functionCode seq info.flags
      info.payload.length).map fun p => { p with payload := info.payload }.asBytes

/-- A packet handed to the link, with what it was built from. -/
structure Handed where
  /-- The transmit buffer before the packet was built. -/
  prior : Bytes
  source : Address
  seq : SequenceCount
  info : PayloadInfo
  packet : Bytes
  deriving DecidableEq

/-- The transmit buffer and everything handed to the link so far. -/
structure Wire where
  txBuffer : Bytes
  handed : List Handed
  deriving DecidableEq

def Wire.handOver {WIN MTU : Nat} (ids : PacketIds) (w : Wire) (m : SenderMachine WIN MTU) :
    SenderAction → Wire
  | .transmit seq _ =>
      match m.getPayload seq with
      | none => w
      | some info =>
          match transmitPacket ids w.txBuffer m.config.sourceAddress seq info with
          | .error _ => w
          | .ok packet =>
              { txBuffer := packet ++ w.txBuffer.drop packet.length
                handed := w.handed ++
                  [⟨w.txBuffer, m.config.sourceAddress, seq, info, packet⟩] }
  | _ => w

namespace Handed

/-- The packet reads back what it was built from. -/
def Consistent (ids : PacketIds) (h : Handed) : Prop :=
  if h.info.isEos then
    SrsppEosPacket.Consistent h.packet
      ⟨.eos, h.source, h.info.target, ids.apid, ids.functionCode, h.seq, .unsegmented⟩
  else
    SrsppDataPacket.Consistent h.packet
      ⟨.data, h.source, h.info.target, ids.apid, ids.functionCode, h.seq, h.info.flags⟩
      h.info.payload

/-- The source has a wire form of its own, and for DATA the payload fits the length field
and has the checksum of the octets that it replaces. -/
def Clean (h : Handed) : Prop :=
  h.source.Encodable ∧ (h.info.isEos = false →
    h.info.payload.length + 6 < 65536 ∧
      checksumU8 ((h.prior.drop HEADER_SIZE).take h.info.payload.length) =
        checksumU8 h.info.payload)

/-- The packet was built by `transmitPacket` for a target that was read from a slot. -/
structure Built (ids : PacketIds) (h : Handed) : Prop where
  packet : transmitPacket ids h.prior h.source h.seq h.info = .ok h.packet
  target : h.info.target.Encodable

theorem consistent_iff {ids : PacketIds} {h : Handed} (hb : h.Built ids) :
    h.Consistent ids ↔ h.Clean := by
  have hpacket := hb.packet
  unfold transmitPacket at hpacket
  unfold Consistent Clean
  by_cases heos : h.info.isEos = true
  · rw [if_pos heos] at hpacket ⊢
    cases hnew : SrsppEosPacket.new h.prior h.source h.info.target ids.apid ids.functionCode
        h.seq with
    | error e =>
      rw [hnew] at hpacket
      cases hpacket
    | ok p =>
      rw [hnew] at hpacket
      rw [← Except.ok.inj hpacket, eos_consistent_iff hnew]
      refine ⟨fun h => ⟨h.1, fun hdata => ?_⟩, fun h => ⟨h.1, hb.target⟩⟩
      rw [heos] at hdata
      cases hdata
  · rw [if_neg heos] at hpacket ⊢
    cases hnew : SrsppDataPacket.new h.prior h.source h.info.target ids.apid ids.functionCode
        h.seq h.info.flags h.info.payload.length with
    | error e =>
      rw [hnew] at hpacket
      cases hpacket
    | ok p =>
      rw [hnew] at hpacket
      rw [← Except.ok.inj hpacket, data_consistent_iff hnew]
      exact ⟨fun h => ⟨h.1.1, fun _ => h.2⟩,
        fun h => ⟨⟨h.1, hb.target⟩, h.2 (Bool.eq_false_iff.2 heos)⟩⟩

end Handed

theorem parse_encodable (raw : RawAddress) : raw.parse.Encodable := by
  unfold RawAddress.parse
  by_cases h : raw.groundOrOrb = 0
  · rw [if_pos h]
    trivial
  · rw [if_neg h]
    intro heq
    apply h
    have hsum : raw.groundOrOrb - 1 + 1 = 255 + 1 := congrArg (· + 1) heq
    rwa [UInt8.sub_add_cancel] at hsum

theorem target_encodable {WIN MTU : Nat} {m : SenderMachine WIN MTU} {seq : SequenceCount}
    {info : PayloadInfo} (h : m.getPayload seq = some info) : info.target.Encodable := by
  unfold SenderMachine.getPayload at h
  obtain ⟨i, -, rfl⟩ := Option.map_eq_some_iff.1 h
  exact parse_encodable _

namespace Wire

/-- Every packet that was handed over was built. -/
def Genuine (ids : PacketIds) (w : Wire) : Prop := ∀ h ∈ w.handed, h.Built ids

theorem genuine_handOver {WIN MTU : Nat} {ids : PacketIds} {w : Wire} (hw : w.Genuine ids)
    (m : SenderMachine WIN MTU) (a : SenderAction) : (w.handOver ids m a).Genuine ids := by
  cases a with
  | transmit seq rtoTicks =>
    dsimp only [handOver]
    cases hinfo : m.getPayload seq with
    | none => exact hw
    | some info =>
      dsimp only
      cases hpacket : transmitPacket ids w.txBuffer m.config.sourceAddress seq info with
      | error e => exact hw
      | ok packet =>
        intro h hmem
        rcases List.mem_append.1 hmem with hold | hnew
        · exact hw h hold
        · rw [List.mem_singleton.1 hnew]
          exact ⟨hpacket, target_encodable hinfo⟩
  | _ => exact hw

end Wire

end Srspp
end Leodos
