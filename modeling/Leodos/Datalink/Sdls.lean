/-
Frame security in place, `datalink/security/mod.rs` and `datalink/security/sdls`.

The security header lies at the front of the data field and the code of the message at its
end.  Neither side moves octets: the caller has to leave room for both.
-/
import Leodos.Bits.Endian
import Leodos.Bits.Field
import Leodos.Datalink.Link

namespace Leodos
namespace Datalink
namespace Sdls

open Bits Memory Spp

inductive ServiceType where
  | authentication
  | encryption
  | authenticatedEncryption
  deriving DecidableEq, Repr

/-- The capacity of `auth_mask`. -/
def MASK_CAPACITY : Nat := 2048

structure SecurityAssociation where
  spi : BitVec 16
  serviceType : ServiceType
  ivLen : UInt8
  snLen : UInt8
  plLen : UInt8
  macLen : UInt8
  sequenceNumber : UInt64
  sequenceWindow : UInt64
  authMask : Bytes
  mask_le : authMask.length ≤ MASK_CAPACITY

namespace SecurityAssociation

def headerSize (sa : SecurityAssociation) : Nat :=
  2 + sa.ivLen.toNat + sa.snLen.toNat + sa.plLen.toNat

def trailerSize (sa : SecurityAssociation) : Nat := sa.macLen.toNat

def overhead (sa : SecurityAssociation) : Nat := sa.headerSize + sa.trailerSize

def setSequenceNumber (sa : SecurityAssociation) (n : UInt64) : SecurityAssociation :=
  { sa with sequenceNumber := n }

end SecurityAssociation

inductive Error where
  | reservedSpi (spi : BitVec 16)
  | unknownSpi (spi : BitVec 16)
  | bufferTooSmall (required available : Nat)
  | frameTooShort
  | macVerificationFailed
  | sequenceNumberRejected (received expected : UInt64)
  | cryptoError
  deriving DecidableEq, Repr

/-- The algorithms work in place on slices, so they keep lengths. -/
structure CryptoProvider where
  encrypt : SecurityAssociation → Bytes → Bytes → Bytes → Bytes →
    Except Error Nat × Bytes × Bytes
  decrypt : SecurityAssociation → Bytes → Bytes → Bytes → Bytes → Except Error Nat × Bytes
  computeMac : SecurityAssociation → Bytes → Bytes → Bytes → Except Error Unit × Bytes
  encrypt_length : ∀ sa iv aad data tagOut,
    (encrypt sa iv aad data tagOut).2.1.length = data.length
  encrypt_tag_length : ∀ sa iv aad data tagOut,
    (encrypt sa iv aad data tagOut).2.2.length = tagOut.length
  decrypt_length : ∀ sa iv aad data tag, (decrypt sa iv aad data tag).2.length = data.length
  computeMac_length : ∀ sa iv payload macOut,
    (computeMac sa iv payload macOut).2.length = macOut.length

/-- No cryptography at all, in the place of any. -/
def ClearModeCrypto : CryptoProvider where
  encrypt := fun _ _ _ data tagOut => (.ok 0, data, tagOut)
  decrypt := fun _ _ _ data _ => (.ok 0, data)
  computeMac := fun sa _ _ macOut => (.ok (), write macOut 0 (List.replicate sa.macLen.toNat 0))
  encrypt_length := fun _ _ _ _ _ => rfl
  encrypt_tag_length := fun _ _ _ _ _ => rfl
  decrypt_length := fun _ _ _ _ _ => rfl
  computeMac_length := fun _ _ _ _ => write_length _ _ _

def MAX_MAC_SIZE : Nat := 64
def MAX_IV_SIZE : Nat := 32
def MAX_SN_SIZE : Nat := 8
def MAX_PL_SIZE : Nat := 2

/-- The local buffer for masked frame octets of an authenticated encryption. -/
def MASKED_AAD_SIZE : Nat := 256

/-- The octets under the mask, where the mask covers them all. -/
def masked (sa : SecurityAssociation) (part : Bytes) : Bytes :=
  if part.length ≤ sa.authMask.length then List.zipWith (fun a b => a &&& b) part sa.authMask
  else part

/-! ## Sending -/

/-- The sequence number in as many octets, filled up with zeros in front. -/
def ivOf (sa : SecurityAssociation) : Bytes :=
  List.replicate (sa.ivLen.toNat - 8) 0 ++
    (BigEndian.encode 8 sa.sequenceNumber.toNat).drop (8 - sa.ivLen.toNat)

def snOf (sa : SecurityAssociation) : Bytes :=
  (BigEndian.encode 8 sa.sequenceNumber.toNat).drop (8 - sa.snLen.toNat)

/-- The octets that `write_security_header` puts down. -/
def securityHeader (sa : SecurityAssociation) (iv sn : Bytes) (padLen : Nat) : Bytes :=
  [highByte sa.spi, lowByte sa.spi] ++ iv ++ sn ++
    (BigEndian.encode 2 padLen).drop (2 - sa.plLen.toNat)

/-- The cryptographic part of `apply_security`, on a frame that has its security header. -/
def sealData (sa : SecurityAssociation) (crypto : CryptoProvider) (frame iv : Bytes)
    (dataStart dataEnd : Nat) : Except (Fault Error) Unit × Bytes :=
  let macLen := sa.macLen.toNat
  let macBuf := List.replicate macLen 0
  match sa.serviceType with
  | .authentication =>
    if MAX_MAC_SIZE < macLen then (.error .panic, frame)
    else
      match crypto.computeMac sa iv (masked sa (frame.take dataEnd)) macBuf with
      | (.error e, _) => (.error (.error e), frame)
      | (.ok (), mac) => (.ok (), write frame dataEnd mac)
  | .encryption =>
    if dataEnd < dataStart then (.error .panic, frame)
    else
      match crypto.encrypt sa iv [] (slice frame dataStart (dataEnd - dataStart)) [] with
      | (.error e, data, _) => (.error (.error e), write frame dataStart data)
      | (.ok _, data, _) => (.ok (), write frame dataStart data)
  | .authenticatedEncryption =>
    if dataEnd < dataStart ∨ MAX_MAC_SIZE < macLen ∨
        dataStart ≤ sa.authMask.length ∧ MASKED_AAD_SIZE < dataStart then (.error .panic, frame)
    else
      match crypto.encrypt sa iv (masked sa (frame.take dataStart))
          (slice frame dataStart (dataEnd - dataStart)) macBuf with
      | (.error e, data, _) => (.error (.error e), write frame dataStart data)
      | (.ok _, data, mac) => (.ok (), write (write frame dataStart data) dataEnd mac)

def applySecurity (sa : SecurityAssociation) (crypto : CryptoProvider) (frame : Bytes)
    (headerEnd dataStart dataEnd : Nat) :
    Except (Fault Error) Unit × Bytes × SecurityAssociation :=
  let trailerEnd := dataEnd + sa.macLen.toNat
  if sa.spi = 0 ∨ sa.spi = 0xffff then (.error (.error (.reservedSpi sa.spi)), frame, sa)
  else if frame.length < trailerEnd then
    (.error (.error (.bufferTooSmall trailerEnd frame.length)), frame, sa)
  else if MAX_IV_SIZE < sa.ivLen.toNat ∨ MAX_SN_SIZE < sa.snLen.toNat ∨
      dataStart < headerEnd ∨ frame.length < dataStart then (.error .panic, frame, sa)
  else if dataStart - headerEnd < sa.headerSize then
    (.error (.error (.bufferTooSmall sa.headerSize (dataStart - headerEnd))), frame, sa)
  else if MAX_PL_SIZE < sa.plLen.toNat then (.error .panic, frame, sa)
  else
    let iv := ivOf sa
    let frame := write frame headerEnd (securityHeader sa iv (snOf sa) 0)
    match sealData sa crypto frame iv dataStart dataEnd with
    | (.error fault, frame) => (.error fault, frame, sa)
    | (.ok (), frame) => (.ok (), frame, sa.setSequenceNumber (sa.sequenceNumber + 1))

theorem applySecurity_ok_iff {sa next : SecurityAssociation} {crypto : CryptoProvider}
    {frame sealed : Bytes} {headerEnd dataStart dataEnd : Nat} :
    applySecurity sa crypto frame headerEnd dataStart dataEnd = (.ok (), sealed, next) ↔
      (sa.spi ≠ 0 ∧ sa.spi ≠ 0xffff) ∧ dataEnd + sa.macLen.toNat ≤ frame.length ∧
        sa.ivLen.toNat ≤ MAX_IV_SIZE ∧ sa.snLen.toNat ≤ MAX_SN_SIZE ∧
        headerEnd + sa.headerSize ≤ dataStart ∧ dataStart ≤ frame.length ∧
        sa.plLen.toNat ≤ MAX_PL_SIZE ∧ next = sa.setSequenceNumber (sa.sequenceNumber + 1) ∧
        sealData sa crypto (write frame headerEnd (securityHeader sa (ivOf sa) (snOf sa) 0))
          (ivOf sa) dataStart dataEnd = (.ok (), sealed) := by
  have hpos : 2 ≤ sa.headerSize := by
    unfold SecurityAssociation.headerSize
    omega
  rw [applySecurity]
  dsimp only
  by_cases hspi : sa.spi = 0 ∨ sa.spi = 0xffff
  · rw [if_pos hspi]
    exact iff_of_false (fun h => by cases h) (fun h => hspi.elim h.1.1 h.1.2)
  by_cases htrailer : frame.length < dataEnd + sa.macLen.toNat
  · rw [if_neg hspi, if_pos htrailer]
    exact iff_of_false (fun h => by cases h) (fun h => Nat.not_le.2 htrailer h.2.1)
  by_cases hbuffers : MAX_IV_SIZE < sa.ivLen.toNat ∨ MAX_SN_SIZE < sa.snLen.toNat ∨
      dataStart < headerEnd ∨ frame.length < dataStart
  · rw [if_neg hspi, if_neg htrailer, if_pos hbuffers]
    refine iff_of_false (fun h => by cases h) (fun h => ?_)
    obtain ⟨-, -, hiv, hsn, hstart, hlen, -⟩ := h
    omega
  by_cases hroom : dataStart - headerEnd < sa.headerSize
  · rw [if_neg hspi, if_neg htrailer, if_neg hbuffers, if_pos hroom]
    refine iff_of_false (fun h => by cases h) (fun h => ?_)
    obtain ⟨-, -, -, -, hstart, -⟩ := h
    omega
  by_cases hpl : MAX_PL_SIZE < sa.plLen.toNat
  · rw [if_neg hspi, if_neg htrailer, if_neg hbuffers, if_neg hroom, if_pos hpl]
    exact iff_of_false (fun h => by cases h) (fun h => Nat.not_le.2 hpl h.2.2.2.2.2.2.1)
  rw [if_neg hspi, if_neg htrailer, if_neg hbuffers, if_neg hroom, if_neg hpl]
  cases hseal : sealData sa crypto (write frame headerEnd (securityHeader sa (ivOf sa) (snOf sa) 0))
      (ivOf sa) dataStart dataEnd with
  | mk result bytes =>
    cases result with
    | error fault =>
      refine iff_of_false (fun h => by cases h) (fun h => ?_)
      cases h.2.2.2.2.2.2.2.2
    | ok u =>
      constructor
      · intro h
        cases h
        exact ⟨⟨fun h => hspi (Or.inl h), fun h => hspi (Or.inr h)⟩, by omega, by omega, by omega,
          by omega, by omega, by omega, rfl, rfl⟩
      · intro h
        obtain ⟨-, -, -, -, -, -, -, hnext, hbytes⟩ := h
        cases hbytes
        rw [hnext]

/-! ## Receiving -/

def checkSequenceNumber (sa : SecurityAssociation) (received : UInt64) :
    Except Error SecurityAssociation :=
  let expected := sa.sequenceNumber
  if received < expected then .error (.sequenceNumberRejected received expected)
  else if 0 < sa.sequenceWindow ∧ expected + sa.sequenceWindow < received then
    .error (.sequenceNumberRejected received expected)
  else .ok (sa.setSequenceNumber (received + 1))

/-- The initialization vector and the sequence number of the security header at `headerEnd`. -/
def readHeader (sa : SecurityAssociation) (frame : Bytes) (headerEnd dataStart dataEnd : Nat) :
    Except (Fault Error) (Bytes × UInt64) :=
  if frame.length < headerEnd then .error .panic
  else if frame.length < headerEnd + 2 then .error (.error .frameTooShort)
  else
    let spi := Bits.ofBytes (frame.getD headerEnd 0) (frame.getD (headerEnd + 1) 0)
    if spi ≠ sa.spi then .error (.error (.unknownSpi spi))
    else if frame.length < dataEnd + sa.macLen.toNat then .error (.error .frameTooShort)
    else if dataStart < headerEnd ∨ frame.length < dataStart then .error .panic
    else if dataStart - headerEnd < sa.headerSize then .error (.error .frameTooShort)
    else if MAX_SN_SIZE < sa.snLen.toNat ∨ MAX_IV_SIZE < sa.ivLen.toNat then .error .panic
    else
      let iv := slice frame (headerEnd + 2) sa.ivLen.toNat
      let sn := slice frame (headerEnd + 2 + sa.ivLen.toNat) sa.snLen.toNat
      .ok (iv, UInt64.ofNat (BigEndian.decode sn))

theorem readHeader_ok_iff {sa : SecurityAssociation} {frame iv : Bytes}
    {headerEnd dataStart dataEnd : Nat} {received : UInt64} :
    readHeader sa frame headerEnd dataStart dataEnd = .ok (iv, received) ↔
      Bits.ofBytes (frame.getD headerEnd 0) (frame.getD (headerEnd + 1) 0) = sa.spi ∧
        dataEnd + sa.macLen.toNat ≤ frame.length ∧ headerEnd + sa.headerSize ≤ dataStart ∧
        dataStart ≤ frame.length ∧ sa.snLen.toNat ≤ MAX_SN_SIZE ∧ sa.ivLen.toNat ≤ MAX_IV_SIZE ∧
        iv = slice frame (headerEnd + 2) sa.ivLen.toNat ∧
        received = UInt64.ofNat
          (BigEndian.decode (slice frame (headerEnd + 2 + sa.ivLen.toNat) sa.snLen.toNat)) := by
  have hpos : 2 ≤ sa.headerSize := by
    unfold SecurityAssociation.headerSize
    omega
  rw [readHeader]
  by_cases hshort : frame.length < headerEnd + 2
  · refine iff_of_false (fun h => ?_) (fun h => ?_)
    · by_cases hheader : frame.length < headerEnd
      · rw [if_pos hheader] at h
        cases h
      · rw [if_neg hheader, if_pos hshort] at h
        cases h
    · obtain ⟨-, -, hstart, hlen, -⟩ := h
      omega
  rw [if_neg (by omega), if_neg hshort]
  dsimp only
  by_cases hspi : Bits.ofBytes (frame.getD headerEnd 0) (frame.getD (headerEnd + 1) 0) ≠ sa.spi
  · rw [if_pos hspi]
    exact iff_of_false (fun h => by cases h) (fun h => hspi h.1)
  by_cases htrailer : frame.length < dataEnd + sa.macLen.toNat
  · rw [if_neg hspi, if_pos htrailer]
    exact iff_of_false (fun h => by cases h) (fun h => Nat.not_le.2 htrailer h.2.1)
  by_cases hslice : dataStart < headerEnd ∨ frame.length < dataStart
  · rw [if_neg hspi, if_neg htrailer, if_pos hslice]
    refine iff_of_false (fun h => by cases h) (fun h => ?_)
    obtain ⟨-, -, hstart, hlen, -⟩ := h
    omega
  by_cases hroom : dataStart - headerEnd < sa.headerSize
  · rw [if_neg hspi, if_neg htrailer, if_neg hslice, if_pos hroom]
    refine iff_of_false (fun h => by cases h) (fun h => ?_)
    obtain ⟨-, -, hstart, -⟩ := h
    omega
  by_cases hbuffers : MAX_SN_SIZE < sa.snLen.toNat ∨ MAX_IV_SIZE < sa.ivLen.toNat
  · rw [if_neg hspi, if_neg htrailer, if_neg hslice, if_neg hroom, if_pos hbuffers]
    refine iff_of_false (fun h => by cases h) (fun h => ?_)
    obtain ⟨-, -, -, -, hsn, hiv, -⟩ := h
    omega
  rw [if_neg hspi, if_neg htrailer, if_neg hslice, if_neg hroom, if_neg hbuffers]
  constructor
  · intro h
    cases h
    exact ⟨Decidable.not_not.1 hspi, by omega, by omega, by omega, by omega, by omega, rfl, rfl⟩
  · intro h
    obtain ⟨-, -, -, -, -, -, hiv, hreceived⟩ := h
    rw [hiv, hreceived]

/-- The check that follows a good code, for associations that number their frames. -/
def acceptNumber (sa : SecurityAssociation) (received : UInt64) :
    Except (Fault Error) SecurityAssociation :=
  if 0 < sa.snLen.toNat then
    match checkSequenceNumber sa received with
    | .error e => .error (.error e)
    | .ok sa => .ok sa
  else .ok sa

/-- The cryptographic part of `process_security`. -/
def openData (sa : SecurityAssociation) (crypto : CryptoProvider) (frame iv : Bytes)
    (dataStart dataEnd : Nat) : Except (Fault Error) Unit × Bytes :=
  let macLen := sa.macLen.toNat
  match sa.serviceType with
  | .authentication =>
    if MAX_MAC_SIZE < macLen then (.error .panic, frame)
    else
      match crypto.computeMac sa iv (masked sa (frame.take dataEnd)) (List.replicate macLen 0) with
      | (.error e, _) => (.error (.error e), frame)
      | (.ok (), mac) =>
        if slice frame dataEnd macLen ≠ mac then (.error (.error .macVerificationFailed), frame)
        else (.ok (), frame)
  | .encryption =>
    if dataEnd < dataStart then (.error .panic, frame)
    else
      match crypto.decrypt sa iv [] (slice frame dataStart (dataEnd - dataStart)) [] with
      | (.error e, data) => (.error (.error e), write frame dataStart data)
      | (.ok _, data) => (.ok (), write frame dataStart data)
  | .authenticatedEncryption =>
    if dataEnd < dataStart ∨ MAX_MAC_SIZE < macLen ∨
        dataStart ≤ sa.authMask.length ∧ MASKED_AAD_SIZE < dataStart then (.error .panic, frame)
    else
      match crypto.decrypt sa iv (masked sa (frame.take dataStart))
          (slice frame dataStart (dataEnd - dataStart)) (slice frame dataEnd macLen) with
      | (.error e, data) => (.error (.error e), write frame dataStart data)
      | (.ok _, data) => (.ok (), write frame dataStart data)

def processSecurity (sa : SecurityAssociation) (crypto : CryptoProvider) (frame : Bytes)
    (headerEnd dataStart dataEnd : Nat) :
    Except (Fault Error) Unit × Bytes × SecurityAssociation :=
  match readHeader sa frame headerEnd dataStart dataEnd with
  | .error fault => (.error fault, frame, sa)
  | .ok (iv, received) =>
    match openData sa crypto frame iv dataStart dataEnd with
    | (.error fault, frame) => (.error fault, frame, sa)
    | (.ok (), frame) =>
      if sa.serviceType = .encryption then (.ok (), frame, sa)
      else
        match acceptNumber sa received with
        | .error fault => (.error fault, frame, sa)
        | .ok sa => (.ok (), frame, sa)

/-- The receiver's count goes on, where it counts. -/
def Counts (receiver : SecurityAssociation) (received : UInt64) (next : SecurityAssociation) :
    Prop :=
  if receiver.serviceType = .encryption then next = receiver
  else acceptNumber receiver received = .ok next

theorem counts_of_encryption {receiver next : SecurityAssociation} {received : UInt64}
    (h : receiver.serviceType = .encryption) :
    Counts receiver received next ↔ next = receiver := by
  rw [Counts, if_pos h]

theorem counts_of_ne {receiver next : SecurityAssociation} {received : UInt64}
    (h : receiver.serviceType ≠ .encryption) :
    Counts receiver received next ↔ acceptNumber receiver received = .ok next := by
  rw [Counts, if_neg h]

theorem processSecurity_ok_iff {sa next : SecurityAssociation} {crypto : CryptoProvider}
    {frame opened : Bytes} {headerEnd dataStart dataEnd : Nat} :
    processSecurity sa crypto frame headerEnd dataStart dataEnd = (.ok (), opened, next) ↔
      ∃ iv received, readHeader sa frame headerEnd dataStart dataEnd = .ok (iv, received) ∧
        openData sa crypto frame iv dataStart dataEnd = (.ok (), opened) ∧
        Counts sa received next := by
  rw [processSecurity]
  cases hheader : readHeader sa frame headerEnd dataStart dataEnd with
  | error fault =>
    refine iff_of_false (fun h => by cases h) (fun h => ?_)
    obtain ⟨iv, received, hread, -⟩ := h
    cases hread
  | ok header =>
    obtain ⟨iv, received⟩ := header
    dsimp only
    cases hdata : openData sa crypto frame iv dataStart dataEnd with
    | mk result bytes =>
      cases result with
      | error fault =>
        refine iff_of_false (fun h => by cases h) (fun h => ?_)
        obtain ⟨iv, received, hread, hopen, -⟩ := h
        cases hread
        rw [hdata] at hopen
        cases hopen
      | ok u =>
        dsimp only
        by_cases hplain : sa.serviceType = .encryption
        · rw [if_pos hplain]
          constructor
          · intro h
            cases h
            exact ⟨iv, received, rfl, hdata, (counts_of_encryption hplain).2 rfl⟩
          · intro h
            obtain ⟨iv', received', hread, hopen, hcounts⟩ := h
            cases hread
            rw [hdata] at hopen
            cases hopen
            rw [(counts_of_encryption hplain).1 hcounts]
        · rw [if_neg hplain]
          constructor
          · intro h
            cases hnumber : acceptNumber sa received with
            | error fault =>
              rw [hnumber] at h
              cases h
            | ok sa' =>
              rw [hnumber] at h
              cases h
              exact ⟨iv, received, rfl, hdata, (counts_of_ne hplain).2 hnumber⟩
          · intro h
            obtain ⟨iv', received', hread, hopen, hcounts⟩ := h
            cases hread
            rw [hdata] at hopen
            cases hopen
            rw [(counts_of_ne hplain).1 hcounts]

theorem processSecurity_error {sa next : SecurityAssociation} {crypto : CryptoProvider}
    {frame opened : Bytes} {headerEnd dataStart dataEnd : Nat} {fault : Fault Error}
    (h : processSecurity sa crypto frame headerEnd dataStart dataEnd =
      (.error fault, opened, next)) : next = sa := by
  rw [processSecurity] at h
  split at h
  · cases h
    rfl
  · split at h
    · cases h
      rfl
    · split at h
      · cases h
      · split at h
        · cases h
          rfl
        · cases h

/-! ## The processor -/

def SdlsProcessor.apply (crypto : CryptoProvider) (headerEnd : Nat) (sa : SecurityAssociation)
    (frame : Bytes) : Except (Fault Error) Nat × Bytes × SecurityAssociation :=
  if frame.length < sa.trailerSize then (.error .panic, frame, sa)
  else
    match applySecurity sa crypto frame headerEnd (headerEnd + sa.headerSize)
        (frame.length - sa.trailerSize) with
    | (.error fault, frame, sa) => (.error fault, frame, sa)
    | (.ok (), frame, sa) => (.ok frame.length, frame, sa)

def SdlsProcessor.process (crypto : CryptoProvider) (headerEnd : Nat) (sa : SecurityAssociation)
    (frame : Bytes) : Except (Fault Error) Nat × Bytes × SecurityAssociation :=
  if frame.length < sa.trailerSize then (.error .panic, frame, sa)
  else
    match processSecurity sa crypto frame headerEnd (headerEnd + sa.headerSize)
        (frame.length - sa.trailerSize) with
    | (.error fault, frame, sa) => (.error fault, frame, sa)
    | (.ok (), frame, sa) => (.ok frame.length, frame, sa)

def SdlsProcessor (crypto : CryptoProvider) (headerEnd : Nat) :
    SecurityProcessor SecurityAssociation Error where
  apply := SdlsProcessor.apply crypto headerEnd
  process := SdlsProcessor.process crypto headerEnd

/-! ## Panics of the receiving side -/

/-- The octets at `headerEnd` are the index of the association. -/
def Names (sa : SecurityAssociation) (headerEnd : Nat) (frame : Bytes) : Prop :=
  headerEnd + 2 ≤ frame.length ∧
    Bits.ofBytes (frame.getD headerEnd 0) (frame.getD (headerEnd + 1) 0) = sa.spi

/-- The buffers of the cryptographic part are large enough. -/
def HasRoom (sa : SecurityAssociation) (dataStart dataEnd : Nat) : Prop :=
  match sa.serviceType with
  | .authentication => sa.macLen.toNat ≤ MAX_MAC_SIZE
  | .encryption => dataStart ≤ dataEnd
  | .authenticatedEncryption => dataStart ≤ dataEnd ∧ sa.macLen.toNat ≤ MAX_MAC_SIZE ∧
      (dataStart ≤ sa.authMask.length → dataStart ≤ MASKED_AAD_SIZE)

/-- What `process` takes for granted about a frame, for an association that the frame may or
may not name. -/
def Tolerates (sa : SecurityAssociation) (headerEnd : Nat) (frame : Bytes) : Prop :=
  sa.trailerSize ≤ frame.length ∧ headerEnd ≤ frame.length ∧
    (Names sa headerEnd frame →
      headerEnd + sa.headerSize ≤ frame.length ∧ sa.snLen.toNat ≤ MAX_SN_SIZE ∧
        sa.ivLen.toNat ≤ MAX_IV_SIZE ∧
        HasRoom sa (headerEnd + sa.headerSize) (frame.length - sa.trailerSize))

theorem openData_returns_iff {sa : SecurityAssociation} {crypto : CryptoProvider}
    {frame iv : Bytes} {dataStart dataEnd : Nat} :
    Returns (openData sa crypto frame iv dataStart dataEnd).1 ↔ HasRoom sa dataStart dataEnd := by
  rw [openData, HasRoom]
  cases sa.serviceType with
  | authentication =>
    dsimp only
    by_cases hmac : MAX_MAC_SIZE < sa.macLen.toNat
    · rw [if_pos hmac]
      exact iff_of_false not_returns_panic (Nat.not_le.2 hmac)
    · rw [if_neg hmac]
      refine iff_of_true ?_ (Nat.le_of_not_lt hmac)
      split
      · exact returns_error _
      · split
        · exact returns_error _
        · exact returns_ok _
  | encryption =>
    dsimp only
    by_cases hdata : dataEnd < dataStart
    · rw [if_pos hdata]
      exact iff_of_false not_returns_panic (Nat.not_le.2 hdata)
    · rw [if_neg hdata]
      refine iff_of_true ?_ (Nat.le_of_not_lt hdata)
      split
      · exact returns_error _
      · exact returns_ok _
  | authenticatedEncryption =>
    dsimp only
    by_cases hbad : dataEnd < dataStart ∨ MAX_MAC_SIZE < sa.macLen.toNat ∨
        dataStart ≤ sa.authMask.length ∧ MASKED_AAD_SIZE < dataStart
    · rw [if_pos hbad]
      refine iff_of_false not_returns_panic fun h => ?_
      rcases hbad with h₁ | h₁ | h₁
      · exact Nat.not_le.2 h₁ h.1
      · exact Nat.not_le.2 h₁ h.2.1
      · exact Nat.not_le.2 h₁.2 (h.2.2 h₁.1)
    · rw [if_neg hbad]
      refine iff_of_true ?_ ⟨by omega, by omega, fun h => by omega⟩
      split
      · exact returns_error _
      · exact returns_ok _

theorem acceptNumber_returns (sa : SecurityAssociation) (received : UInt64) :
    Returns (acceptNumber sa received) := by
  rw [acceptNumber]
  split
  · split
    · exact returns_error _
    · exact returns_ok _
  · exact returns_ok _

theorem processSecurity_returns_iff {sa : SecurityAssociation} {crypto : CryptoProvider}
    {frame : Bytes} {headerEnd dataStart dataEnd : Nat}
    (hstart : headerEnd + sa.headerSize = dataStart)
    (hfit : dataEnd + sa.macLen.toNat ≤ frame.length) :
    Returns (processSecurity sa crypto frame headerEnd dataStart dataEnd).1 ↔
      headerEnd ≤ frame.length ∧
        (Names sa headerEnd frame → dataStart ≤ frame.length ∧ sa.snLen.toNat ≤ MAX_SN_SIZE ∧
          sa.ivLen.toNat ≤ MAX_IV_SIZE ∧ HasRoom sa dataStart dataEnd) := by
  rw [processSecurity, readHeader]
  by_cases hheader : frame.length < headerEnd
  · rw [if_pos hheader]
    exact iff_of_false not_returns_panic (fun h => Nat.not_le.2 hheader h.1)
  · rw [if_neg hheader]
    by_cases hspi : frame.length < headerEnd + 2
    · rw [if_pos hspi]
      exact iff_of_true (returns_error _)
        ⟨Nat.le_of_not_lt hheader, fun h => absurd h.1 (Nat.not_le.2 hspi)⟩
    · rw [if_neg hspi]
      dsimp only
      by_cases hnamed : Bits.ofBytes (frame.getD headerEnd 0) (frame.getD (headerEnd + 1) 0) =
          sa.spi
      · rw [if_neg (not_not_intro hnamed), if_neg (Nat.not_lt.2 hfit)]
        have hnames : Names sa headerEnd frame := ⟨Nat.le_of_not_lt hspi, hnamed⟩
        by_cases hbad : frame.length < dataStart ∨ MAX_SN_SIZE < sa.snLen.toNat ∨
            MAX_IV_SIZE < sa.ivLen.toNat
        · refine iff_of_false ?_ fun h => ?_
          · by_cases hlong : frame.length < dataStart
            · rw [if_pos (Or.inr hlong)]
              exact not_returns_panic
            · rw [if_neg (by omega), if_neg (by omega), if_pos (by omega)]
              exact not_returns_panic
          · obtain ⟨h₁, h₂, h₃, -⟩ := h.2 hnames
            omega
        · rw [if_neg (by omega), if_neg (by omega), if_neg (by omega)]
          dsimp only
          have hcrypto := @openData_returns_iff sa crypto frame
            (slice frame (headerEnd + 2) sa.ivLen.toNat) dataStart dataEnd
          have hiff : (headerEnd ≤ frame.length ∧ (Names sa headerEnd frame →
              dataStart ≤ frame.length ∧ sa.snLen.toNat ≤ MAX_SN_SIZE ∧
                sa.ivLen.toNat ≤ MAX_IV_SIZE ∧ HasRoom sa dataStart dataEnd)) ↔
              HasRoom sa dataStart dataEnd :=
            ⟨fun h => (h.2 hnames).2.2.2,
              fun h => ⟨Nat.le_of_not_lt hheader, fun _ => ⟨by omega, by omega, by omega, h⟩⟩⟩
          rw [hiff, ← hcrypto]
          cases openData sa crypto frame (slice frame (headerEnd + 2) sa.ivLen.toNat) dataStart
              dataEnd with
          | mk result opened =>
            cases result with
            | error fault => exact Iff.rfl
            | ok u =>
              dsimp only
              refine iff_of_true ?_ (returns_ok _)
              split
              · exact returns_ok _
              · have hnumber := acceptNumber_returns sa (UInt64.ofNat (BigEndian.decode
                  (slice frame (headerEnd + 2 + sa.ivLen.toNat) sa.snLen.toNat)))
                cases hcheck : acceptNumber sa (UInt64.ofNat (BigEndian.decode
                  (slice frame (headerEnd + 2 + sa.ivLen.toNat) sa.snLen.toNat))) with
                | ok sa' => exact returns_ok _
                | error fault =>
                  rw [hcheck, returns_error_iff] at hnumber
                  exact returns_error_iff.2 hnumber
      · rw [if_pos hnamed]
        exact iff_of_true (returns_error _)
          ⟨Nat.le_of_not_lt hheader, fun h => absurd h.2 hnamed⟩

theorem process_returns_iff {sa : SecurityAssociation} {crypto : CryptoProvider}
    {headerEnd : Nat} {frame : Bytes} :
    Returns ((SdlsProcessor crypto headerEnd).process sa frame).1 ↔
      Tolerates sa headerEnd frame := by
  show Returns (SdlsProcessor.process crypto headerEnd sa frame).1 ↔ _
  rw [SdlsProcessor.process, Tolerates]
  by_cases hshort : frame.length < sa.trailerSize
  · rw [if_pos hshort]
    exact iff_of_false not_returns_panic (fun h => Nat.not_le.2 hshort h.1)
  · have htrailer := Nat.le_of_not_lt hshort
    have hfit : frame.length - sa.trailerSize + sa.macLen.toNat ≤ frame.length :=
      Nat.le_of_eq (Nat.sub_add_cancel htrailer)
    rw [if_neg hshort, and_iff_right htrailer, ← processSecurity_returns_iff rfl hfit]
    cases processSecurity sa crypto frame headerEnd (headerEnd + sa.headerSize)
        (frame.length - sa.trailerSize) with
    | mk result rest =>
      cases result with
      | error fault =>
        dsimp only
        rw [returns_error_iff, returns_error_iff]
      | ok u => exact iff_of_true (returns_ok _) (returns_ok _)

theorem openData_length (sa : SecurityAssociation) (crypto : CryptoProvider) (frame iv : Bytes)
    (dataStart dataEnd : Nat) :
    (openData sa crypto frame iv dataStart dataEnd).2.length = frame.length := by
  rw [openData]
  cases sa.serviceType with
  | authentication =>
    dsimp only
    split
    · rfl
    · split
      · rfl
      · split <;> rfl
  | encryption =>
    dsimp only
    split
    · rfl
    · split <;> exact write_length ..
  | authenticatedEncryption =>
    dsimp only
    split
    · rfl
    · split <;> exact write_length ..

theorem process_length (crypto : CryptoProvider) (headerEnd : Nat) (sa : SecurityAssociation)
    (frame : Bytes) :
    ((SdlsProcessor crypto headerEnd).process sa frame).2.1.length = frame.length := by
  show (SdlsProcessor.process crypto headerEnd sa frame).2.1.length = _
  have hopened := openData_length sa crypto frame
  rw [SdlsProcessor.process]
  split
  · rfl
  · rw [processSecurity]
    cases readHeader sa frame headerEnd (headerEnd + sa.headerSize)
        (frame.length - sa.trailerSize) with
    | error fault => rfl
    | ok header =>
      have hlen := hopened header.1 (headerEnd + sa.headerSize) (frame.length - sa.trailerSize)
      dsimp only
      cases hdata : openData sa crypto frame header.1 (headerEnd + sa.headerSize)
          (frame.length - sa.trailerSize) with
      | mk result opened =>
        rw [hdata] at hlen
        cases result with
        | error fault => exact hlen
        | ok u =>
          by_cases hplain : sa.serviceType = .encryption
          · simp only [if_pos hplain]
            exact hlen
          · simp only [if_neg hplain]
            cases acceptNumber sa header.2 <;> exact hlen

end Sdls
end Datalink
end Leodos
