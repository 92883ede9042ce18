/-
What security in place leaves of a frame.

The frame writer leaves no room for the security header and the code, so they go where the
packets are.  A frame comes through with its packets only when the octets that are written
are there already.
-/
import Leodos.Datalink.Sdls

namespace Leodos
namespace Datalink
namespace Sdls

open Bits Memory Spp

/-- The lengths for which the local buffers are made. -/
structure SecurityAssociation.Bounded (sa : SecurityAssociation) : Prop where
  iv : sa.ivLen.toNat ≤ MAX_IV_SIZE
  sn : sa.snLen.toNat ≤ MAX_SN_SIZE
  pl : sa.plLen.toNat ≤ MAX_PL_SIZE
  mac : sa.macLen.toNat ≤ MAX_MAC_SIZE

def tagLen (sa : SecurityAssociation) : Nat :=
  match sa.serviceType with
  | .encryption => 0
  | .authentication | .authenticatedEncryption => sa.macLen.toNat

/-- Under the association, and with tags of its length, decryption undoes encryption.  What
changes from frame to frame is in the initialization vector, so it does not matter how far the
receiver has counted. -/
def CryptoProvider.Reverses (crypto : CryptoProvider) (sa : SecurityAssociation) : Prop :=
  ∀ (count : UInt64) (iv aad data : Bytes) (n : Nat) (sealed tag : Bytes),
    crypto.encrypt sa iv aad data (List.replicate (tagLen sa) 0) = (.ok n, sealed, tag) →
    ∃ k, crypto.decrypt (sa.setSequenceNumber count) iv aad sealed tag = (.ok k, data)

/-- The same for the frames to come. -/
def CryptoProvider.Inverse (crypto : CryptoProvider) (sa : SecurityAssociation) : Prop :=
  ∀ count, crypto.Reverses (sa.setSequenceNumber count)

theorem clearMode_inverse (sa : SecurityAssociation) : ClearModeCrypto.Inverse sa := by
  intro count count' iv aad data n sealed tag h
  cases h
  exact ⟨0, rfl⟩

/-- The two ends have the same association, up to the frames counted. -/
def Paired (sender receiver : SecurityAssociation) : Prop :=
  ∃ count, receiver = sender.setSequenceNumber count

variable {sender receiver next : SecurityAssociation} {crypto : CryptoProvider}
  {headerEnd dataStart dataEnd : Nat} {frame sealed opened iv code : Bytes}

theorem length_ivOf (sender : SecurityAssociation) : (ivOf sender).length = sender.ivLen.toNat := by
  rw [ivOf, List.length_append, List.length_replicate, List.length_drop,
    BigEndian.length_encode]
  omega

theorem length_snOf (hb : sender.Bounded) : (snOf sender).length = sender.snLen.toNat := by
  have hsn := hb.sn
  rw [MAX_SN_SIZE] at hsn
  rw [snOf, List.length_drop, BigEndian.length_encode]
  omega

theorem length_securityHeader (hb : sender.Bounded) :
    (securityHeader sender (ivOf sender) (snOf sender) 0).length = sender.headerSize := by
  have hpl := hb.pl
  rw [MAX_PL_SIZE] at hpl
  rw [securityHeader, List.length_append, List.length_append, List.length_append,
    length_ivOf, length_snOf hb, List.length_drop, BigEndian.length_encode,
    SecurityAssociation.headerSize]
  show 2 + _ + _ + _ = _
  omega

def marked (sa : SecurityAssociation) (headerEnd : Nat) (frame : Bytes) : Bytes :=
  write frame headerEnd (securityHeader sa (ivOf sa) (snOf sa) 0)

/-- The code that the service puts at the end of a frame with its security header. -/
def Codes (sa : SecurityAssociation) (crypto : CryptoProvider) (frame : Bytes)
    (dataStart dataEnd : Nat) (code : Bytes) : Prop :=
  let codeOut := List.replicate sa.macLen.toNat 0
  match sa.serviceType with
  | .authentication =>
    crypto.computeMac sa (ivOf sa) (masked sa (frame.take dataEnd)) codeOut = (.ok (), code)
  | .encryption =>
    dataStart ≤ dataEnd ∧ code = [] ∧ ∃ n data tag,
      crypto.encrypt sa (ivOf sa) [] (slice frame dataStart (dataEnd - dataStart)) [] =
        (.ok n, data, tag)
  | .authenticatedEncryption =>
    dataStart ≤ dataEnd ∧ ∃ n data,
      crypto.encrypt sa (ivOf sa) (masked sa (frame.take dataStart))
        (slice frame dataStart (dataEnd - dataStart)) codeOut = (.ok n, data, code)

/-! ## What the two calls do when they succeed -/

theorem apply_ok_iff {n : Nat} (hb : sender.Bounded) :
    (SdlsProcessor crypto headerEnd).apply sender frame = (.ok n, sealed, next) ↔
      n = sealed.length ∧ next = sender.setSequenceNumber (sender.sequenceNumber + 1) ∧
        sender.spi ≠ 0 ∧ sender.spi ≠ 0xffff ∧ sender.trailerSize ≤ frame.length ∧
        headerEnd + sender.headerSize ≤ frame.length ∧
        sealData sender crypto (marked sender headerEnd frame) (ivOf sender)
          (headerEnd + sender.headerSize) (frame.length - sender.trailerSize) =
            (.ok (), sealed) := by
  show SdlsProcessor.apply crypto headerEnd sender frame = _ ↔ _
  rw [SdlsProcessor.apply]
  by_cases htrailer : frame.length < sender.trailerSize
  · rw [if_pos htrailer]
    refine iff_of_false (fun h => by cases h) (fun h => ?_)
    exact Nat.not_le.2 htrailer h.2.2.2.2.1
  · have hfit : frame.length - sender.trailerSize + sender.macLen.toNat = frame.length :=
      Nat.sub_add_cancel (Nat.le_of_not_lt htrailer)
    rw [if_neg htrailer]
    cases happly : applySecurity sender crypto frame headerEnd (headerEnd + sender.headerSize)
        (frame.length - sender.trailerSize) with
    | mk result rest =>
      cases result with
      | error fault =>
        refine iff_of_false (fun h => by cases h) (fun h => ?_)
        obtain ⟨-, -, hspi, hspi', -, hheader, hseal⟩ := h
        have hok := applySecurity_ok_iff.2 ⟨⟨hspi, hspi'⟩, Nat.le_of_eq hfit, hb.iv, hb.sn,
          Nat.le_refl _, hheader, hb.pl, rfl, hseal⟩
        rw [happly] at hok
        cases hok
      | ok u =>
        constructor
        · intro h
          cases h
          obtain ⟨hspi, -, -, -, -, hheader, -, hnext, hseal⟩ := applySecurity_ok_iff.1 happly
          exact ⟨rfl, hnext, hspi.1, hspi.2, Nat.le_of_not_lt htrailer, hheader, hseal⟩
        · intro h
          obtain ⟨hn, hnext, hspi, hspi', -, hheader, hseal⟩ := h
          have hok := applySecurity_ok_iff.2 ⟨⟨hspi, hspi'⟩, Nat.le_of_eq hfit, hb.iv, hb.sn,
            Nat.le_refl _, hheader, hb.pl, rfl, hseal⟩
          rw [happly] at hok
          cases hok
          rw [hn, hnext]

theorem process_ok_iff {n : Nat} :
    (SdlsProcessor crypto headerEnd).process receiver frame = (.ok n, opened, next) ↔
      n = opened.length ∧ receiver.trailerSize ≤ frame.length ∧ ∃ iv received,
        readHeader receiver frame headerEnd (headerEnd + receiver.headerSize)
          (frame.length - receiver.trailerSize) = .ok (iv, received) ∧
        openData receiver crypto frame iv (headerEnd + receiver.headerSize)
          (frame.length - receiver.trailerSize) = (.ok (), opened) ∧
        Counts receiver received next := by
  show SdlsProcessor.process crypto headerEnd receiver frame = _ ↔ _
  rw [SdlsProcessor.process]
  by_cases htrailer : frame.length < receiver.trailerSize
  · rw [if_pos htrailer]
    refine iff_of_false (fun h => by cases h) (fun h => ?_)
    exact Nat.not_le.2 htrailer h.2.1
  · rw [if_neg htrailer, ← processSecurity_ok_iff]
    cases hprocess : processSecurity receiver crypto frame headerEnd
        (headerEnd + receiver.headerSize) (frame.length - receiver.trailerSize) with
    | mk result rest =>
      cases result with
      | error fault =>
        refine iff_of_false (fun h => by cases h) (fun h => ?_)
        cases h.2.2
      | ok u =>
        constructor
        · intro h
          cases h
          exact ⟨rfl, Nat.le_of_not_lt htrailer, rfl⟩
        · intro h
          obtain ⟨hn, -, hok⟩ := h
          cases hok
          rw [hn]

/-! ## The security header of a received frame -/

theorem getD_of_slice {frame frame' : Bytes} {i : Nat} (h : slice frame i 1 = slice frame' i 1) :
    frame.getD i 0 = frame'.getD i 0 := by
  have hget := congrArg (fun part : Bytes => part[0]?) h
  rw [slice_getElem?, slice_getElem?, if_pos Nat.one_pos, if_pos Nat.one_pos] at hget
  rw [List.getD_eq_getElem?_getD, List.getD_eq_getElem?_getD]
  exact congrArg (fun octet => octet.getD 0) hget

theorem readHeader_congr {frame frame' : Bytes} (hlen : frame.length = frame'.length)
    (h : ∀ off n, headerEnd ≤ off → off + n ≤ headerEnd + receiver.headerSize →
      slice frame off n = slice frame' off n) :
    readHeader receiver frame headerEnd (headerEnd + receiver.headerSize) dataEnd =
      readHeader receiver frame' headerEnd (headerEnd + receiver.headerSize) dataEnd := by
  have hsize : receiver.headerSize =
      2 + receiver.ivLen.toNat + receiver.snLen.toNat + receiver.plLen.toNat := rfl
  have hfirst := getD_of_slice (h headerEnd 1 (Nat.le_refl _) (by omega))
  have hsecond := getD_of_slice (h (headerEnd + 1) 1 (by omega) (by omega))
  rw [readHeader, readHeader, hlen, hfirst, hsecond, h (headerEnd + 2) _ (by omega) (by omega),
    h (headerEnd + 2 + receiver.ivLen.toNat) _ (by omega) (by omega)]

theorem iv_of_readHeader {received : UInt64}
    (h : readHeader receiver frame headerEnd dataStart dataEnd = .ok (iv, received)) :
    iv = slice frame (headerEnd + 2) receiver.ivLen.toNat := by
  obtain ⟨-, -, -, -, -, -, hiv, -⟩ := readHeader_ok_iff.1 h
  exact hiv

theorem header_marked (hb : sender.Bounded)
    (hfits : headerEnd + sender.headerSize ≤ frame.length) :
    slice (marked sender headerEnd frame) headerEnd sender.headerSize =
      securityHeader sender (ivOf sender) (snOf sender) 0 := by
  have hlen := length_securityHeader hb
  rw [marked, ← hlen]
  exact slice_write_self (by rw [hlen]; exact hfits)

theorem fields_marked (hb : sender.Bounded)
    (hfits : headerEnd + sender.headerSize ≤ frame.length) :
    slice (marked sender headerEnd frame) headerEnd 2 =
        [highByte sender.spi, lowByte sender.spi] ∧
      slice (marked sender headerEnd frame) (headerEnd + 2) sender.ivLen.toNat = ivOf sender ∧
      slice (marked sender headerEnd frame) (headerEnd + 2 + sender.ivLen.toNat)
        sender.snLen.toNat = snOf sender := by
  have hsize : sender.headerSize =
      2 + (sender.ivLen.toNat + (sender.snLen.toNat + sender.plLen.toNat)) := by
    rw [SecurityAssociation.headerSize]
    omega
  have hwhole := header_marked hb hfits
  have hmarked : (marked sender headerEnd frame).length = frame.length := write_length ..
  rw [hsize, slice_add, slice_add, slice_add, securityHeader, List.append_assoc,
    List.append_assoc] at hwhole
  obtain ⟨hspi, htail⟩ := List.append_inj hwhole (slice_length (by omega))
  obtain ⟨hiv, hrest⟩ := List.append_inj htail (by rw [slice_length (by omega), length_ivOf])
  exact ⟨hspi, hiv,
    (List.append_inj hrest (by rw [slice_length (by omega), length_snOf hb])).1⟩

theorem iv_marked (hb : sender.Bounded) (hfits : headerEnd + sender.headerSize ≤ frame.length) :
    slice (marked sender headerEnd frame) (headerEnd + 2) sender.ivLen.toNat = ivOf sender :=
  (fields_marked hb hfits).2.1

/-! ## The octets that are sealed and opened -/

/-- The code that the receiver of an authenticated frame computes. -/
def Checks (receiver : SecurityAssociation) (crypto : CryptoProvider) (frame iv : Bytes)
    (dataEnd : Nat) (code : Bytes) : Prop :=
  receiver.serviceType = .authentication →
    crypto.computeMac receiver iv (masked receiver (frame.take dataEnd))
      (List.replicate receiver.macLen.toNat 0) = (.ok (), code)

theorem codes_unique {code' : Bytes} (h : Codes sender crypto frame dataStart dataEnd code)
    (h' : Codes sender crypto frame dataStart dataEnd code') : code' = code := by
  rw [Codes] at h h'
  cases hservice : sender.serviceType with
  | authentication =>
    rw [hservice] at h h'
    rw [h] at h'
    cases h'
    rfl
  | encryption =>
    rw [hservice] at h h'
    rw [h.2.1, h'.2.1]
  | authenticatedEncryption =>
    rw [hservice] at h h'
    obtain ⟨-, n, data, h⟩ := h
    obtain ⟨-, n', data', h'⟩ := h'
    rw [h] at h'
    cases h'
    rfl

theorem seals_of_codes (hb : sender.Bounded) (hroom : dataStart ≤ MASKED_AAD_SIZE)
    (h : Codes sender crypto frame dataStart dataEnd code) :
    ∃ sealed, sealData sender crypto frame (ivOf sender) dataStart dataEnd = (.ok (), sealed) := by
  have hmac := hb.mac
  rw [Codes] at h
  rw [sealData]
  cases hservice : sender.serviceType with
  | authentication =>
    rw [hservice] at h
    dsimp only at h ⊢
    rw [if_neg (Nat.not_lt.2 hmac), h]
    exact ⟨_, rfl⟩
  | encryption =>
    rw [hservice] at h
    obtain ⟨hle, -, n, data, tag, h⟩ := h
    dsimp only
    rw [if_neg (Nat.not_lt.2 hle), h]
    exact ⟨_, rfl⟩
  | authenticatedEncryption =>
    rw [hservice] at h
    obtain ⟨hle, n, data, h⟩ := h
    dsimp only
    rw [if_neg (by omega), h]
    exact ⟨_, rfl⟩

/-- The receiver opens `sealed` to the frame with its security header and its code, the data in
clear. -/
structure OpensTo (sender receiver : SecurityAssociation) (crypto : CryptoProvider)
    (frame sealed : Bytes) (dataStart dataEnd : Nat) (code : Bytes) : Prop where
  codes : Codes sender crypto frame dataStart dataEnd code
  length : sealed.length = frame.length
  header : ∀ off n, off + n ≤ dataStart →
    slice sealed off n = slice (write frame dataEnd code) off n
  opens : ∀ iv opened, (sender.serviceType ≠ .authentication → iv = ivOf sender) →
    (openData receiver crypto sealed iv dataStart dataEnd = (.ok (), opened) ↔
      opened = write frame dataEnd code ∧ Checks receiver crypto frame iv dataEnd code)

section Opening

variable {count : UInt64} (hend : dataEnd + sender.macLen.toNat ≤ frame.length)

include hend

theorem authenticated_opens (hb : sender.Bounded) (hservice : sender.serviceType = .authentication)
    (h : sealData sender crypto frame (ivOf sender) dataStart dataEnd = (.ok (), sealed)) :
    ∃ code, OpensTo sender (sender.setSequenceNumber count) crypto frame sealed dataStart dataEnd
      code := by
  have hmac := hb.mac
  have hmacLen : (sender.setSequenceNumber count).macLen = sender.macLen := rfl
  have hkind : (sender.setSequenceNumber count).serviceType = sender.serviceType := rfl
  rw [sealData, hservice] at h
  dsimp only at h
  rw [if_neg (Nat.not_lt.2 hmac)] at h
  have hlen := crypto.computeMac_length sender (ivOf sender) (masked sender (frame.take dataEnd))
    (List.replicate sender.macLen.toNat 0)
  cases hcode : crypto.computeMac sender (ivOf sender) (masked sender (frame.take dataEnd))
      (List.replicate sender.macLen.toNat 0) with
  | mk result code =>
    rw [hcode] at h hlen
    cases result with
    | error e => cases h
    | ok u =>
      have hlen : code.length = sender.macLen.toNat := hlen.trans List.length_replicate
      have hsealed : write frame dataEnd code = sealed := by
        cases h
        rfl
      refine ⟨code, ⟨?_, ?_, fun off n _ => by rw [hsealed], fun iv opened _ => ?_⟩⟩
      · rw [Codes, hservice]
        exact hcode
      · rw [← hsealed]
        exact write_length ..
      · have hread : slice sealed dataEnd sender.macLen.toNat = code := by
          rw [← hsealed, ← hlen]
          exact slice_write_self (by omega)
        have htake : sealed.take dataEnd = frame.take dataEnd := by
          rw [← hsealed]
          exact take_write_of_le (Nat.le_refl _)
        rw [openData, Checks, hkind, hservice, hmacLen]
        dsimp only
        rw [if_neg (Nat.not_lt.2 hmac), htake, hread, hsealed]
        cases crypto.computeMac (sender.setSequenceNumber count) iv
            (masked (sender.setSequenceNumber count) (frame.take dataEnd))
            (List.replicate sender.macLen.toNat 0) with
        | mk result code' =>
          cases result with
          | error e => exact iff_of_false (fun h => by cases h) (fun h => by cases h.2 rfl)
          | ok u =>
            dsimp only
            by_cases hsame : code = code'
            · rw [if_neg (not_not_intro hsame), hsame]
              constructor
              · intro h
                cases h
                exact ⟨rfl, fun _ => rfl⟩
              · intro h
                rw [h.1]
            · rw [if_pos hsame]
              refine iff_of_false (fun h => by cases h) (fun h => hsame ?_)
              cases h.2 rfl
              rfl

theorem encrypted_opens (hcrypto : crypto.Reverses sender)
    (hservice : sender.serviceType = .encryption)
    (h : sealData sender crypto frame (ivOf sender) dataStart dataEnd = (.ok (), sealed)) :
    ∃ code, OpensTo sender (sender.setSequenceNumber count) crypto frame sealed dataStart dataEnd
      code := by
  have hkind : (sender.setSequenceNumber count).serviceType = sender.serviceType := rfl
  have hne : sender.serviceType ≠ .authentication := by
    rw [hservice]
    exact fun h => by cases h
  rw [sealData, hservice] at h
  dsimp only at h
  by_cases hle : dataEnd < dataStart
  · rw [if_pos hle] at h
    cases h
  · rw [if_neg hle] at h
    have hslice : (slice frame dataStart (dataEnd - dataStart)).length = dataEnd - dataStart :=
      slice_length (by omega)
    have hlen := crypto.encrypt_length sender (ivOf sender) []
      (slice frame dataStart (dataEnd - dataStart)) []
    have htag := crypto.encrypt_tag_length sender (ivOf sender) []
      (slice frame dataStart (dataEnd - dataStart)) []
    rw [hslice] at hlen
    cases hdata : crypto.encrypt sender (ivOf sender) []
        (slice frame dataStart (dataEnd - dataStart)) [] with
    | mk result rest =>
      obtain ⟨data, tag⟩ := rest
      rw [hdata] at h hlen htag
      have hdataLen : data.length = dataEnd - dataStart := hlen
      have hnone : tag = [] := List.length_eq_zero_iff.1 htag
      cases result with
      | error e => cases h
      | ok n =>
        have hsealed : write frame dataStart data = sealed := by
          cases h
          rfl
        have htagLen : tagLen sender = 0 := by rw [tagLen, hservice]
        obtain ⟨k, hdecrypt⟩ := hcrypto count _ _ _ n data tag (by rw [htagLen]; exact hdata)
        refine ⟨[], ⟨?_, ?_, fun off k hk => ?_, fun iv opened hiv => ?_⟩⟩
        · rw [Codes, hservice]
          exact ⟨Nat.le_of_not_lt hle, rfl, n, data, tag, hdata⟩
        · rw [← hsealed]
          exact write_length ..
        · rw [write_nil, ← hsealed]
          exact slice_write_of_disjoint (Or.inl hk)
        · have hread : slice sealed dataStart (dataEnd - dataStart) = data := by
            rw [← hsealed, ← hdataLen]
            exact slice_write_self (by omega)
          have hclear : write sealed dataStart (slice frame dataStart (dataEnd - dataStart)) =
              frame := by
            rw [← hsealed, write_write (hdataLen.trans hslice.symm)]
            exact write_slice (by omega)
          rw [hiv hne, openData, Checks, hkind, hservice, write_nil]
          dsimp only
          rw [if_neg hle, hread]
          rw [hnone] at hdecrypt
          rw [hdecrypt]
          dsimp only
          rw [hclear]
          constructor
          · intro h
            cases h
            exact ⟨rfl, fun h => by cases h⟩
          · intro h
            rw [h.1]

theorem authenticated_encrypted_opens (hcrypto : crypto.Reverses sender)
    (hservice : sender.serviceType = .authenticatedEncryption)
    (h : sealData sender crypto frame (ivOf sender) dataStart dataEnd = (.ok (), sealed)) :
    ∃ code, OpensTo sender (sender.setSequenceNumber count) crypto frame sealed dataStart dataEnd
      code := by
  have hmacLen : (sender.setSequenceNumber count).macLen = sender.macLen := rfl
  have hkind : (sender.setSequenceNumber count).serviceType = sender.serviceType := rfl
  have hmask : (sender.setSequenceNumber count).authMask = sender.authMask := rfl
  have hmasked : ∀ part, masked (sender.setSequenceNumber count) part = masked sender part :=
    fun _ => rfl
  have hne : sender.serviceType ≠ .authentication := by
    rw [hservice]
    exact fun h => by cases h
  rw [sealData, hservice] at h
  dsimp only at h
  by_cases hbad : dataEnd < dataStart ∨ MAX_MAC_SIZE < sender.macLen.toNat ∨
      dataStart ≤ sender.authMask.length ∧ MASKED_AAD_SIZE < dataStart
  · rw [if_pos hbad] at h
    cases h
  · rw [if_neg hbad] at h
    have hslice : (slice frame dataStart (dataEnd - dataStart)).length = dataEnd - dataStart :=
      slice_length (by omega)
    have hlen := crypto.encrypt_length sender (ivOf sender) (masked sender (frame.take dataStart))
      (slice frame dataStart (dataEnd - dataStart)) (List.replicate sender.macLen.toNat 0)
    have htag := crypto.encrypt_tag_length sender (ivOf sender)
      (masked sender (frame.take dataStart)) (slice frame dataStart (dataEnd - dataStart))
      (List.replicate sender.macLen.toNat 0)
    rw [hslice] at hlen
    cases hdata : crypto.encrypt sender (ivOf sender) (masked sender (frame.take dataStart))
        (slice frame dataStart (dataEnd - dataStart))
        (List.replicate sender.macLen.toNat 0) with
    | mk result rest =>
      obtain ⟨data, tag⟩ := rest
      rw [hdata] at h hlen htag
      have hdataLen : data.length = dataEnd - dataStart := hlen
      have htagLen : tag.length = sender.macLen.toNat := htag.trans List.length_replicate
      cases result with
      | error e => cases h
      | ok n =>
        have hsealed : write (write frame dataStart data) dataEnd tag = sealed := by
          cases h
          rfl
        have hover : dataStart + data.length ≤ dataEnd := by omega
        have hkeep : tagLen sender = sender.macLen.toNat := by rw [tagLen, hservice]
        obtain ⟨k, hdecrypt⟩ := hcrypto count _ _ _ n data tag (by rw [hkeep]; exact hdata)
        refine ⟨tag, ⟨?_, ?_, fun off k hk => ?_, fun iv opened hiv => ?_⟩⟩
        · rw [Codes, hservice]
          exact ⟨by omega, n, data, hdata⟩
        · rw [← hsealed]
          exact (write_length ..).trans (write_length ..)
        · rw [← hsealed, write_comm hover]
          exact slice_write_of_disjoint (Or.inl hk)
        · have hread : slice sealed dataStart (dataEnd - dataStart) = data := by
            rw [← hsealed, write_comm hover, ← hdataLen]
            exact slice_write_self (by rw [write_length]; omega)
          have hreadTag : slice sealed dataEnd sender.macLen.toNat = tag := by
            rw [← hsealed, ← htagLen]
            exact slice_write_self (by rw [write_length]; omega)
          have htake : sealed.take dataStart = frame.take dataStart := by
            rw [← hsealed, take_write_of_le (by omega), take_write_of_le (Nat.le_refl _)]
          have hclear : write sealed dataStart (slice frame dataStart (dataEnd - dataStart)) =
              write frame dataEnd tag := by
            rw [← hsealed, write_comm hover, write_write (hdataLen.trans hslice.symm),
              ← write_comm (by omega), write_slice (by omega)]
          rw [hiv hne, openData, Checks, hkind, hservice, hmacLen, hmask]
          dsimp only
          rw [if_neg hbad, hread, hreadTag, htake, hmasked, hdecrypt]
          dsimp only
          rw [hclear]
          constructor
          · intro h
            cases h
            exact ⟨rfl, fun h => by cases h⟩
          · intro h
            rw [h.1]

theorem sealed_opens (hb : sender.Bounded) (hcrypto : crypto.Reverses sender)
    (h : sealData sender crypto frame (ivOf sender) dataStart dataEnd = (.ok (), sealed)) :
    ∃ code, OpensTo sender (sender.setSequenceNumber count) crypto frame sealed dataStart dataEnd
      code := by
  cases hservice : sender.serviceType with
  | authentication => exact authenticated_opens hend hb hservice h
  | encryption => exact encrypted_opens hend hcrypto hservice h
  | authenticatedEncryption => exact authenticated_encrypted_opens hend hcrypto hservice h

end Opening

/-! ## Frames that come through -/

/-- Security leaves the packets of the frame as they are, and the receiver accepts it.

The frame is one of the link without security.  Header and code have room, the octets that
they put into the data field are there already, and the header field of the format still
announces the whole frame.  The data field, read as a security header, belongs to the association
and carries a number that the receiver accepts. -/
structure Undisturbed (R : ReaderFormat) (crypto : CryptoProvider) (headerEnd : Nat)
    (sender receiver : SecurityAssociation) (frame : Bytes) (next : SecurityAssociation) :
    Prop where
  spi : sender.spi ≠ 0 ∧ sender.spi ≠ 0xffff
  trailer : sender.trailerSize ≤ frame.length
  header : headerEnd + sender.headerSize ≤ frame.length
  inPlace : ∃ code iv received,
    Codes sender crypto (marked sender headerEnd frame) (headerEnd + sender.headerSize)
      (frame.length - sender.trailerSize) code ∧
    (write (marked sender headerEnd frame) (frame.length - sender.trailerSize) code).drop
      headerEnd = frame.drop headerEnd ∧
    R.layout (write (marked sender headerEnd frame) (frame.length - sender.trailerSize) code) =
      .ok (headerEnd, frame.length) ∧
    readHeader receiver frame headerEnd (headerEnd + sender.headerSize)
      (frame.length - sender.trailerSize) = .ok (iv, received) ∧
    Checks receiver crypto (marked sender headerEnd frame) iv (frame.length - sender.trailerSize)
      code ∧
    Counts receiver received next

/-- The frame is secured and opened again, and its data field is the one that was written. -/
def ComesThrough (R : ReaderFormat) (crypto : CryptoProvider) (headerEnd : Nat)
    (sender receiver : SecurityAssociation) (frame sealed : Bytes)
    (sender' receiver' : SecurityAssociation) : Prop :=
  ∃ n m opened, (SdlsProcessor crypto headerEnd).apply sender frame = (.ok n, sealed, sender') ∧
    (SdlsProcessor crypto headerEnd).process receiver sealed = (.ok m, opened, receiver') ∧
    opened.length = frame.length ∧ opened.drop headerEnd = frame.drop headerEnd ∧
    R.layout opened = .ok (headerEnd, frame.length)

theorem slice_eq_of_drop {frame frame' : Bytes} {k off n : Nat} (h : frame.drop k = frame'.drop k)
    (hoff : k ≤ off) : slice frame off n = slice frame' off n := by
  have hsplit : k + (off - k) = off := Nat.add_sub_cancel' hoff
  rw [← hsplit, ← slice_drop, ← slice_drop, h]

theorem le_of_codes (h : Codes sender crypto frame dataStart dataEnd code)
    (hne : sender.serviceType ≠ .authentication) : dataStart ≤ dataEnd := by
  rw [Codes] at h
  cases hservice : sender.serviceType with
  | authentication => exact absurd hservice hne
  | encryption =>
    rw [hservice] at h
    exact h.1
  | authenticatedEncryption =>
    rw [hservice] at h
    exact h.1

theorem iv_stamped (hb : sender.Bounded) (hheader : headerEnd + sender.headerSize ≤ frame.length)
    (h : Codes sender crypto (marked sender headerEnd frame) (headerEnd + sender.headerSize)
      dataEnd code) (hne : sender.serviceType ≠ .authentication) :
    slice (write (marked sender headerEnd frame) dataEnd code) (headerEnd + 2)
      sender.ivLen.toNat = ivOf sender := by
  have hle := le_of_codes h hne
  have hsize : sender.headerSize =
      2 + sender.ivLen.toNat + sender.snLen.toNat + sender.plLen.toNat := rfl
  rw [slice_write_of_disjoint (Or.inl (by omega))]
  exact iv_marked hb hheader

theorem comesThrough_iff {R : ReaderFormat} (hcrypto : crypto.Reverses sender)
    (hb : sender.Bounded)
    (hroom : headerEnd + sender.headerSize ≤ MASKED_AAD_SIZE)
    (hpaired : Paired sender receiver) :
    (∃ sealed sender', ComesThrough R crypto headerEnd sender receiver frame sealed sender' next) ↔
      Undisturbed R crypto headerEnd sender receiver frame next := by
  obtain ⟨count, rfl⟩ := hpaired
  have hmarked : (marked sender headerEnd frame).length = frame.length := write_length ..
  have hsize : sender.headerSize =
      2 + sender.ivLen.toNat + sender.snLen.toNat + sender.plLen.toNat := rfl
  -- The header is read from the sealed frame as it is from the plain one.
  have hheaders : ∀ {sealed code}, OpensTo sender (sender.setSequenceNumber count) crypto
      (marked sender headerEnd frame) sealed (headerEnd + sender.headerSize)
      (frame.length - sender.trailerSize) code →
      (write (marked sender headerEnd frame) (frame.length - sender.trailerSize) code).drop
        headerEnd = frame.drop headerEnd →
      readHeader (sender.setSequenceNumber count) sealed headerEnd
        (headerEnd + sender.headerSize) (frame.length - sender.trailerSize) =
      readHeader (sender.setSequenceNumber count) frame headerEnd
        (headerEnd + sender.headerSize) (frame.length - sender.trailerSize) := by
    intro sealed code hto hdrop
    refine readHeader_congr (hto.length.trans hmarked) fun off n hoff hle => ?_
    rw [hto.header off n hle]
    exact slice_eq_of_drop hdrop hoff
  constructor
  · intro h
    obtain ⟨sealed, sender', n, m, opened, happly, hprocess, hlength, hdrop, hlayout⟩ := h
    obtain ⟨-, -, hspi, hspi', htrailer, hheader, hseal⟩ := (apply_ok_iff hb).1 happly
    have hend : frame.length - sender.trailerSize + sender.macLen.toNat =
        (marked sender headerEnd frame).length := by
      rw [hmarked]
      exact Nat.sub_add_cancel htrailer
    obtain ⟨code, hto⟩ : ∃ code, OpensTo sender (sender.setSequenceNumber count) crypto
        (marked sender headerEnd frame) sealed (headerEnd + sender.headerSize)
        (frame.length - sender.trailerSize) code :=
      sealed_opens (Nat.le_of_eq hend) hb hcrypto hseal
    obtain ⟨-, -, iv, received, hread, hopen, hcounts⟩ := process_ok_iff.1 hprocess
    rw [hto.length, hmarked] at hread hopen
    have hiv : sender.serviceType ≠ .authentication → iv = ivOf sender := by
      intro hne
      rw [iv_of_readHeader hread, ← iv_stamped hb hheader hto.codes hne]
      exact hto.header _ _ (by rw [hsize]; show _ + sender.ivLen.toNat ≤ _; omega)
    obtain ⟨hopened, hchecks⟩ := (hto.opens iv opened hiv).1 hopen
    rw [hopened] at hdrop hlayout
    exact ⟨⟨hspi, hspi'⟩, htrailer, hheader, code, iv, received, hto.codes, hdrop, hlayout,
      (hheaders hto hdrop).symm.trans hread, hchecks, hcounts⟩
  · intro h
    obtain ⟨⟨hspi, hspi'⟩, htrailer, hheader, code, iv, received, hcodes, hdrop, hlayout, hread,
      hchecks, hcounts⟩ := h
    have hend : frame.length - sender.trailerSize + sender.macLen.toNat =
        (marked sender headerEnd frame).length := by
      rw [hmarked]
      exact Nat.sub_add_cancel htrailer
    obtain ⟨sealed, hseal⟩ := seals_of_codes hb hroom hcodes
    obtain ⟨code', hto⟩ : ∃ code', OpensTo sender (sender.setSequenceNumber count) crypto
        (marked sender headerEnd frame) sealed (headerEnd + sender.headerSize)
        (frame.length - sender.trailerSize) code' :=
      sealed_opens (Nat.le_of_eq hend) hb hcrypto hseal
    rw [codes_unique hcodes hto.codes] at hto
    have hiv : sender.serviceType ≠ .authentication → iv = ivOf sender := by
      intro hne
      rw [iv_of_readHeader hread, ← iv_stamped hb hheader hcodes hne]
      exact (slice_eq_of_drop hdrop (by omega)).symm
    have hopen := (hto.opens iv _ hiv).2 ⟨rfl, hchecks⟩
    have hlength := hto.length.trans hmarked
    refine ⟨sealed, _, _, _, _, (apply_ok_iff hb).2
      ⟨rfl, rfl, hspi, hspi', htrailer, hheader, hseal⟩,
      process_ok_iff.2 ⟨rfl, by rw [hlength]; exact htrailer, iv, received, ?_, ?_, hcounts⟩,
      (write_length ..).trans hmarked, hdrop, hlayout⟩
    · rw [hlength]
      exact (hheaders hto hdrop).trans hread
    · rw [hlength]
      exact hopen

theorem counts_paired {received : UInt64} (hpaired : Paired sender receiver)
    (h : Counts receiver received next) : Paired sender next := by
  obtain ⟨count, rfl⟩ := hpaired
  by_cases hplain : (sender.setSequenceNumber count).serviceType = .encryption
  · exact ⟨count, (counts_of_encryption hplain).1 h⟩
  · have hnumber := (counts_of_ne hplain).1 h
    rw [acceptNumber] at hnumber
    split at hnumber
    · rw [checkSequenceNumber] at hnumber
      split at hnumber
      · cases hnumber
      · rename_i sa hcheck
        cases hnumber
        split at hcheck
        · cases hcheck
        · split at hcheck
          · cases hcheck
          · cases hcheck
            exact ⟨received + 1, rfl⟩
    · cases hnumber
      exact ⟨count, rfl⟩

theorem Undisturbed.paired {R : ReaderFormat} (hpaired : Paired sender receiver)
    (h : Undisturbed R crypto headerEnd sender receiver frame next) :
    Paired (sender.setSequenceNumber (sender.sequenceNumber + 1)) next := by
  obtain ⟨-, -, -, code, iv, received, -, -, -, -, -, hcounts⟩ := h
  obtain ⟨count, rfl⟩ := counts_paired hpaired hcounts
  exact ⟨count, rfl⟩

theorem sealData_length (sa : SecurityAssociation) (crypto : CryptoProvider) (frame iv : Bytes)
    (dataStart dataEnd : Nat) :
    (sealData sa crypto frame iv dataStart dataEnd).2.length = frame.length := by
  rw [sealData]
  cases sa.serviceType with
  | authentication =>
    dsimp only
    split
    · rfl
    · split
      · rfl
      · exact write_length ..
  | encryption =>
    dsimp only
    split
    · rfl
    · split <;> exact write_length ..
  | authenticatedEncryption =>
    dsimp only
    split
    · rfl
    · split
      · exact write_length ..
      · exact (write_length ..).trans (write_length ..)

theorem apply_length {n : Nat}
    (h : (SdlsProcessor crypto headerEnd).apply sender frame = (.ok n, sealed, next)) :
    n = frame.length ∧ sealed.length = frame.length := by
  have h : SdlsProcessor.apply crypto headerEnd sender frame = (.ok n, sealed, next) := h
  rw [SdlsProcessor.apply] at h
  split at h
  · cases h
  · split at h
    · cases h
    · rename_i heq
      obtain ⟨-, -, -, -, -, -, -, -, hseal⟩ := applySecurity_ok_iff.1 heq
      have hlen := sealData_length sender crypto (marked sender headerEnd frame) (ivOf sender)
        (headerEnd + sender.headerSize) (frame.length - sender.trailerSize)
      rw [marked, hseal, write_length] at hlen
      cases h
      exact ⟨hlen, hlen⟩

end Sdls
end Datalink
end Leodos
