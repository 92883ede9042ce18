/-
The initialization vectors of a sender, `datalink/security/sdls`.

A vector is the count of the association, cut to its low octets or filled up in front.  It
is new for as long as the count has not gone once around the octets that the vector keeps.
Nothing watches for that: the call after it seals with the first vector again.
-/
import Mathlib.Data.List.Nodup
import Mathlib.Data.Nat.ModEq
import Leodos.Datalink.Disturbance
import Leodos.Transition.System

namespace Leodos
namespace Datalink
namespace Sdls

open Bits Memory Spp

/-- How many vectors the octets of the count in the vector can tell apart. -/
def vectorSpace (sa : SecurityAssociation) : Nat := 256 ^ min sa.ivLen.toNat 8

theorem ivOf_eq (sa : SecurityAssociation) :
    ivOf sa = List.replicate (sa.ivLen.toNat - 8) 0 ++
      BigEndian.encode (min sa.ivLen.toNat 8) sa.sequenceNumber.toNat := by
  have hcut : 8 - sa.ivLen.toNat = 8 - min sa.ivLen.toNat 8 := by omega
  rw [ivOf, hcut, BigEndian.drop_encode (Nat.min_le_right _ _)]

theorem ivOf_setSequenceNumber {sa : SecurityAssociation} {m n : UInt64} :
    ivOf (sa.setSequenceNumber m) = ivOf (sa.setSequenceNumber n) ↔
      m.toNat % vectorSpace sa = n.toNat % vectorSpace sa := by
  rw [ivOf_eq, ivOf_eq]
  show List.replicate (sa.ivLen.toNat - 8) 0 ++ BigEndian.encode (min sa.ivLen.toNat 8) m.toNat =
    List.replicate (sa.ivLen.toNat - 8) 0 ++ BigEndian.encode (min sa.ivLen.toNat 8) n.toNat ↔ _
  rw [List.append_cancel_left_eq, BigEndian.encode_inj]
  rfl

def vectorAfter (sa : SecurityAssociation) (sent : Nat) : Bytes :=
  ivOf (sa.setSequenceNumber (sa.sequenceNumber + UInt64.ofNat sent))

theorem vectorSpace_dvd (sa : SecurityAssociation) : vectorSpace sa ∣ 18446744073709551616 :=
  Nat.pow_dvd_pow 256 (Nat.min_le_right _ 8)

theorem vectorAfter_inj {sa : SecurityAssociation} {i j : Nat} :
    vectorAfter sa i = vectorAfter sa j ↔ i % vectorSpace sa = j % vectorSpace sa := by
  have hcount : ∀ k, (sa.sequenceNumber + UInt64.ofNat k).toNat % vectorSpace sa =
      (sa.sequenceNumber.toNat + k) % vectorSpace sa := by
    intro k
    rw [UInt64.toNat_add, UInt64.toNat_ofNat', Nat.add_mod_mod]
    exact Nat.mod_mod_of_dvd _ (vectorSpace_dvd sa)
  rw [vectorAfter, vectorAfter, ivOf_setSequenceNumber, hcount, hcount]
  exact ⟨Nat.ModEq.add_left_cancel' _, Nat.ModEq.add_left _⟩

/-! ## Runs of calls -/

structure SecurityCall where
  frame : Bytes
  headerEnd : Nat
  dataStart : Nat
  dataEnd : Nat
  deriving DecidableEq, Repr

/-- An association and the vectors of the calls that succeeded. -/
structure Sender where
  sa : SecurityAssociation
  used : List Bytes

/-- The calls on one association, in any order and on any frames. -/
inductive Sender.Step (crypto : CryptoProvider) : Sender → SecurityCall → Sender → Prop where
  | sent {s : Sender} {c : SecurityCall} {sealed : Bytes} {next : SecurityAssociation} :
      applySecurity s.sa crypto c.frame c.headerEnd c.dataStart c.dataEnd = (.ok (), sealed, next) →
      Step crypto s c ⟨next, s.used ++ [ivOf s.sa]⟩
  | failed {s : Sender} {c : SecurityCall} {fault : Fault Error} {left : Bytes}
      {next : SecurityAssociation} :
      applySecurity s.sa crypto c.frame c.headerEnd c.dataStart c.dataEnd =
        (.error fault, left, next) →
      Step crypto s c ⟨next, s.used⟩

def senderSystem (crypto : CryptoProvider) (start : SecurityAssociation) :
    Transition.System Sender SecurityCall where
  init s := s = ⟨start, []⟩
  step := Sender.Step crypto

theorem applySecurity_error {sa next : SecurityAssociation} {crypto : CryptoProvider}
    {frame left : Bytes} {headerEnd dataStart dataEnd : Nat} {fault : Fault Error}
    (h : applySecurity sa crypto frame headerEnd dataStart dataEnd =
      (.error fault, left, next)) : next = sa := by
  rw [applySecurity] at h
  dsimp only at h
  repeat' split at h
  all_goals
    cases h
  all_goals rfl

/-- What a run has used are the first vectors, one for every frame counted. -/
structure Sender.Counted (start : SecurityAssociation) (s : Sender) : Prop where
  sa : s.sa = start.setSequenceNumber (start.sequenceNumber + UInt64.ofNat s.used.length)
  used : s.used = (List.range s.used.length).map (vectorAfter start)

theorem Sender.Counted.vector {start : SecurityAssociation} {s : Sender} (h : s.Counted start) :
    ivOf s.sa = vectorAfter start s.used.length := by
  rw [h.sa]
  rfl

theorem Sender.Counted.sent {start : SecurityAssociation} {s : Sender} (h : s.Counted start) :
    Counted start ⟨s.sa.setSequenceNumber (s.sa.sequenceNumber + 1), s.used ++ [ivOf s.sa]⟩ where
  sa := by
    show s.sa.setSequenceNumber (s.sa.sequenceNumber + 1) = start.setSequenceNumber
      (start.sequenceNumber + UInt64.ofNat (s.used ++ [ivOf s.sa]).length)
    rw [List.length_append, List.length_singleton, UInt64.ofNat_add, ← UInt64.add_assoc, h.sa]
    rfl
  used := by
    show s.used ++ [ivOf s.sa] =
      (List.range (s.used ++ [ivOf s.sa]).length).map (vectorAfter start)
    rw [List.length_append, List.length_singleton, List.range_succ, List.map_append,
      List.map_singleton, ← h.used, h.vector]

theorem counted {crypto : CryptoProvider} {start : SecurityAssociation} {s : Sender}
    (h : (senderSystem crypto start).Reachable s) : s.Counted start := by
  refine h.invariant (Sender.Counted start) ?_ ?_
  · intro s hs
    obtain rfl : s = ⟨start, []⟩ := hs
    refine ⟨?_, rfl⟩
    show start = start.setSequenceNumber (start.sequenceNumber + 0)
    rw [UInt64.add_zero]
    rfl
  · intro s c s' hcounted _ hstep
    cases hstep with
    | sent hok =>
      obtain ⟨-, -, -, -, -, -, -, rfl, -⟩ := applySecurity_ok_iff.1 hok
      exact hcounted.sent
    | failed herror =>
      rw [applySecurity_error herror]
      exact hcounted

/-- What goes around after `n` steps tells no more than `n` steps apart. -/
theorem nodup_map_range_iff {β : Type} {f : Nat → β} {n m : Nat} (hn : 0 < n)
    (hf : ∀ i j, f i = f j ↔ i % n = j % n) : ((List.range m).map f).Nodup ↔ m ≤ n := by
  rw [List.nodup_map_iff_inj_on List.nodup_range]
  constructor
  · intro hinj
    by_contra hlong
    have hzero : 0 = n := hinj 0 (List.mem_range.2 (by omega)) n (List.mem_range.2 (by omega))
      ((hf 0 n).2 (by rw [Nat.zero_mod, Nat.mod_self]))
    omega
  · intro hshort i hi j hj h
    have hmod := (hf i j).1 h
    rw [Nat.mod_eq_of_lt (Nat.lt_of_lt_of_le (List.mem_range.1 hi) hshort),
      Nat.mod_eq_of_lt (Nat.lt_of_lt_of_le (List.mem_range.1 hj) hshort)] at hmod
    exact hmod

theorem vectorSpace_pos (sa : SecurityAssociation) : 0 < vectorSpace sa :=
  Nat.pow_pos (by decide)

/-- The vectors of a run differ for as long as there are no more of them than the octets of
the count tell apart.  Every call that succeeds after that repeats one. -/
theorem vectors_fresh (crypto : CryptoProvider) (start : SecurityAssociation) :
    (∀ s, (senderSystem crypto start).Reachable s →
      (s.used.Nodup ↔ s.used.length ≤ vectorSpace start)) ∧
    ∀ s, (senderSystem crypto start).Reachable s → vectorSpace start ≤ s.used.length →
      ∀ (c : SecurityCall) sealed next,
        applySecurity s.sa crypto c.frame c.headerEnd c.dataStart c.dataEnd =
          (.ok (), sealed, next) → ivOf s.sa ∈ s.used := by
  constructor
  · intro s hs
    have hused := (counted hs).used
    rw [hused, List.length_map, List.length_range]
    exact nodup_map_range_iff (vectorSpace_pos start) fun i j => vectorAfter_inj
  · intro s hs hlong c sealed next _
    have hcounted := counted hs
    have hpos := vectorSpace_pos start
    have hmod : vectorAfter start (s.used.length % vectorSpace start) = ivOf s.sa := by
      rw [hcounted.vector, vectorAfter_inj, Nat.mod_mod]
    rw [hcounted.used, ← hmod]
    exact List.mem_map_of_mem (List.mem_range.2 (Nat.lt_of_lt_of_le (Nat.mod_lt _ hpos) hlong))

theorem reachable_of_succeeds {crypto : CryptoProvider} {start : SecurityAssociation}
    (c : SecurityCall) (hok : ∀ count, ∃ sealed next, applySecurity (start.setSequenceNumber count)
      crypto c.frame c.headerEnd c.dataStart c.dataEnd = (.ok (), sealed, next)) (n : Nat) :
    ∃ s, (senderSystem crypto start).Reachable s ∧ s.used.length = n := by
  induction n with
  | zero => exact ⟨_, .init rfl, rfl⟩
  | succ n ih =>
    obtain ⟨s, hs, hlength⟩ := ih
    obtain ⟨sealed, next, hsealed⟩ := hok (start.sequenceNumber + UInt64.ofNat s.used.length)
    rw [← (counted hs).sa] at hsealed
    refine ⟨_, .step c hs trivial (.sent hsealed), ?_⟩
    rw [List.length_append, List.length_singleton, hlength]

def shortVectors : SecurityAssociation :=
  ⟨0x0001#16, .authenticatedEncryption, 1, 0, 0, 0, 0, 0, [], Nat.zero_le _⟩

theorem short_vectors_reached (n : Nat) :
    ∃ s, (senderSystem ClearModeCrypto shortVectors).Reachable s ∧ s.used.length = n := by
  have hok : ∀ count, ∃ sealed next, applySecurity (shortVectors.setSequenceNumber count)
      ClearModeCrypto [0, 0, 0, 7] 0 3 4 = (.ok (), sealed, next) :=
    fun _ => ⟨_, _, applySecurity_ok_iff.2 ⟨(by decide : 1#16 ≠ 0 ∧ 1#16 ≠ 0xffff),
      (by decide : 4 + 0 ≤ 4), (by decide : 1 ≤ 32), (by decide : 0 ≤ 8), (by decide : 0 + 3 ≤ 3),
      (by decide : 3 ≤ 4), (by decide : 0 ≤ 2), rfl, rfl⟩⟩
  exact reachable_of_succeeds ⟨[0, 0, 0, 7], 0, 3, 4⟩ hok n

theorem short_vectors_fresh : ∃ s, (senderSystem ClearModeCrypto shortVectors).Reachable s ∧
    s.used.length = 256 ∧ s.used.Nodup := by
  obtain ⟨s, hs, hlength⟩ := short_vectors_reached 256
  refine ⟨s, hs, hlength, ((vectors_fresh ClearModeCrypto shortVectors).1 s hs).2 ?_⟩
  rw [hlength]
  decide

theorem short_vectors_repeat : ∃ s, (senderSystem ClearModeCrypto shortVectors).Reachable s ∧
    s.used.length = 257 ∧ ¬s.used.Nodup := by
  obtain ⟨s, hs, hlength⟩ := short_vectors_reached 257
  refine ⟨s, hs, hlength, ?_⟩
  rw [(counted hs).used, hlength,
    nodup_map_range_iff (vectorSpace_pos shortVectors) fun i j => vectorAfter_inj]
  decide

end Sdls
end Datalink
end Leodos

/-
The sequence numbers of a receiver, `datalink/security/sdls`.

The receiver takes numbers from the one it expects up to a window, and then expects the next
one.  So what it accepts goes up, until it accepts the last number of 64 bits and expects 0.
The sender puts the low octets of its number into a frame, which the receiver compares with
all 64 bits of its own: a frame is found again while the number fits into these octets.
-/

namespace Leodos
namespace Datalink
namespace Sdls

open Bits Memory Spp

variable {sender receiver next : SecurityAssociation} {crypto : CryptoProvider}
  {headerEnd dataStart dataEnd : Nat} {frame sealed opened : Bytes}

/-! ## Numbers that are accepted -/

def numberOf (sa : SecurityAssociation) (frame : Bytes) (headerEnd : Nat) : UInt64 :=
  UInt64.ofNat (BigEndian.decode (slice frame (headerEnd + 2 + sa.ivLen.toNat) sa.snLen.toNat))

theorem checkSequenceNumber_ok_iff {received : UInt64} :
    checkSequenceNumber receiver received = .ok next ↔
      receiver.sequenceNumber ≤ received ∧
        (receiver.sequenceWindow = 0 ∨
          received ≤ receiver.sequenceNumber + receiver.sequenceWindow) ∧
        next = receiver.setSequenceNumber (received + 1) := by
  rw [checkSequenceNumber]
  by_cases hold : received < receiver.sequenceNumber
  · rw [if_pos hold]
    exact iff_of_false (fun h => by cases h) (fun h => UInt64.not_le.2 hold h.1)
  · rw [if_neg hold]
    by_cases hfar : 0 < receiver.sequenceWindow ∧
        receiver.sequenceNumber + receiver.sequenceWindow < received
    · rw [if_pos hfar]
      refine iff_of_false (fun h => by cases h) (fun h => ?_)
      rcases h.2.1 with hzero | hnear
      · rw [hzero] at hfar
        exact absurd hfar.1 (by decide)
      · exact UInt64.not_le.2 hfar.2 hnear
    · rw [if_neg hfar]
      have hwindow : receiver.sequenceWindow = 0 ∨
          received ≤ receiver.sequenceNumber + receiver.sequenceWindow := by
        by_cases hzero : receiver.sequenceWindow = 0
        · exact Or.inl hzero
        · refine Or.inr (UInt64.not_lt.1 fun hlt => hfar ⟨?_, hlt⟩)
          exact UInt64.pos_iff_ne_zero.2 hzero
      constructor
      · intro h
        cases h
        exact ⟨UInt64.not_lt.1 hold, hwindow, rfl⟩
      · intro h
        rw [h.2.2]

theorem accepted_number {start : SecurityAssociation} {count : UInt64}
    (hservice : start.serviceType ≠ .encryption) (hsn : 0 < start.snLen.toNat)
    (h : processSecurity (start.setSequenceNumber count) crypto frame headerEnd dataStart dataEnd =
      (.ok (), opened, next)) :
    count ≤ numberOf start frame headerEnd ∧
      next = start.setSequenceNumber (numberOf start frame headerEnd + 1) := by
  obtain ⟨iv, received, hread, -, hcounts⟩ := processSecurity_ok_iff.1 h
  obtain ⟨-, -, -, -, -, -, -, hreceived⟩ := readHeader_ok_iff.1 hread
  replace hreceived : received = numberOf start frame headerEnd := hreceived
  have hkind : (start.setSequenceNumber count).serviceType ≠ .encryption := hservice
  have hnumber := (counts_of_ne hkind).1 hcounts
  have hcounted : 0 < (start.setSequenceNumber count).snLen.toNat := hsn
  rw [acceptNumber, if_pos hcounted, hreceived] at hnumber
  cases hcheck : checkSequenceNumber (start.setSequenceNumber count)
      (numberOf start frame headerEnd) with
  | error e =>
    rw [hcheck] at hnumber
    cases hnumber
  | ok sa =>
    obtain ⟨hle, -, hsa⟩ := checkSequenceNumber_ok_iff.1 hcheck
    rw [hcheck] at hnumber
    cases hnumber
    exact ⟨hle, hsa⟩

/-! ## Runs of a receiver -/

structure Receiver where
  sa : SecurityAssociation
  accepted : List SecurityCall

/-- The calls on one association: replayed, reordered, forged or genuine frames. -/
inductive Receiver.Step (crypto : CryptoProvider) : Receiver → SecurityCall → Receiver → Prop where
  | accepted {s : Receiver} {c : SecurityCall} {opened : Bytes} {next : SecurityAssociation} :
      processSecurity s.sa crypto c.frame c.headerEnd c.dataStart c.dataEnd =
        (.ok (), opened, next) →
      Step crypto s c ⟨next, s.accepted ++ [c]⟩
  | refused {s : Receiver} {c : SecurityCall} {fault : Fault Error} {left : Bytes}
      {next : SecurityAssociation} :
      processSecurity s.sa crypto c.frame c.headerEnd c.dataStart c.dataEnd =
        (.error fault, left, next) →
      Step crypto s c ⟨next, s.accepted⟩

def receiverSystem (crypto : CryptoProvider) (start : SecurityAssociation) :
    Transition.System Receiver SecurityCall where
  init s := s = ⟨start, []⟩
  step := Receiver.Step crypto

def SecurityCall.number (start : SecurityAssociation) (c : SecurityCall) : UInt64 :=
  numberOf start c.frame c.headerEnd

/-- A frame with the last number of 64 bits is not accepted. -/
def NotLast (crypto : CryptoProvider) (start : SecurityAssociation) (s : Receiver)
    (c : SecurityCall) : Prop :=
  ∀ opened next, processSecurity s.sa crypto c.frame c.headerEnd c.dataStart c.dataEnd =
    (.ok (), opened, next) → c.number start ≠ 0xFFFFFFFFFFFFFFFF

/-- The accepted numbers go up, and the receiver expects a higher one. -/
structure Receiver.Rising (start : SecurityAssociation) (s : Receiver) : Prop where
  paired : Paired start s.sa
  below : ∀ c ∈ s.accepted, c.number start < s.sa.sequenceNumber
  rising : s.accepted.Pairwise fun c d => c.number start < d.number start

theorem lt_succ_of_ne_last {n : UInt64} (h : n ≠ 0xFFFFFFFFFFFFFFFF) : n < n + 1 := by
  rw [UInt64.lt_iff_toNat_lt, UInt64.toNat_add]
  have hmax : n.toNat ≠ 18446744073709551615 := fun hn => h (UInt64.toNat_inj.1 hn)
  have hlt := n.toNat_lt
  show n.toNat < (n.toNat + 1) % 18446744073709551616
  omega

theorem rising {crypto : CryptoProvider} {start : SecurityAssociation}
    (hservice : start.serviceType ≠ .encryption) (hsn : 0 < start.snLen.toNat) {s : Receiver}
    (h : (receiverSystem crypto start).Reaches (NotLast crypto start) s) : s.Rising start := by
  refine h.invariant (Receiver.Rising start) ?_ ?_
  · intro s hs
    obtain rfl : s = ⟨start, []⟩ := hs
    exact ⟨⟨start.sequenceNumber, rfl⟩, fun c hc => (List.not_mem_nil hc).elim, .nil⟩
  · intro s c s' hrising hlast hstep
    obtain ⟨⟨count, hpaired⟩, hbelow, hpairwise⟩ := hrising
    cases hstep with
    | refused herror =>
      rw [processSecurity_error herror]
      exact ⟨⟨count, hpaired⟩, hbelow, hpairwise⟩
    | accepted hok =>
      have hup : c.number start < c.number start + 1 := lt_succ_of_ne_last (hlast _ _ hok)
      rw [hpaired] at hok
      obtain ⟨hle, hnext⟩ := accepted_number hservice hsn hok
      replace hle : s.sa.sequenceNumber ≤ c.number start := by
        rw [hpaired]
        exact hle
      rw [hnext]
      refine ⟨⟨_, rfl⟩, ?_, ?_⟩
      · intro d hd
        show d.number start < c.number start + 1
        rcases List.mem_append.1 hd with hold | hnew
        · exact UInt64.lt_trans (UInt64.lt_of_lt_of_le (hbelow d hold) hle) hup
        · rw [List.mem_singleton.1 hnew]
          exact hup
      · rw [List.pairwise_append]
        refine ⟨hpairwise, List.pairwise_singleton _ _, ?_⟩
        intro d hd e he
        rw [List.mem_singleton.1 he]
        exact UInt64.lt_of_lt_of_le (hbelow d hd) hle

/-! ## Genuine frames -/

/-- The provider opens what it has sealed under the association, whatever its two ends have
counted. -/
structure CryptoProvider.OpensOwn (crypto : CryptoProvider) (sa : SecurityAssociation) : Prop where
  reverses : crypto.Inverse sa
  steady : ∀ count iv payload macOut,
    crypto.computeMac (sa.setSequenceNumber count) iv payload macOut =
      crypto.computeMac sa iv payload macOut

theorem sealData_mac {iv : Bytes} (hservice : sender.serviceType ≠ .encryption)
    (h : sealData sender crypto frame iv dataStart dataEnd = (.ok (), sealed)) :
    sender.macLen.toNat ≤ MAX_MAC_SIZE := by
  rw [sealData] at h
  cases hkind : sender.serviceType with
  | encryption => exact absurd hkind hservice
  | authentication =>
    rw [hkind] at h
    dsimp only at h
    by_cases hmac : MAX_MAC_SIZE < sender.macLen.toNat
    · rw [if_pos hmac] at h
      cases h
    · exact Nat.le_of_not_lt hmac
  | authenticatedEncryption =>
    rw [hkind] at h
    dsimp only at h
    by_cases hmac : MAX_MAC_SIZE < sender.macLen.toNat
    · rw [if_pos (Or.inr (Or.inl hmac))] at h
      cases h
    · exact Nat.le_of_not_lt hmac

theorem readHeader_sealed {code : Bytes} (hb : sender.Bounded) (count : UInt64)
    (hto : OpensTo sender receiver crypto (marked sender headerEnd frame) sealed dataStart dataEnd
      code) (hheader : headerEnd + sender.headerSize ≤ dataStart)
    (hstart : dataStart ≤ frame.length) (hle : dataStart ≤ dataEnd)
    (hend : dataEnd + sender.macLen.toNat ≤ frame.length) :
    readHeader (sender.setSequenceNumber count) sealed headerEnd dataStart dataEnd =
      .ok (ivOf sender,
        UInt64.ofNat (sender.sequenceNumber.toNat % 256 ^ sender.snLen.toNat)) := by
  have hsize : sender.headerSize =
      2 + sender.ivLen.toNat + sender.snLen.toNat + sender.plLen.toNat := rfl
  have hlen : sealed.length = frame.length := hto.length.trans (write_length ..)
  have hslice : ∀ off n, off + n ≤ dataStart →
      slice sealed off n = slice (marked sender headerEnd frame) off n := by
    intro off n hoff
    rw [hto.header off n hoff, slice_write_of_disjoint (Or.inl (by omega))]
  obtain ⟨hspi, hiv, hsn⟩ :=
    fields_marked hb (by omega : headerEnd + sender.headerSize ≤ frame.length)
  rw [← hslice _ _ (by omega)] at hspi hiv hsn
  have hget : ∀ i, i < 2 → sealed.getD (headerEnd + i) 0 =
      [highByte sender.spi, lowByte sender.spi].getD i 0 := by
    intro i hi
    rw [← hspi, List.getD_eq_getElem?_getD, List.getD_eq_getElem?_getD, slice_getElem?, if_pos hi]
  refine readHeader_ok_iff.2 ⟨?_, ?_, hheader, ?_, hb.sn, hb.iv, hiv.symm, ?_⟩
  · rw [← Nat.add_zero headerEnd, hget 0 (by decide), Nat.add_zero, hget 1 (by decide)]
    exact ofBytes_bytes sender.spi
  · rw [hlen]
    exact hend
  · rw [hlen]
    exact hstart
  · show _ = UInt64.ofNat (BigEndian.decode (slice sealed (headerEnd + 2 + sender.ivLen.toNat)
      sender.snLen.toNat))
    have hfield : sender.snLen.toNat ≤ 8 := hb.sn
    rw [hsn, snOf, BigEndian.drop_encode hfield, BigEndian.decode_encode]

theorem checks_of_codes {start : SecurityAssociation} {n : UInt64} {code : Bytes}
    (hcrypto : crypto.OpensOwn start) (count : UInt64)
    (h : Codes (start.setSequenceNumber n) crypto frame dataStart dataEnd code) :
    Checks (start.setSequenceNumber count) crypto frame (ivOf (start.setSequenceNumber n)) dataEnd
      code := by
  intro hservice
  have hkind : (start.setSequenceNumber n).serviceType = .authentication := hservice
  rw [Codes, hkind] at h
  dsimp only at h
  rw [hcrypto.steady] at h ⊢
  exact h

theorem genuine_opens {start : SecurityAssociation} {n : UInt64} (count : UInt64)
    (hcrypto : crypto.OpensOwn start) (hservice : start.serviceType ≠ .encryption)
    (hle : dataStart ≤ dataEnd)
    (h : applySecurity (start.setSequenceNumber n) crypto frame headerEnd dataStart dataEnd =
      (.ok (), sealed, next)) :
    ∃ iv opened, readHeader (start.setSequenceNumber count) sealed headerEnd dataStart dataEnd =
        .ok (iv, UInt64.ofNat (n.toNat % 256 ^ start.snLen.toNat)) ∧
      openData (start.setSequenceNumber count) crypto sealed iv dataStart dataEnd =
        (.ok (), opened) := by
  obtain ⟨-, hend, hiv, hsnLen, hheader, hstart, hpl, -, hseal⟩ := applySecurity_ok_iff.1 h
  have hb : (start.setSequenceNumber n).Bounded := ⟨hiv, hsnLen, hpl, sealData_mac hservice hseal⟩
  have hmarked : (marked (start.setSequenceNumber n) headerEnd frame).length = frame.length :=
    write_length ..
  have hroom : dataEnd + (start.setSequenceNumber n).macLen.toNat ≤
      (marked (start.setSequenceNumber n) headerEnd frame).length := by
    rw [hmarked]
    exact hend
  have hopens : ∃ code, OpensTo (start.setSequenceNumber n) (start.setSequenceNumber count) crypto
      (marked (start.setSequenceNumber n) headerEnd frame) sealed dataStart dataEnd code := by
    cases hkind : start.serviceType with
    | encryption => exact absurd hkind hservice
    | authentication => exact authenticated_opens hroom hb hkind hseal
    | authenticatedEncryption =>
      exact authenticated_encrypted_opens hroom (hcrypto.reverses n) hkind hseal
  obtain ⟨code, hto⟩ := hopens
  exact ⟨_, _, readHeader_sealed hb count hto hheader hstart hle hend,
    (hto.opens _ _ fun _ => rfl).2 ⟨rfl, checks_of_codes hcrypto count hto.codes⟩⟩

theorem genuine_accepted {start : SecurityAssociation} {n count : UInt64}
    (hcrypto : crypto.OpensOwn start) (hservice : start.serviceType ≠ .encryption)
    (hsn : 0 < start.snLen.toNat) (hle : dataStart ≤ dataEnd)
    (h : applySecurity (start.setSequenceNumber n) crypto frame headerEnd dataStart dataEnd =
      (.ok (), sealed, next))
    (hfits : n.toNat < 256 ^ start.snLen.toNat) (hnumber : count ≤ n)
    (hwindow : start.sequenceWindow = 0 ∨ n ≤ count + start.sequenceWindow) :
    ∃ opened, processSecurity (start.setSequenceNumber count) crypto sealed headerEnd dataStart
      dataEnd = (.ok (), opened, start.setSequenceNumber (n + 1)) := by
  obtain ⟨iv, opened, hread, hopen⟩ := genuine_opens count hcrypto hservice hle h
  rw [Nat.mod_eq_of_lt hfits, UInt64.ofNat_toNat] at hread
  have hcheck : checkSequenceNumber (start.setSequenceNumber count) n =
      .ok (start.setSequenceNumber (n + 1)) :=
    checkSequenceNumber_ok_iff.2 ⟨hnumber, hwindow, rfl⟩
  have hkind : (start.setSequenceNumber count).serviceType ≠ .encryption := hservice
  have hcounted : 0 < (start.setSequenceNumber count).snLen.toNat := hsn
  refine ⟨opened, processSecurity_ok_iff.2 ⟨iv, n, hread, hopen, (counts_of_ne hkind).2 ?_⟩⟩
  rw [acceptNumber, if_pos hcounted, hcheck]

/-! ## Runs of a link -/

/-- The two ends, the frames lost since the last one arrived, and whether a frame that arrived
was refused. -/
structure Link where
  sender : SecurityAssociation
  receiver : SecurityAssociation
  lost : Nat
  refused : Bool

inductive LinkEvent where
  | lose (c : SecurityCall)
  | deliver (c : SecurityCall)

def LinkEvent.call : LinkEvent → SecurityCall
  | .lose c => c
  | .deliver c => c

/-- The sender seals a frame; it is lost, or the receiver gets it. -/
inductive Link.Step (crypto : CryptoProvider) : Link → LinkEvent → Link → Prop where
  | lost {l : Link} {c : SecurityCall} {sealed : Bytes} {next : SecurityAssociation} :
      applySecurity l.sender crypto c.frame c.headerEnd c.dataStart c.dataEnd =
        (.ok (), sealed, next) →
      Step crypto l (.lose c) ⟨next, l.receiver, l.lost + 1, l.refused⟩
  | accepted {l : Link} {c : SecurityCall} {sealed opened : Bytes}
      {next receiver : SecurityAssociation} :
      applySecurity l.sender crypto c.frame c.headerEnd c.dataStart c.dataEnd =
        (.ok (), sealed, next) →
      processSecurity l.receiver crypto sealed c.headerEnd c.dataStart c.dataEnd =
        (.ok (), opened, receiver) →
      Step crypto l (.deliver c) ⟨next, receiver, 0, l.refused⟩
  | refused {l : Link} {c : SecurityCall} {sealed left : Bytes} {fault : Fault Error}
      {next receiver : SecurityAssociation} :
      applySecurity l.sender crypto c.frame c.headerEnd c.dataStart c.dataEnd =
        (.ok (), sealed, next) →
      processSecurity l.receiver crypto sealed c.headerEnd c.dataStart c.dataEnd =
        (.error fault, left, receiver) →
      Step crypto l (.deliver c) ⟨next, receiver, 0, true⟩

def linkSystem (crypto : CryptoProvider) (start : SecurityAssociation) :
    Transition.System Link LinkEvent where
  init l := l = ⟨start, start, 0, false⟩
  step := Link.Step crypto

/-- Fewer frames are lost in a row than the window is wide, and each frame has room for header
and code. -/
def Losses (l : Link) (e : LinkEvent) : Prop :=
  e.call.dataStart ≤ e.call.dataEnd ∧
    match e with
    | .lose _ => l.lost + 1 < l.receiver.sequenceWindow.toNat
    | .deliver _ => True

/-- The number fits into the field of the frame, and the window ends below 2^64. -/
def Numbered (l : Link) : Prop :=
  l.sender.sequenceNumber.toNat < 256 ^ l.sender.snLen.toNat ∧
    (l.receiver.sequenceWindow = 0 ∨
      l.receiver.sequenceNumber.toNat + l.receiver.sequenceWindow.toNat < 18446744073709551616)

/-- The sender is ahead of the receiver by the frames that were lost. -/
structure Link.InStep (start : SecurityAssociation) (l : Link) : Prop where
  sender : Paired start l.sender
  receiver : Paired start l.receiver
  ahead : l.sender.sequenceNumber.toNat = l.receiver.sequenceNumber.toNat + l.lost
  few : l.lost = 0 ∨ l.lost < start.sequenceWindow.toNat
  taken : l.refused = false

theorem Link.InStep.accepts {crypto : CryptoProvider} {start : SecurityAssociation} {l : Link}
    (h : l.InStep start) (hcrypto : crypto.OpensOwn start)
    (hservice : start.serviceType ≠ .encryption) (hsn : 0 < start.snLen.toNat)
    (hnumbered : Numbered l) {c : SecurityCall} (hroom : c.dataStart ≤ c.dataEnd)
    {sealed : Bytes} {next : SecurityAssociation}
    (happly : applySecurity l.sender crypto c.frame c.headerEnd c.dataStart c.dataEnd =
      (.ok (), sealed, next)) :
    ∃ opened, processSecurity l.receiver crypto sealed c.headerEnd c.dataStart c.dataEnd =
      (.ok (), opened, next) := by
  obtain ⟨⟨n, hsender⟩, ⟨count, hreceiver⟩, hahead, hfew, -⟩ := h
  obtain ⟨hfits, hwindow⟩ := hnumbered
  rw [hsender] at happly hfits hahead
  rw [hreceiver] at hwindow hahead ⊢
  replace hahead : n.toNat = count.toNat + l.lost := hahead
  replace hwindow : start.sequenceWindow = 0 ∨
    count.toNat + start.sequenceWindow.toNat < 18446744073709551616 := hwindow
  obtain ⟨-, -, -, -, -, -, -, hnext, -⟩ := applySecurity_ok_iff.1 happly
  rw [hnext]
  refine genuine_accepted hcrypto hservice hsn hroom happly hfits ?_ ?_
  · rw [UInt64.le_iff_toNat_le]
    show count.toNat ≤ n.toNat
    rw [hahead]
    exact Nat.le_add_right ..
  · rcases hwindow with hzero | hend
    · exact Or.inl hzero
    · right
      rw [UInt64.le_iff_toNat_le, UInt64.toNat_add]
      show n.toNat ≤ (count.toNat + start.sequenceWindow.toNat) % 18446744073709551616
      rw [Nat.mod_eq_of_lt hend]
      omega

theorem inStep {crypto : CryptoProvider} {start : SecurityAssociation}
    (hcrypto : crypto.OpensOwn start) (hservice : start.serviceType ≠ .encryption)
    (hsn : 0 < start.snLen.toNat) {l : Link}
    (h : (linkSystem crypto start).Reaches (fun l e => Losses l e ∧ Numbered l) l) :
    l.InStep start := by
  refine h.invariant (Link.InStep start) ?_ ?_
  · intro l hl
    obtain rfl : l = ⟨start, start, 0, false⟩ := hl
    exact ⟨⟨_, rfl⟩, ⟨_, rfl⟩, rfl, Or.inl rfl, rfl⟩
  · intro l e l' hin hok hstep
    obtain ⟨⟨hroom, hlosses⟩, hnumbered⟩ := hok
    cases hstep with
    | lost happly =>
      obtain ⟨⟨n, hsender⟩, ⟨count, hreceiver⟩, hahead, -, htaken⟩ := hin
      obtain ⟨-, hwindow⟩ := hnumbered
      obtain ⟨-, -, -, -, -, -, -, hnext, -⟩ := applySecurity_ok_iff.1 happly
      replace hlosses : l.lost + 1 < start.sequenceWindow.toNat := by
        rw [hreceiver] at hlosses
        exact hlosses
      refine ⟨⟨n + 1, ?_⟩, ⟨count, hreceiver⟩, ?_, Or.inr hlosses, htaken⟩
      · rw [hnext, hsender]
        rfl
      · rw [hsender, hreceiver] at hahead
        rw [hreceiver] at hwindow
        rw [hnext, hsender, hreceiver]
        show (n + 1).toNat = count.toNat + (l.lost + 1)
        replace hahead : n.toNat = count.toNat + l.lost := hahead
        replace hwindow : start.sequenceWindow = 0 ∨
          count.toNat + start.sequenceWindow.toNat < 18446744073709551616 := hwindow
        rw [UInt64.toNat_add]
        show (n.toNat + 1) % 18446744073709551616 = _
        rcases hwindow with hzero | hend
        · rw [hzero] at hlosses
          exact absurd hlosses (Nat.not_lt_zero _)
        · omega
    | @accepted c _ _ _ _ happly hprocess =>
      replace hroom : c.dataStart ≤ c.dataEnd := hroom
      obtain ⟨opened, haccepts⟩ := hin.accepts hcrypto hservice hsn hnumbered hroom happly
      rw [haccepts] at hprocess
      cases hprocess
      obtain ⟨⟨n, hsender⟩, -, -, -, htaken⟩ := hin
      obtain ⟨-, -, -, -, -, -, -, hnext, -⟩ := applySecurity_ok_iff.1 happly
      rw [hsender] at hnext
      exact ⟨⟨n + 1, hnext⟩, ⟨n + 1, hnext⟩, rfl, Or.inl rfl, htaken⟩
    | @refused c _ _ _ _ _ happly hprocess =>
      replace hroom : c.dataStart ≤ c.dataEnd := hroom
      obtain ⟨opened, haccepts⟩ := hin.accepts hcrypto hservice hsn hnumbered hroom happly
      rw [haccepts] at hprocess
      cases hprocess

/-- While the last number of 64 bits is not accepted, accepted numbers go up and no frame is
accepted twice; a refused frame changes nothing; and for as long as numbers fit into their field
and windows end below 2^64, every frame that arrives is accepted. -/
theorem anti_replay {crypto : CryptoProvider} {start : SecurityAssociation}
    (hservice : start.serviceType ≠ .encryption) (hsn : 0 < start.snLen.toNat) :
    (∀ s, (receiverSystem crypto start).Reaches (NotLast crypto start) s →
      (s.accepted.Pairwise fun c d => c.number start < d.number start) ∧ s.accepted.Nodup) ∧
    (∀ sa frame headerEnd dataStart dataEnd fault left next,
      processSecurity sa crypto frame headerEnd dataStart dataEnd = (.error fault, left, next) →
        next = sa) ∧
    (crypto.OpensOwn start → ∀ l,
      (linkSystem crypto start).Reaches (fun l e => Losses l e ∧ Numbered l) l →
        l.refused = false) := by
  refine ⟨?_, ?_, ?_⟩
  · intro s hs
    have hrising := (rising hservice hsn hs).rising
    refine ⟨hrising, hrising.imp fun hlt heq => ?_⟩
    rw [heq] at hlt
    exact UInt64.lt_irrefl _ hlt
  · intro sa frame headerEnd dataStart dataEnd fault left next h
    exact processSecurity_error h
  · intro hcrypto l hl
    exact (inStep hcrypto hservice hsn hl).taken

theorem clearMode_opensOwn (sa : SecurityAssociation) : ClearModeCrypto.OpensOwn sa where
  reverses := clearMode_inverse sa
  steady := fun _ _ _ _ => rfl

def shortNumbers : SecurityAssociation :=
  ⟨0x0001#16, .authentication, 0, 1, 0, 0, 254, 100, [], Nat.zero_le _⟩

def lastNumber : SecurityAssociation :=
  ⟨0x0001#16, .authentication, 0, 8, 0, 0, 0xFFFFFFFFFFFFFFFF, 0, [], Nat.zero_le _⟩

/-- The receiver takes 254, refuses it a second time and takes 255. -/
theorem anti_replay_short :
    (∃ s, (receiverSystem ClearModeCrypto shortNumbers).Reaches
      (NotLast ClearModeCrypto shortNumbers) s ∧ s.accepted.length = 2 ∧
        s.accepted.Pairwise fun c d => c.number shortNumbers < d.number shortNumbers) ∧
    ∃ l, (linkSystem ClearModeCrypto shortNumbers).Reaches
      (fun l e => Losses l e ∧ Numbered l) l ∧ l.sender.sequenceNumber = 255 ∧
        l.refused = false := by
  have htwo : (receiverSystem ClearModeCrypto shortNumbers).Reaches
      (NotLast ClearModeCrypto shortNumbers) ⟨shortNumbers.setSequenceNumber 256,
        [⟨[0, 1, 254, 7], 0, 3, 4⟩, ⟨[0, 1, 255, 8], 0, 3, 4⟩]⟩ :=
    .step ⟨[0, 1, 255, 8], 0, 3, 4⟩ (.step ⟨[0, 1, 254, 7], 0, 3, 4⟩
      (.step ⟨[0, 1, 254, 7], 0, 3, 4⟩ (.init rfl) (fun _ _ _ => by decide) (.accepted rfl))
      (fun _ _ _ => by decide) (.refused rfl)) (fun _ _ _ => by decide) (.accepted rfl)
  have hreaches : (linkSystem ClearModeCrypto shortNumbers).Reaches
      (fun l e => Losses l e ∧ Numbered l) ⟨shortNumbers.setSequenceNumber 255,
        shortNumbers.setSequenceNumber 255, 0, false⟩ :=
    .step (.deliver ⟨[0, 0, 0, 7], 0, 3, 4⟩) (.init rfl)
      ⟨⟨by decide, trivial⟩, by decide, Or.inr (by decide)⟩ (.accepted rfl rfl)
  obtain ⟨hrising, -, htaken⟩ := @anti_replay ClearModeCrypto shortNumbers (by decide) (by decide)
  exact ⟨⟨_, htwo, rfl, (hrising _ htwo).1⟩, _, hreaches, rfl,
    htaken (clearMode_opensOwn _) _ hreaches⟩

def lastFrame : SecurityCall := ⟨[0, 1, 255, 255, 255, 255, 255, 255, 255, 255, 7], 0, 10, 11⟩

/-- The frame with the last number is accepted again, and after 255 the next number of one
octet is refused without a loss. -/
theorem replayed_and_refused :
    (∃ s, (receiverSystem ClearModeCrypto lastNumber).Reachable s ∧ ¬s.accepted.Nodup) ∧
      ∃ l, (linkSystem ClearModeCrypto shortNumbers).Reaches Losses l ∧ l.refused = true := by
  have hroom : ∀ l, Losses l (.deliver ⟨[0, 0, 0, 7], 0, 3, 4⟩) := fun _ => ⟨by decide, trivial⟩
  have htwo : (linkSystem ClearModeCrypto shortNumbers).Reaches Losses
      ⟨shortNumbers.setSequenceNumber 256, shortNumbers.setSequenceNumber 256, 0, false⟩ :=
    .step _ (.step _ (.init rfl) (hroom _) (.accepted rfl rfl)) (hroom _) (.accepted rfl rfl)
  refine ⟨⟨⟨lastNumber.setSequenceNumber 0, [lastFrame, lastFrame]⟩, ?_, by decide⟩, ?_⟩
  · exact .step lastFrame (.step lastFrame (.init rfl) trivial (.accepted rfl)) trivial
      (.accepted rfl)
  · exact ⟨_, .step _ htwo (hroom _) (.refused rfl rfl), rfl⟩

end Sdls
end Datalink
end Leodos
