/-
Both sides of `ccsds123.rs` stay in step.

A sample of a band is coded by its difference to a prediction, and the decoder makes the same
prediction from the same state.  The first sample of a band is coded as it is, so bands of one
sample need no state at all, and of a row with narrow sums no sum reads the first sample unless
another band follows.
-/
import Leodos.Compression.Ccsds123.Codec

namespace Leodos
namespace Compression
namespace Ccsds123

open BitStream Emission BitReader

/-! ## Samples -/

namespace Config

/-- The number a sample stands for; signed samples are in two's complement. -/
def sample (c : Config) (v : UInt16) : Int :=
  if c.signedSamples && decide (32768 ≤ v.toNat) then (v.toNat : Int) - 65536 else v.toNat

def InRange (c : Config) (v : UInt16) : Prop := c.sMin ≤ c.sample v ∧ c.sample v ≤ c.sMax

instance (c : Config) (v : UInt16) : Decidable (c.InRange v) := inferInstanceAs (Decidable (_ ∧ _))

theorem sample_cases (c : Config) (v : UInt16) :
    c.sample v = v.toNat ∨
      (c.signedSamples = true ∧ 32768 ≤ v.toNat ∧ c.sample v = (v.toNat : Int) - 65536) := by
  unfold sample
  by_cases hneg : (c.signedSamples && decide (32768 ≤ v.toNat)) = true
  · rw [if_pos hneg]
    rw [Bool.and_eq_true, decide_eq_true_iff] at hneg
    exact Or.inr ⟨hneg.1, hneg.2, rfl⟩
  · rw [if_neg hneg]
    exact Or.inl rfl

theorem sample_of_nonneg {c : Config} {v : UInt16} (h : 0 ≤ c.sample v) : c.sample v = v.toNat := by
  have hword := v.toNat_lt
  rcases c.sample_cases v with hsame | ⟨-, -, hneg⟩
  · exact hsame
  · omega

end Config

theorem asU16_sample (c : Config) (v : UInt16) : asU16 (c.sample v) = v := by
  have hword : v.toNat < 65536 := v.toNat_lt
  have hmod : (c.sample v % 65536).toNat = v.toNat := by
    rcases c.sample_cases v with hsame | ⟨-, -, hneg⟩
    · omega
    · omega
  rw [asU16, hmod, UInt16.ofNat_toNat]

/-! ## The first sample of a band -/

def firstCode (c : Config) (v : UInt16) : Nat :=
  asU64 (if c.signedSamples then (v.toNat : Int) - c.sMin else v.toNat)

theorem first_spec {c : Config} (hv : c.Valid) {v : UInt16} (h : c.InRange v) :
    (if c.signedSamples then asI64 (firstCode c v % 2 ^ c.d) + c.sMin
      else asI64 (firstCode c v % 2 ^ c.d)) = c.sample v := by
  have hword : v.toNat < 65536 := v.toNat_lt
  have hwidth := range_width hv
  obtain ⟨hlow, hhigh⟩ := h
  obtain ⟨hmin, -⟩ := natAbs_range_le hv
  have hd : c.d ≤ 16 := hv.range.2
  have hpow : 2 ^ c.d ≤ 2 ^ 16 := Nat.pow_le_pow_right (by decide) hd
  have hblocks : 65536 = 2 ^ c.d * 2 ^ (16 - c.d) := by
    rw [← Nat.pow_add, Nat.add_sub_cancel' hd]
  -- the sample counted from the least one, with whole blocks of the range on top
  have hcode : ∀ {code : Nat} {offset : Int}, 0 ≤ offset → offset < ((2 ^ c.d : Nat) : Int) →
      ((code : Int) = offset ∨ (code : Int) = offset + 65536) →
      asI64 (code % 2 ^ c.d) = offset := by
    intro code offset hpos hlt hcase
    have hmod : code % 2 ^ c.d = offset.toNat := by
      rcases hcase with hsame | hmore
      · rw [Nat.mod_eq_of_lt (by omega)]
        omega
      · have hsum : code = offset.toNat + 2 ^ c.d * 2 ^ (16 - c.d) := by omega
        rw [hsum, Nat.add_mul_mod_self_left, Nat.mod_eq_of_lt (by omega)]
    rw [hmod, asI64, if_pos (by omega)]
    omega
  have hsMin : c.signedSamples = false → c.sMin = 0 := by
    intro hsigned
    rw [Config.sMin, hsigned]
    rfl
  unfold firstCode asU64
  by_cases hsigned : c.signedSamples = true
  · rw [if_pos hsigned, if_pos hsigned]
    rw [hcode (show 0 ≤ c.sample v - c.sMin by omega) (by omega)]
    · omega
    · rcases c.sample_cases v with hsame | ⟨-, -, hneg⟩
      · exact Or.inl (by omega)
      · exact Or.inr (by omega)
  · have hzero := hsMin (Bool.eq_false_iff.2 hsigned)
    rw [if_neg hsigned, if_neg hsigned]
    rcases c.sample_cases v with hsame | ⟨hsigned', -, -⟩
    · exact hcode (by omega) (by omega) (Or.inl (by omega))
    · exact absurd hsigned' hsigned

theorem fetch_some {α : Type} {xs : List α} {i : Nat} {v : α} (h : xs[i]? = some v) :
    fetch xs i = .ok v := by
  rw [fetch, h]

section
variable {c : Config} {image : List UInt16} {p : Pos} {v : UInt16}

theorem gives_first (himage : image[index c p]? = some v) (htime : time c p = 0) (m : Model)
    (size : Nat) :
    Gives (BitWriter.medium size) (bitsOf c.d (firstCode c v))
      { m with predictor := m.predictor.store c p.z p.y p.x v.toNat } (encodeAt c image p m) := by
  have hputs := (BitWriter.puts_writeBits size (firstCode c v) c.d).gives
    { m with predictor := m.predictor.store c p.z p.y p.x v.toNat }
  unfold encodeAt
  simp only [getSample, fetch_some himage, ok_bind, if_pos htime]
  exact hputs

theorem decodeAt_first (hv : c.Valid) (hrange : c.InRange v) (htime : time c p = 0) (m : Model)
    {buf : Bytes} {off : Nat} (h : Stands buf off (bitsOf c.d (firstCode c v)))
    {restored : List UInt16} (hin : index c p < restored.length) :
    decodeAt c p m (behind buf off) restored =
      .ok ({ m with predictor := m.predictor.store c p.z p.y p.x (c.sample v) },
        behind buf (off + c.d), restored.set (index c p) v) := by
  have hd : c.d ≤ 16 := hv.range.2
  have hread := readBits_eq h (length_bitsOf _ _) (by omega)
  rw [value_bitsOf] at hread
  unfold decodeAt
  simp only [if_pos htime, hread, ok_bind, first_spec hv hrange, setSample, asU16_sample]
  rw [if_neg (by omega)]
  rfl

end

/-! ## A sample that is not read -/

/-- Bands of one row, with sums that stay out of the row. -/
def Single (c : Config) : Prop :=
  c.ny.toNat = 1 ∧ (c.localSumType = .narrowNeighbor ∨ c.localSumType = .narrowColumn)

instance (c : Config) : Decidable (Single c) := inferInstanceAs (Decidable (_ ∧ _))

/-- The first sample of the last band, when no sum reads it. -/
def Unread (c : Config) (p : Pos) : Prop := Single c ∧ p.z + 1 = c.nz.toNat ∧ p.x = 0

instance (c : Config) (p : Pos) : Decidable (Unread c p) := inferInstanceAs (Decidable (_ ∧ _))

/-- The buffers differ in an unread sample at most. -/
structure Agree (c : Config) (sr sr' : List Int) : Prop where
  length : sr'.length = sr.length
  same : ∀ i, sr'[i]? = sr[i]? ∨ ∃ p, Unread c p ∧ i = slot c p.z 0 0

def Model.reading (m : Model) (sr : List Int) : Model :=
  { m with predictor := { m.predictor with srBuf := sr } }

section
variable {c : Config} {sr sr' : List Int} {z x : Nat}

theorem Agree.refl (sr : List Int) : Agree c sr sr := ⟨rfl, fun _ => Or.inl rfl⟩

theorem Agree.eq_of_not_single (h : Agree c sr sr') (hsingle : ¬ Single c) : sr' = sr := by
  refine List.ext_getElem? fun i => ?_
  rcases h.same i with hsame | ⟨p, hp, -⟩
  · exact hsame
  · exact absurd hp.1 hsingle

theorem Agree.set (h : Agree c sr sr') {i : Nat} {v v' : Int}
    (hv : v' = v ∨ ∃ p, Unread c p ∧ i = slot c p.z 0 0) :
    Agree c (sr.set i v) (sr'.set i v') := by
  refine ⟨by rw [List.length_set, List.length_set, h.length], fun j => ?_⟩
  by_cases hij : i = j
  · subst hij
    rcases hv with rfl | hunread
    · refine Or.inl ?_
      rw [List.getElem?_set, List.getElem?_set, if_pos rfl, if_pos rfl, h.length]
    · exact Or.inr hunread
  · rw [List.getElem?_set_ne hij, List.getElem?_set_ne hij]
    exact h.same j

theorem Agree.fetch (h : Agree c sr sr') (hx : x < c.nx.toNat)
    (hread : z + 1 < c.nz.toNat ∨ (z < c.nz.toNat ∧ 0 < x)) :
    fetch sr' (slot c z 0 x) = fetch sr (slot c z 0 x) := by
  rcases h.same (slot c z 0 x) with hsame | ⟨p, ⟨-, hz, -⟩, hi⟩
  · unfold Ccsds123.fetch
    rw [hsame]
  · unfold slot at hi
    rw [Nat.zero_mul, Nat.add_zero, Nat.add_zero, Nat.mul_assoc, Nat.mul_assoc] at hi
    rcases hread with hlt | ⟨hle, hpos⟩
    · have hrow : (z + 1) * (2 * c.nx.toNat) ≤ p.z * (2 * c.nx.toNat) :=
        Nat.mul_le_mul_right _ (by omega)
      rw [Nat.add_mul, Nat.one_mul] at hrow
      omega
    · have hrow : z * (2 * c.nx.toNat) ≤ p.z * (2 * c.nx.toNat) :=
        Nat.mul_le_mul_right _ (by omega)
      by_cases hsame : z = p.z
      · rw [hsame] at hi
        omega
      · have hrow : (z + 1) * (2 * c.nx.toNat) ≤ p.z * (2 * c.nx.toNat) :=
          Nat.mul_le_mul_right _ (by omega)
        rw [Nat.add_mul, Nat.one_mul] at hrow
        omega

theorem localSum_agree (h : Agree c sr sr') (hsingle : Single c) (hz : z < c.nz.toNat)
    (hx : x < c.nx.toNat) : localSumWithBuf c sr' z 0 x = localSumWithBuf c sr z 0 x := by
  have htaps : localTaps c z 0 x =
      if 0 < x ∧ 0 < z then some [(slot c (z - 1) 0 (x - 1), 4)] else none := by
    rcases hsingle.2 with hsum | hsum <;> simp [localTaps, hsum, hsingle.1]
  unfold localSumWithBuf
  rw [htaps]
  by_cases hin : 0 < x ∧ 0 < z
  · rw [if_pos hin]
    simp only [sumTaps, h.fetch (show x - 1 < c.nx.toNat by omega)
      (Or.inl (show z - 1 + 1 < c.nz.toNat by omega))]
  · rw [if_neg hin]

theorem spectralDiffs_agree (h : Agree c sr sr') (hsingle : Single c) (hz : z < c.nz.toNat)
    (hx : x < c.nx.toNat) {is : List Nat} (his : ∀ i ∈ is, 1 ≤ i ∧ i ≤ z) :
    spectralDiffs c sr' z 0 x is = spectralDiffs c sr z 0 x is := by
  induction is with
  | nil => rfl
  | cons i is ih =>
    obtain ⟨hlow, hhigh⟩ := his i List.mem_cons_self
    have hsum := localSum_agree h hsingle (show z - i < c.nz.toNat by omega) hx
    have hfetch := h.fetch hx (Or.inl (show z - i + 1 < c.nz.toNat by omega))
    have hrest := ih fun j hj => his j (List.mem_cons_of_mem _ hj)
    simp only [spectralDiffs, Nat.zero_mod, hsum, hfetch, hrest]

theorem predict_agree {m : Predictor} {y : Nat} (h : Agree c m.srBuf sr')
    (hin : Inside c z y x) : predict c { m with srBuf := sr' } z y x = predict c m z y x := by
  by_cases hsingle : Single c
  · have hrow := hin.row
    obtain rfl : y = 0 := by
      have hone := hsingle.1
      omega
    have hbands : ∀ i ∈ List.range' 1 (min z c.p), 1 ≤ i ∧ i ≤ z := by
      intro i hi
      rw [List.mem_range'_1] at hi
      omega
    have hspectral := spectralDiffs_agree h hsingle hin.band hin.column hbands
    have hbuild : ∀ sigma,
        buildUWithBuf c sr' sigma z 0 x = buildUWithBuf c m.srBuf sigma z 0 x := by
      intro sigma
      unfold buildUWithBuf
      rw [hspectral]
      rfl
    unfold predict
    simp only [localSum_agree h hsingle hin.band hin.column, hbuild, highResPredictedBuf,
      if_pos hin.time]
  · rw [h.eq_of_not_single hsingle]

theorem update_agree {m m₁ : Predictor} {y : Nat} {pred : Prediction} {v : Int} (sr : List Int)
    (h : update c m z y x pred v = .ok m₁) :
    m₁.srBuf = m.srBuf.set (slot c z (y % 2) x) v ∧
      update c { m with srBuf := sr } z y x pred v =
        .ok { m₁ with srBuf := sr.set (slot c z (y % 2) x) v } := by
  obtain ⟨weights, hweights, hstore⟩ := bind_ok h
  cases hstore
  refine ⟨rfl, ?_⟩
  rw [update, hweights]
  rfl

end

/-! ## The other samples -/

/-- The state after `n` samples. -/
structure Bounded (c : Config) (n : Nat) (m : Model) : Prop where
  good : Good c m.predictor
  accLength : m.acc.length = c.nz.toNat
  acc : ∀ a ∈ m.acc, a ≤ 8388608 + n * 65535
  counter : m.counter ≤ 2048

theorem Bounded.mono {c : Config} {n n' : Nat} {m : Model} (h : Bounded c n m) (hn : n ≤ n') :
    Bounded c n' m where
  good := h.good
  accLength := h.accLength
  acc := fun a ha => Nat.le_trans (h.acc a ha) (by omega)
  counter := h.counter

theorem Bounded.step {c : Config} {n z acc acc' counter' : Nat} {m : Model} {predictor : Predictor}
    (h : Bounded c n m) (hgood : Good c predictor) (hmem : acc ∈ m.acc)
    (hacc : acc' ≤ acc + 65535) (hcounter : counter' ≤ 2048) :
    Bounded c (n + 1) ⟨predictor, m.acc.set z acc', counter'⟩ := by
  refine ⟨hgood, List.length_set.trans h.accLength, fun a ha => ?_, hcounter⟩
  rcases List.mem_or_eq_of_mem_set ha with hold | rfl
  · exact (h.mono (Nat.le_succ n)).acc a hold
  · have hle := h.acc acc hmem
    omega

theorem initModel_ok {c : Config} (hv : c.Valid) (hk : ∀ k, c.accumInitK = some k → k ≤ 14) :
    ∃ m, initModel c = .ok m ∧ Bounded c 0 m := by
  obtain ⟨accs, haccs, hlen, hbounds⟩ := initAccs_ok hv hk c.nz.toNat
  have hgamma : 1 <<< c.gamma0 ≤ 256 := by
    rw [Nat.one_shiftLeft]
    exact Nat.pow_le_pow_right (by decide) (show c.gamma0 ≤ 8 from hv.gamma0.2)
  refine ⟨⟨initPredictor c, accs, 1 <<< c.gamma0⟩, ?_, good_init hv.omega.2, hlen, ?_, ?_⟩
  · unfold initModel
    simp only [haccs, ok_bind]
  · intro a ha
    have hle := hbounds a ha
    omega
  · show 1 <<< c.gamma0 ≤ 2048
    omega

section
variable {c : Config} {image : List UInt16} {p : Pos} {v : UInt16} {m : Model} {n : Nat}

theorem later_step (hv : c.Valid) (hregister : c.registerSize ≤ 63)
    (himage : image[index c p]? = some v) (hrange : c.InRange v) (hpos : 0 ≤ c.sample v)
    (hin : Inside c p.z p.y p.x) (hbounded : Bounded c n m) (hn : n ≤ 281462092005375) :
    ∃ m' bits, Bounded c (n + 1) m' ∧ bits.length ≤ 48 ∧
      (∀ size, Gives (BitWriter.medium size) bits m' (encodeAt c image p m)) ∧
      ∀ {sr : List Int}, Agree c m.predictor.srBuf sr →
        Agree c m'.predictor.srBuf (sr.set (slot c p.z (p.y % 2) p.x) v.toNat) ∧
          ∀ {buf : Bytes} {off : Nat} {restored : List UInt16}, Stands buf off bits →
            index c p < restored.length →
            decodeAt c p (m.reading sr) (behind buf off) restored =
              .ok (m'.reading (sr.set (slot c p.z (p.y % 2) p.x) v.toNat),
                behind buf (off + bits.length), restored.set (index c p) v) := by
  have hd : c.d ≤ 16 := hv.range.2
  have hmax := hv.uMax
  have hword : v.toNat < 65536 := v.toNat_lt
  have hpow : 2 ^ c.d ≤ 2 ^ 16 := Nat.pow_le_pow_right (by decide) hd
  have hsample := Config.sample_of_nonneg hpos
  have htime : ¬ time c p = 0 := Nat.pos_iff_ne_zero.1 hin.time
  rw [Config.InRange, hsample] at hrange
  obtain ⟨pred, hpred, hlen, hus, -⟩ := predict_ok hv hregister hbounded.good hin
  obtain ⟨acc, hacc, hmem⟩ := fetch_ok (show p.z < m.acc.length by
    rw [hbounded.accLength]
    exact hin.band)
  have haccle := hbounded.acc acc hmem
  have hsmall : acc ≤ 18446744073709000000 := by omega
  obtain ⟨k, hk, hkd⟩ := selectK_ok hv hsmall hbounded.counter
  obtain ⟨hmapped, hback⟩ := mapped_spec hv hrange (predictedSample pred.sTilde)
  obtain ⟨mapped, heq⟩ : ∃ mapped, mappedQuantizerIndex c ((v.toNat : Int) -
      predictedSample pred.sTilde) (predictedSample pred.sTilde) = mapped := ⟨_, rfl⟩
  rw [heq] at hmapped hback
  obtain ⟨acc', counter', hadapt, hacc', hcounter'⟩ :=
    adapt_ok hv (show mapped ≤ 65535 by omega) hsmall hbounded.counter
  obtain ⟨predictor, hupdate, hgood⟩ :=
    update_ok hv hbounded.good hin hlen hus (show ((v.toNat : Int)).natAbs ≤ 65536 by omega)
  have hroom : (gpo2Bits mapped k c.uMax c.d).length ≤ c.uMax + c.d := length_gpo2Bits_le hkd
  refine ⟨⟨predictor, m.acc.set p.z acc', counter'⟩, gpo2Bits mapped k c.uMax c.d,
    hbounded.step hgood hmem (by omega) hcounter', by omega, fun size => ?_, ?_⟩
  · have hcode := ((BitWriter.puts_writeGpo2 size mapped k c.uMax c.d).gives (acc', counter')).bind
      (g := fun sums w => .ok ((⟨predictor, m.acc.set p.z sums.1, sums.2⟩ : Model), w))
      (gives_pure _)
    rw [List.append_nil] at hcode
    unfold encodeAt
    simp only [getSample, fetch_some himage, ok_bind, if_neg htime, hpred, hacc, heq,
      encodeSample, hk, hadapt, hupdate]
    exact hcode
  · intro sr hagree
    obtain ⟨hstored, hupdate'⟩ := update_agree sr hupdate
    refine ⟨?_, fun {buf off restored} hstands hfit => ?_⟩
    · show Agree c predictor.srBuf _
      rw [hstored]
      exact hagree.set (Or.inl rfl)
    · have hread := readGpo2_eq hstands hmapped hd (by omega) (by omega)
      have hsum : predictedSample pred.sTilde +
          ((v.toNat : Int) - predictedSample pred.sTilde) = v.toNat := by omega
      have hbits := asU16_sample c v
      rw [hsample] at hbits
      unfold decodeAt
      simp only [Model.reading, if_neg htime, predict_agree hagree hin, hpred, ok_bind, hacc,
        decodeSample, hk, hread, hadapt, hback, hsum, setSample, hbits]
      rw [if_neg (by omega)]
      simp only [ok_bind, hupdate']

end

/-! ## All samples -/

/-- The same state on both sides but for an unread sample; bands of one sample never look at it. -/
structure LockStep (c : Config) (n : Nat) (m m' : Model) : Prop where
  same : 1 < c.nx.toNat * c.ny.toNat →
    ∃ sr, Agree c m.predictor.srBuf sr ∧ m' = m.reading sr
  bounded : 1 < c.nx.toNat * c.ny.toNat → Bounded c n m

/-- What the source needs of the samples and of the register of a band with several samples. -/
structure Tame (c : Config) (image : List UInt16) : Prop where
  register : 1 < c.nx.toNat * c.ny.toNat → c.registerSize ≤ 63
  nonneg : 1 < c.nx.toNat * c.ny.toNat → ∀ p ∈ positions c, ¬ Unread c p →
    ∀ v ∈ image[index c p]?, 0 ≤ c.sample v

theorem one_lt_of_time {c : Config} {p : Pos} (hy : p.y < c.ny.toNat) (hx : p.x < c.nx.toNat)
    (h : 0 < time c p) : 1 < c.nx.toNat * c.ny.toNat := by
  have hrow : (p.y + 1) * c.nx.toNat ≤ c.ny.toNat * c.nx.toNat := Nat.mul_le_mul_right _ hy
  rw [Nat.add_mul, Nat.one_mul, Nat.mul_comm c.ny.toNat] at hrow
  unfold time at h
  omega

section
variable {c : Config} {image : List UInt16} {p : Pos} {v : UInt16} {m m' : Model} {n : Nat}

theorem one_step (hv : c.Valid) (htame : Tame c image) (himage : image[index c p]? = some v)
    (hrange : c.InRange v) (hp : p ∈ positions c) (hlock : LockStep c n m m')
    (hn : n ≤ 281462092005375) :
    ∃ m₁ m₁' bits, LockStep c (n + 1) m₁ m₁' ∧ bits.length ≤ 48 ∧
      (∀ size, Gives (BitWriter.medium size) bits m₁ (encodeAt c image p m)) ∧
      ∀ {buf : Bytes} {off : Nat} {restored : List UInt16}, Stands buf off bits →
        index c p < restored.length →
        decodeAt c p m' (behind buf off) restored =
          .ok (m₁', behind buf (off + bits.length), restored.set (index c p) v) := by
  obtain ⟨hz, hy, hx⟩ := mem_positions hp
  have hmem := List.mem_of_getElem? himage
  have hd : c.d ≤ 16 := hv.range.2
  by_cases htime : time c p = 0
  · refine ⟨{ m with predictor := m.predictor.store c p.z p.y p.x v.toNat },
      { m' with predictor := m'.predictor.store c p.z p.y p.x (c.sample v) },
      bitsOf c.d (firstCode c v), ⟨fun hmany => ?_, fun hmany => ?_⟩, ?_,
      fun size => gives_first himage htime m size, ?_⟩
    · obtain ⟨sr, hagree, rfl⟩ := hlock.same hmany
      refine ⟨_, hagree.set ?_, rfl⟩
      by_cases hunread : Unread c p
      · refine Or.inr ⟨p, hunread, ?_⟩
        have hone := hunread.1.1
        rw [hunread.2.2, show p.y = 0 by omega]
      · exact Or.inl (Config.sample_of_nonneg (htame.nonneg hmany p hp hunread v himage))
    · have hbounded := hlock.bounded hmany
      have hword : v.toNat < 65536 := v.toNat_lt
      have hstored := good_store hbounded.good p.z p.y p.x
        (show ((v.toNat : Int)).natAbs ≤ 65536 by omega)
      exact ⟨hstored, hbounded.accLength, (hbounded.mono (Nat.le_succ n)).acc,
        hbounded.counter⟩
    · rw [length_bitsOf]
      omega
    · intro buf off restored hstands hfit
      rw [length_bitsOf]
      exact decodeAt_first hv hrange htime m' hstands hfit
  · have hmany := one_lt_of_time hy hx (Nat.pos_of_ne_zero htime)
    have hpos : 0 ≤ c.sample v := by
      refine htame.nonneg hmany p hp (fun hunread => htime ?_) v himage
      have hone := hunread.1.1
      rw [time, hunread.2.2, show p.y = 0 by omega, Nat.zero_mul]
    have hin : Inside c p.z p.y p.x := ⟨hz, hy, hx, Nat.pos_of_ne_zero htime⟩
    obtain ⟨m₁, bits, hbounded, hlen, hgives, hdecode⟩ := later_step hv (htame.register hmany)
      himage hrange hpos hin (hlock.bounded hmany) hn
    obtain ⟨sr, hagree, rfl⟩ := hlock.same hmany
    exact ⟨m₁, m₁.reading (sr.set (slot c p.z (p.y % 2) p.x) v.toNat), bits,
      ⟨fun _ => ⟨_, (hdecode hagree).1, rfl⟩, fun _ => hbounded⟩, hlen, hgives,
      (hdecode hagree).2⟩

theorem all_steps (hv : c.Valid) (htame : Tame c image)
    (hrange : ∀ v ∈ image, c.InRange v) {ps : List Pos} (hps : ∀ p ∈ ps, p ∈ positions c)
    (hin : ∀ p ∈ ps, index c p < image.length) (hlock : LockStep c n m m')
    (hn : n + ps.length ≤ 281462092005375) :
    ∃ m₁ m₁' bits, bits.length ≤ 48 * ps.length ∧
      (∀ size, Gives (BitWriter.medium size) bits m₁ (encodeLoop c image ps m)) ∧
      ∀ {buf : Bytes} {off : Nat} {restored : List UInt16}, Stands buf off bits →
        image.length ≤ restored.length →
        ∃ restored', decodeLoop c ps m' (behind buf off) restored =
            .ok (m₁', behind buf (off + bits.length), restored') ∧
          restored'.length = restored.length ∧
          ∀ i v, image[i]? = some v → i ∈ ps.map (index c) ∨ restored[i]? = some v →
            restored'[i]? = some v := by
  induction ps generalizing n m m' with
  | nil =>
    refine ⟨m, m', [], Nat.le_refl _, fun size => gives_pure m, ?_⟩
    intro buf off restored _ _
    refine ⟨restored, rfl, rfl, fun i v _ hcase => ?_⟩
    rcases hcase with hmem | hsame
    · exact absurd hmem List.not_mem_nil
    · exact hsame
  | cons p ps ih =>
    rw [List.length_cons] at hn
    have hfit := hin p List.mem_cons_self
    have himage := List.getElem?_eq_getElem hfit
    obtain ⟨m₁, m₁', bits, hlock', hlen, hgives, hdecode⟩ := one_step hv htame himage
      (hrange _ (List.getElem_mem hfit)) (hps p List.mem_cons_self) hlock (by omega)
    obtain ⟨m₂, m₂', bits', hlen', hgives', hdecode'⟩ := ih
      (fun q hq => hps q (List.mem_cons_of_mem _ hq))
      (fun q hq => hin q (List.mem_cons_of_mem _ hq)) hlock' (by omega)
    refine ⟨m₂, m₂', bits ++ bits', ?_, fun size => (hgives size).bind (hgives' size), ?_⟩
    · rw [List.length_append, List.length_cons]
      omega
    · intro buf off restored hstands hroom
      rw [stands_append] at hstands
      have hset := hdecode hstands.1 (Nat.lt_of_lt_of_le hfit hroom)
      obtain ⟨restored', hloop, hsize, hsame⟩ := hdecode' hstands.2
        (show image.length ≤ (restored.set (index c p) image[index c p]).length by
          rw [List.length_set]
          exact hroom)
      refine ⟨restored', ?_, hsize.trans List.length_set, fun i v hi hcase => hsame i v hi ?_⟩
      · rw [decodeLoop, hset, List.length_append, ← Nat.add_assoc]
        exact hloop
      · by_cases hhere : index c p = i
        · subst hhere
          rw [himage] at hi
          rw [List.getElem?_set_self (by omega)]
          exact Or.inr hi
        · rw [List.getElem?_set_ne hhere]
          rcases hcase with hmem | hold
          · rw [List.map_cons, List.mem_cons] at hmem
            rcases hmem with heq | hmem
            · exact absurd heq.symm hhere
            · exact Or.inl hmem
          · exact Or.inr hold

end

end Ccsds123
end Compression
end Leodos
