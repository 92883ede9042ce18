/-
No sum of the predictor leaves its word.

The rows hold samples and the weights are clipped, so every term has a bound.  Absolute values
carry the bounds.
-/
import Leodos.Compression.Ccsds123.Predictor

namespace Leodos
namespace Compression
namespace Ccsds123

open Emission

theorem natAbs_mul_le {a b : Int} {A B C : Nat} (ha : a.natAbs ≤ A) (hb : b.natAbs ≤ B)
    (hC : A * B ≤ C) : (a * b).natAbs ≤ C := by
  rw [Int.natAbs_mul]
  exact Nat.le_trans (Nat.mul_le_mul ha hb) hC

theorem natAbs_sum_le {a b : Int} {A B C : Nat} (ha : a.natAbs ≤ A) (hb : b.natAbs ≤ B)
    (hC : A + B ≤ C) : (a + b).natAbs ≤ C := by
  omega

theorem natAbs_tdiv_two_le (x : Int) : (x.tdiv 2).natAbs ≤ x.natAbs := by
  rw [Int.natAbs_tdiv]
  exact Nat.div_le_self _ _

theorem natAbs_clip_le {x lo hi : Int} {A : Nat} (hlo : lo.natAbs ≤ A) (hhi : hi.natAbs ≤ A) :
    (clip x lo hi).natAbs ≤ A := by
  unfold clip
  split
  · exact hlo
  · split
    · exact hhi
    · omega

theorem inI64_eq_true {v : Int} (h : v.natAbs < 9223372036854775808) : inI64 v = true := by
  rw [inI64, Bool.and_eq_true, decide_eq_true_iff, decide_eq_true_iff]
  omega

theorem wrapI64_eq {v : Int} (h : v.natAbs < 9223372036854775808) : wrapI64 v = v := by
  unfold wrapI64 asI64 asU64
  split
  · omega
  · omega

theorem pow2_le {n m : Nat} (h : n ≤ m) : (pow2 n).natAbs ≤ 2 ^ m := by
  rw [pow2, Int.natAbs_natCast, Nat.one_shiftLeft]
  exact Nat.pow_le_pow_right (by decide) h

theorem pow2_pos (n : Nat) : 0 < pow2 n := by
  have hpos := Nat.two_pow_pos n
  rw [pow2, Nat.one_shiftLeft]
  omega

theorem fetch_ok {α : Type} {xs : List α} {i : Nat} (h : i < xs.length) :
    ∃ v, fetch xs i = .ok v ∧ v ∈ xs := by
  refine ⟨xs[i], ?_, List.getElem_mem h⟩
  rw [fetch, List.getElem?_eq_getElem h]

/-! ## The state of the predictor -/

/-- Full rows of samples and full sets of clipped weights. -/
structure Good (c : Config) (m : Predictor) : Prop where
  srLength : m.srBuf.length = c.nz.toNat * 2 * c.nx.toNat
  sr : ∀ v ∈ m.srBuf, v.natAbs ≤ 65536
  weightsLength : m.weights.length = c.nz.toNat * maxCz
  weights : ∀ w ∈ m.weights, w.natAbs ≤ 2097152

theorem slot_lt {c : Config} {z row x : Nat} (hz : z < c.nz.toNat) (hrow : row < 2)
    (hx : x < c.nx.toNat) : slot c z row x < c.nz.toNat * 2 * c.nx.toNat := by
  have hmul : (z * 2 + row + 1) * c.nx.toNat ≤ c.nz.toNat * 2 * c.nx.toNat :=
    Nat.mul_le_mul_right _ (by omega)
  rw [Nat.add_mul, Nat.add_mul, Nat.one_mul] at hmul
  rw [slot]
  omega

theorem spectralWeight_bounds {c : Config} (h : c.omega ≤ 19) (i : Nat) :
    0 ≤ spectralWeight c i ∧ spectralWeight c i ≤ 524288 := by
  have hpow := pow2_le h
  have hpos := pow2_pos c.omega
  induction i with
  | zero =>
    rw [spectralWeight]
    omega
  | succ i ih =>
    rw [spectralWeight]
    omega

theorem good_init {c : Config} (h : c.omega ≤ 19) : Good c (initPredictor c) where
  srLength := List.length_replicate
  sr := by
    intro v hv
    rw [(List.mem_replicate.1 hv).2]
    decide
  weightsLength := by
    have hlen : ∀ n, ((List.range n).flatMap (initWeightsDefault c)).length = n * maxCz := by
      intro n
      induction n with
      | zero => exact (Nat.zero_mul _).symm
      | succ n ih =>
        rw [List.range_succ, List.flatMap_append, List.length_append, ih, List.flatMap_singleton,
          initWeightsDefault, List.length_map, List.length_range, Nat.succ_mul]
    exact hlen c.nz.toNat
  weights := by
    intro w hw
    obtain ⟨z, -, hw⟩ := List.mem_flatMap.1 hw
    obtain ⟨j, -, rfl⟩ := List.mem_map.1 hw
    have hslot : ∀ (P : Prop) [Decidable P] (i : Nat),
        (if P then spectralWeight c i else 0).natAbs ≤ 2097152 := by
      intro P _ i
      have hbounds := spectralWeight_bounds h i
      split
      · omega
      · decide
    exact hslot _ _

/-! ## Local sums and differences -/

/-- A sample of the image that has a prediction. -/
structure Inside (c : Config) (z y x : Nat) : Prop where
  band : z < c.nz.toNat
  row : y < c.ny.toNat
  column : x < c.nx.toNat
  time : 0 < y * c.nx.toNat + x

def tapsTotal : List (Nat × Int) → Int
  | [] => 0
  | (_, factor) :: taps => factor + tapsTotal taps

theorem sumTaps_ok {sr : List Int} (hsr : ∀ v ∈ sr, v.natAbs ≤ 65536) {taps : List (Nat × Int)}
    (h : ∀ tap ∈ taps, tap.1 < sr.length ∧ 0 ≤ tap.2) :
    ∃ s, sumTaps sr taps = .ok s ∧ s ≤ 65536 * tapsTotal taps ∧ -s ≤ 65536 * tapsTotal taps := by
  induction taps with
  | nil => exact ⟨0, rfl, Int.le_refl _, Int.le_refl _⟩
  | cons tap taps ih =>
    obtain ⟨i, factor⟩ := tap
    obtain ⟨hi, hfactor⟩ := h _ List.mem_cons_self
    obtain ⟨v, hv, hmem⟩ := fetch_ok hi
    obtain ⟨s, hs, hle, hge⟩ := ih (fun tap htap => h tap (List.mem_cons_of_mem _ htap))
    have hbound := hsr v hmem
    have hupper : factor * v ≤ factor * 65536 := Int.mul_le_mul_of_nonneg_left (by omega) hfactor
    have hlower : factor * (-v) ≤ factor * 65536 :=
      Int.mul_le_mul_of_nonneg_left (by omega) hfactor
    rw [Int.mul_neg] at hlower
    refine ⟨factor * v + s, ?_, ?_, ?_⟩
    · rw [sumTaps, hv, ok_bind, hs, ok_bind]
    · rw [tapsTotal]
      omega
    · rw [tapsTotal]
      omega

/-- A tap that reads the buffer with a factor that is not negative. -/
def TapIn (c : Config) (tap : Nat × Int) : Prop :=
  tap.1 < c.nz.toNat * 2 * c.nx.toNat ∧ 0 ≤ tap.2

theorem localTaps_spec {c : Config} (hv : c.Valid) {z y x : Nat} (h : Inside c z y x)
    {taps : List (Nat × Int)} (htaps : localTaps c z y x = some taps) :
    (∀ tap ∈ taps, TapIn c tap) ∧ tapsTotal taps = 4 := by
  have hz := h.band
  have hx := h.column
  have htime := h.time
  have hfirst : ¬ 0 < y → 0 < x := by
    intro hy
    have hy : y = 0 := by omega
    rw [hy, Nat.zero_mul] at htime
    omega
  have hcur : ∀ x' factor, x' < c.nx.toNat → 0 ≤ factor →
      TapIn c (slot c z (y % 2) x', factor) :=
    fun x' factor hx' hfactor => ⟨slot_lt hz (Nat.mod_lt _ (by decide)) hx', hfactor⟩
  have hprev : ∀ x' factor, x' < c.nx.toNat → 0 ≤ factor →
      TapIn c (slot c z ((y + 1) % 2) x', factor) :=
    fun x' factor hx' hfactor => ⟨slot_lt hz (Nat.mod_lt _ (by decide)) hx', hfactor⟩
  have hband : ∀ x' factor, x' < c.nx.toNat → 0 ≤ factor →
      TapIn c (slot c (z - 1) ((c.ny.toNat - 1) % 2) x', factor) :=
    fun x' factor hx' hfactor => ⟨slot_lt (by omega) (Nat.mod_lt _ (by decide)) hx', hfactor⟩
  have hwide : c.localSumType = .wideNeighbor ∨ c.localSumType = .narrowNeighbor →
      1 < c.nx.toNat := by
    intro htype
    have hone : c.nx.toNat ≠ 1 := fun hone => hv.neighbor ⟨UInt16.toNat_inj.1 hone, htype⟩
    omega
  have hcons := @List.forall_mem_cons (Nat × Int) (TapIn c)
  have hnil : ∀ tap ∈ ([] : List (Nat × Int)), TapIn c tap :=
    fun tap htap => absurd htap List.not_mem_nil
  unfold localTaps at htaps
  cases htype : c.localSumType with
  | wideNeighbor =>
    have hnx := hwide (Or.inl htype)
    rw [htype] at htaps
    dsimp only at htaps
    split at htaps
    · cases htaps
      exact ⟨hcons.2 ⟨hcur _ _ (by omega) (by decide), hcons.2 ⟨hprev _ _ (by omega) (by decide),
        hcons.2 ⟨hprev _ _ (by omega) (by decide),
          hcons.2 ⟨hprev _ _ (by omega) (by decide), hnil⟩⟩⟩⟩, rfl⟩
    · split at htaps
      · cases htaps
        exact ⟨hcons.2 ⟨hprev _ _ (by omega) (by decide),
          hcons.2 ⟨hprev _ _ (by omega) (by decide), hnil⟩⟩, rfl⟩
      · split at htaps
        · cases htaps
          exact ⟨hcons.2 ⟨hcur _ _ (by omega) (by decide),
            hcons.2 ⟨hprev _ _ (by omega) (by decide),
              hcons.2 ⟨hprev _ _ (by omega) (by decide), hnil⟩⟩⟩, rfl⟩
        · cases htaps
          exact ⟨hcons.2 ⟨hcur _ _ (by omega) (by decide), hnil⟩, rfl⟩
  | narrowNeighbor =>
    have hnx := hwide (Or.inr htype)
    rw [htype] at htaps
    dsimp only at htaps
    split at htaps
    · cases htaps
      exact ⟨hcons.2 ⟨hprev _ _ (by omega) (by decide), hcons.2 ⟨hprev _ _ (by omega) (by decide),
        hcons.2 ⟨hprev _ _ (by omega) (by decide), hnil⟩⟩⟩, rfl⟩
    · split at htaps
      · cases htaps
        exact ⟨hcons.2 ⟨hband _ _ (by omega) (by decide), hnil⟩, rfl⟩
      · split at htaps
        · cases htaps
          exact ⟨hcons.2 ⟨hprev _ _ (by omega) (by decide),
            hcons.2 ⟨hprev _ _ (by omega) (by decide), hnil⟩⟩, rfl⟩
        · split at htaps
          · cases htaps
            exact ⟨hcons.2 ⟨hprev _ _ (by omega) (by decide),
              hcons.2 ⟨hprev _ _ (by omega) (by decide), hnil⟩⟩, rfl⟩
          · cases htaps
  | wideColumn =>
    rw [htype] at htaps
    dsimp only at htaps
    split at htaps
    · cases htaps
      exact ⟨hcons.2 ⟨hprev _ _ hx (by decide), hnil⟩, rfl⟩
    · cases htaps
      exact ⟨hcons.2 ⟨hcur _ _ (by omega) (by decide), hnil⟩, rfl⟩
  | narrowColumn =>
    rw [htype] at htaps
    dsimp only at htaps
    split at htaps
    · cases htaps
      exact ⟨hcons.2 ⟨hprev _ _ hx (by decide), hnil⟩, rfl⟩
    · split at htaps
      · cases htaps
        exact ⟨hcons.2 ⟨hband _ _ (by omega) (by decide), hnil⟩, rfl⟩
      · cases htaps

theorem natAbs_sMid_le {c : Config} (hv : c.Valid) : c.sMid.natAbs ≤ 32768 := by
  have hrange := hv.range
  unfold Config.sMid
  split
  · decide
  · exact pow2_le (show c.d - 1 ≤ 15 by show c.dynamicRange - 1 ≤ 15; omega)

theorem natAbs_range_le {c : Config} (hv : c.Valid) :
    c.sMin.natAbs ≤ 32768 ∧ c.sMax.natAbs ≤ 65536 := by
  have hrange := hv.range
  have hhalf := pow2_le (show c.d - 1 ≤ 15 by show c.dynamicRange - 1 ≤ 15; omega)
  have hfull := pow2_le (show c.d ≤ 16 from hrange.2)
  have hpos := pow2_pos (c.d - 1)
  have hpos' := pow2_pos c.d
  unfold Config.sMin Config.sMax
  show (if c.signedSamples = true then -pow2 (c.d - 1) else 0).natAbs ≤ 32768 ∧
    (if c.signedSamples = true then pow2 (c.d - 1) - 1 else pow2 c.d - 1).natAbs ≤ 65536
  split
  · omega
  · omega

theorem localSumWithBuf_ok {c : Config} (hv : c.Valid) {m : Predictor} (hgood : Good c m)
    {z y x : Nat} (h : Inside c z y x) :
    ∃ sigma, localSumWithBuf c m.srBuf z y x = .ok sigma ∧ sigma.natAbs ≤ 262144 := by
  unfold localSumWithBuf
  cases htaps : localTaps c z y x with
  | none =>
    have hmid := natAbs_sMid_le hv
    exact ⟨4 * c.sMid, rfl, by omega⟩
  | some taps =>
    obtain ⟨hin, htotal⟩ := localTaps_spec hv h htaps
    obtain ⟨s, hs, hle, hge⟩ := sumTaps_ok hgood.sr (fun tap htap => by
      rw [hgood.srLength]
      exact hin tap htap)
    rw [htotal] at hle hge
    exact ⟨s, hs, by omega⟩

theorem directionalDiff_ok {c : Config} {m : Predictor} (hgood : Good c m) {sigma : Int}
    (hsigma : sigma.natAbs ≤ 262144) (y : Nat) {i : Nat}
    (hi : i < c.nz.toNat * 2 * c.nx.toNat) :
    ∃ u, directionalDiff m.srBuf sigma y i = .ok u ∧ u.natAbs ≤ 524288 := by
  unfold directionalDiff
  by_cases hy : 0 < y
  · obtain ⟨v, hv, hmem⟩ := fetch_ok (show i < m.srBuf.length by rw [hgood.srLength]; exact hi)
    have hbound := hgood.sr v hmem
    rw [if_pos hy, hv, ok_bind]
    exact ⟨_, rfl, by omega⟩
  · rw [if_neg hy]
    exact ⟨0, rfl, by decide⟩

theorem spectralDiffs_ok {c : Config} (hv : c.Valid) {m : Predictor} (hgood : Good c m)
    {z y x : Nat} (h : Inside c z y x) (is : List Nat) :
    ∃ us, spectralDiffs c m.srBuf z y x is = .ok us ∧ us.length = is.length ∧
      ∀ u ∈ us, u.natAbs ≤ 524288 := by
  induction is with
  | nil => exact ⟨[], rfl, rfl, fun u hu => absurd hu List.not_mem_nil⟩
  | cons i is ih =>
    have hz := h.band
    obtain ⟨sigma, hsum, hsigma⟩ := localSumWithBuf_ok hv hgood
      (⟨by omega, h.row, h.column, h.time⟩ : Inside c (z - i) y x)
    obtain ⟨v, hfetch, hmem⟩ := fetch_ok (show slot c (z - i) (y % 2) x < m.srBuf.length by
      rw [hgood.srLength]
      exact slot_lt (by omega) (Nat.mod_lt _ (by decide)) h.column)
    obtain ⟨us, hus, hlen, hbounds⟩ := ih
    have hbound := hgood.sr v hmem
    refine ⟨(4 * v - sigma) :: us, ?_, congrArg Nat.succ hlen, ?_⟩
    · rw [spectralDiffs, hsum, ok_bind, hfetch, ok_bind, hus, ok_bind]
    · exact List.forall_mem_cons.2 ⟨by omega, hbounds⟩

theorem buildUWithBuf_ok {c : Config} (hv : c.Valid) {m : Predictor} (hgood : Good c m)
    {z y x : Nat} (h : Inside c z y x) {sigma : Int} (hsigma : sigma.natAbs ≤ 262144) :
    ∃ us, buildUWithBuf c m.srBuf sigma z y x = .ok us ∧ us.length ≤ 18 ∧
      ∀ u ∈ us, u.natAbs ≤ 524288 := by
  have hz := h.band
  have hx := h.column
  have hp := hv.p
  have hslot : ∀ row x', row < 2 → x' < c.nx.toNat →
      slot c z row x' < c.nz.toNat * 2 * c.nx.toNat := fun row x' hrow hx' => slot_lt hz hrow hx'
  have hcur : y % 2 < 2 := Nat.mod_lt _ (by decide)
  have hprev : (y + 1) % 2 < 2 := Nat.mod_lt _ (by decide)
  obtain ⟨vs, hvs, hlen, hbounds⟩ := spectralDiffs_ok hv hgood h (List.range' 1 (min z c.p))
  rw [List.length_range'] at hlen
  unfold buildUWithBuf
  cases c.mode with
  | reduced => exact ⟨vs, hvs, by omega, hbounds⟩
  | full =>
    obtain ⟨dN, hdN, hboundN⟩ := directionalDiff_ok hgood hsigma y (hslot _ _ hprev hx)
    obtain ⟨dW, hdW, hboundW⟩ := directionalDiff_ok hgood hsigma y
      (show (if 0 < x then slot c z (y % 2) (x - 1) else slot c z ((y + 1) % 2) x) <
        c.nz.toNat * 2 * c.nx.toNat by
        split
        · exact hslot _ _ hcur (by omega)
        · exact hslot _ _ hprev hx)
    obtain ⟨dNW, hdNW, hboundNW⟩ := directionalDiff_ok hgood hsigma y
      (show (if 0 < x then slot c z ((y + 1) % 2) (x - 1) else slot c z ((y + 1) % 2) x) <
        c.nz.toNat * 2 * c.nx.toNat by
        split
        · exact hslot _ _ hprev (by omega)
        · exact hslot _ _ hprev hx)
    refine ⟨dN :: dW :: dNW :: vs, ?_, ?_, ?_⟩
    · simp only [directionalDiffs, hdN, hdW, hdNW, ok_bind, hvs]
      rfl
    · rw [List.length_cons, List.length_cons, List.length_cons]
      omega
    · exact List.forall_mem_cons.2 ⟨hboundN, List.forall_mem_cons.2 ⟨hboundW,
        List.forall_mem_cons.2 ⟨hboundNW, hbounds⟩⟩⟩

/-! ## Prediction -/

theorem dHatLoop_ok {weights : List Int} (hweights : ∀ w ∈ weights, w.natAbs ≤ 2097152)
    {us : List Int} (hus : ∀ u ∈ us, u.natAbs ≤ 524288) {j n : Nat} {dHat : Int}
    (hj : j + us.length ≤ weights.length) (hn : n + us.length ≤ 18)
    (hdHat : dHat.natAbs ≤ n * 1099511627776) :
    ∃ s, dHatLoop weights j dHat us = .ok s ∧ s.natAbs ≤ 19791209299968 := by
  induction us generalizing j n dHat with
  | nil =>
    refine ⟨dHat, rfl, ?_⟩
    rw [List.length_nil] at hn
    omega
  | cons u us ih =>
    rw [List.length_cons] at hj hn
    obtain ⟨w, hfetch, hmem⟩ := fetch_ok (show j < weights.length by omega)
    have hprod : (w * u).natAbs ≤ 1099511627776 :=
      natAbs_mul_le (hweights w hmem) (hus u List.mem_cons_self) (by decide)
    obtain ⟨s, hs, hbound⟩ := ih (fun v hv => hus v (List.mem_cons_of_mem _ hv))
      (show j + 1 + us.length ≤ weights.length by omega) (show n + 1 + us.length ≤ 18 by omega)
      (show (dHat + w * u).natAbs ≤ (n + 1) * 1099511627776 by omega)
    refine ⟨s, ?_, hbound⟩
    rw [dHatLoop, hfetch, ok_bind, inI64_eq_true (by omega), inI64_eq_true (by omega)]
    exact hs

theorem modStar_ok {x : Int} {r : Nat} (hr : r ≤ 63) (hx : x.natAbs ≤ 1152921504606846976) :
    ∃ m, modStar x r = .ok m := by
  have hhalf : (pow2 (r - 1)).natAbs ≤ 4611686018427387904 :=
    pow2_le (show r - 1 ≤ 62 by omega)
  rw [modStar, if_neg (by omega), inI64_eq_true (by omega), if_pos rfl]
  exact ⟨_, rfl⟩

theorem highResPredictedBuf_ok {c : Config} (hv : c.Valid) (hregister : c.registerSize ≤ 63)
    {dHat sigma : Int} (hdHat : dHat.natAbs ≤ 19791209299968) (hsigma : sigma.natAbs ≤ 262144)
    {t : Nat} (ht : 0 < t) (z : Nat) (sr : List Int) :
    ∃ s, highResPredictedBuf c dHat sigma t z sr = .ok s ∧ s.natAbs ≤ 274877906944 := by
  have homega := hv.omega.2
  have hmid := natAbs_sMid_le hv
  obtain ⟨hmin, hmax⟩ := natAbs_range_le hv
  have hp0 : (pow2 c.omega).natAbs ≤ 524288 := pow2_le homega
  have hp1 : (pow2 (c.omega + 1)).natAbs ≤ 1048576 := pow2_le (show c.omega + 1 ≤ 20 by omega)
  have hp2 : (pow2 (c.omega + 2)).natAbs ≤ 2097152 := pow2_le (show c.omega + 2 ≤ 21 by omega)
  have hm1 : (pow2 c.omega * (sigma - 4 * c.sMid)).natAbs ≤ 206158430208 :=
    natAbs_mul_le hp0 (show (sigma - 4 * c.sMid).natAbs ≤ 393216 by omega) (by decide)
  have hm2 : (pow2 (c.omega + 2) * c.sMid).natAbs ≤ 68719476736 :=
    natAbs_mul_le hp2 hmid (by decide)
  have hm3 : (pow2 (c.omega + 2) * c.sMin).natAbs ≤ 68719476736 :=
    natAbs_mul_le hp2 hmin (by decide)
  have hm4 : (pow2 (c.omega + 2) * c.sMax).natAbs ≤ 137438953472 :=
    natAbs_mul_le hp2 hmax (by decide)
  have hs1 : (dHat + pow2 c.omega * (sigma - 4 * c.sMid)).natAbs ≤ 19997367730176 :=
    natAbs_sum_le hdHat hm1 (by decide)
  have hs2 : (dHat + pow2 c.omega * (sigma - 4 * c.sMid) +
      pow2 (c.omega + 2) * c.sMid).natAbs ≤ 20066087206912 := natAbs_sum_le hs1 hm2 (by decide)
  have hs3 : (dHat + pow2 c.omega * (sigma - 4 * c.sMid) + pow2 (c.omega + 2) * c.sMid +
      pow2 (c.omega + 1)).natAbs ≤ 20066088255488 := natAbs_sum_le hs2 hp1 (by decide)
  obtain ⟨m, hm⟩ := modStar_ok hregister (Nat.le_trans hs3 (by decide))
  refine ⟨_, ?_, natAbs_clip_le (x := m) (natAbs_sum_le hm3 hp1 (by decide))
    (natAbs_sum_le hm4 hp1 (by decide))⟩
  rw [highResPredictedBuf, if_pos ht]
  simp only [inI64_eq_true (Nat.lt_of_le_of_lt hs1 (by decide)),
    inI64_eq_true (Nat.lt_of_le_of_lt hs2 (by decide)),
    inI64_eq_true (Nat.lt_of_le_of_lt hs3 (by decide)), Bool.and_self, if_true, hm, ok_bind]

theorem predict_ok {c : Config} (hv : c.Valid) (hregister : c.registerSize ≤ 63) {m : Predictor}
    (hgood : Good c m) {z y x : Nat} (h : Inside c z y x) :
    ∃ pred, predict c m z y x = .ok pred ∧ pred.u.length ≤ 18 ∧
      (∀ u ∈ pred.u, u.natAbs ≤ 524288) ∧ pred.sTilde.natAbs ≤ 274877906944 := by
  obtain ⟨sigma, hsum, hsigma⟩ := localSumWithBuf_ok hv hgood h
  obtain ⟨us, hus, hlen, hbounds⟩ := buildUWithBuf_ok hv hgood h hsigma
  have hroom : z * maxCz + us.length ≤ m.weights.length := by
    have hmul : (z + 1) * maxCz ≤ c.nz.toNat * maxCz := Nat.mul_le_mul_right _ h.band
    rw [Nat.add_mul] at hmul
    rw [hgood.weightsLength]
    show z * maxCz + us.length ≤ _
    have hmax : maxCz = 18 := rfl
    omega
  obtain ⟨dHat, hdHat, hdBound⟩ := dHatLoop_ok hgood.weights hbounds hroom
    (show 0 + us.length ≤ 18 by omega) (show (0 : Int).natAbs ≤ 0 * 1099511627776 by decide)
  obtain ⟨sTilde, hsTilde, hsBound⟩ := highResPredictedBuf_ok hv hregister hdBound hsigma h.time z
    m.srBuf
  refine ⟨⟨us, sTilde⟩, ?_, hlen, hbounds, hsBound⟩
  rw [predict, hsum, ok_bind, hus, ok_bind, hdHat, ok_bind, hsTilde, ok_bind]

/-! ## Update -/

theorem scalingExponent_bounds {c : Config} (hv : c.Valid) (t : Nat) :
    -23 ≤ scalingExponent c t ∧ scalingExponent c t ≤ 21 := by
  have hrange := hv.range
  have homega := hv.omega
  have hvMin := hv.vMin
  have hvMax := hv.vMax
  have hd : c.d = c.dynamicRange := rfl
  unfold scalingExponent clip
  split
  · omega
  · split
    · omega
    · omega

theorem natAbs_shiftRight_le {u rho : Int} (hu : u.natAbs ≤ 524288) (hrho : -23 ≤ rho) :
    (shiftRight u rho).natAbs ≤ 4398046511104 := by
  unfold shiftRight
  by_cases hpos : 0 ≤ rho
  · have hdiv := Int.natAbs_ediv_le_natAbs u ((2 ^ rho.toNat : Nat) : Int)
    rw [if_pos hpos, Int.shiftRight_eq_div_pow]
    omega
  · have hpow : (pow2 (-rho).toNat).natAbs ≤ 8388608 :=
      pow2_le (show (-rho).toNat ≤ 23 by omega)
    have hmul : (u * pow2 (-rho).toNat).natAbs ≤ 4398046511104 :=
      natAbs_mul_le hu hpow (by decide)
    rw [if_neg hpos, wrapI64_eq (by omega)]
    exact hmul

theorem sgnPlus_mul (e v : Int) : sgnPlus e * v = v ∨ sgnPlus e * v = -v := by
  unfold sgnPlus
  split
  · exact Or.inl (Int.one_mul v)
  · exact Or.inr (Int.neg_one_mul v)

theorem mem_set_bound {xs : List Int} {B : Nat} (h : ∀ v ∈ xs, v.natAbs ≤ B) {a : Int}
    (ha : a.natAbs ≤ B) (i : Nat) : ∀ v ∈ xs.set i a, v.natAbs ≤ B := by
  intro v hv
  rcases List.mem_or_eq_of_mem_set hv with hv | hv
  · exact h v hv
  · rw [hv]
    exact ha

theorem updateLoop_ok {c : Config} (hv : c.Valid) (e : Int) {rho : Int} (hrho : -23 ≤ rho)
    {us : List Int} (hus : ∀ u ∈ us, u.natAbs ≤ 524288) {j : Nat} {weights : List Int}
    (hweights : ∀ w ∈ weights, w.natAbs ≤ 2097152) (hj : j + us.length ≤ weights.length) :
    ∃ weights', updateLoop c e rho j weights us = .ok weights' ∧
      weights'.length = weights.length ∧ ∀ w ∈ weights', w.natAbs ≤ 2097152 := by
  induction us generalizing j weights with
  | nil => exact ⟨weights, rfl, rfl, hweights⟩
  | cons u us ih =>
    rw [List.length_cons] at hj
    obtain ⟨w, hfetch, hmem⟩ := fetch_ok (show j < weights.length by omega)
    have hbound := hweights w hmem
    have hshift := natAbs_shiftRight_le (hus u List.mem_cons_self) hrho
    have hsgn := sgnPlus_mul e (shiftRight u rho)
    have hinc := natAbs_tdiv_two_le (sgnPlus e * shiftRight u rho + 1)
    have homega := hv.omega
    have hlimit : (pow2 (c.omega + 2)).natAbs ≤ 2097152 :=
      pow2_le (show c.omega + 2 ≤ 21 by omega)
    have hpos := pow2_pos (c.omega + 2)
    have hclip := natAbs_clip_le (x := w + weightInc e u rho)
      (show (-pow2 (c.omega + 2)).natAbs ≤ 2097152 by omega)
      (show (pow2 (c.omega + 2) - 1).natAbs ≤ 2097152 by omega)
    obtain ⟨weights', hloop, hlen, hall⟩ := ih (fun v hv => hus v (List.mem_cons_of_mem _ hv))
      (mem_set_bound hweights hclip j)
      (show j + 1 + us.length ≤ (weights.set j _).length by rw [List.length_set]; omega)
    refine ⟨weights', ?_, hlen.trans List.length_set, hall⟩
    have hincBound : (w + weightInc e u rho).natAbs < 9223372036854775808 := by
      rw [weightInc]
      omega
    rw [updateLoop, hfetch, ok_bind, inI64_eq_true (by omega), inI64_eq_true (by omega),
      inI64_eq_true hincBound]
    exact hloop

theorem good_store {c : Config} {m : Predictor} (hgood : Good c m) (z y x : Nat) {s : Int}
    (hs : s.natAbs ≤ 65536) : Good c (m.store c z y x s) where
  srLength := List.length_set.trans hgood.srLength
  sr := mem_set_bound hgood.sr hs _
  weightsLength := hgood.weightsLength
  weights := hgood.weights

theorem update_ok {c : Config} (hv : c.Valid) {m : Predictor} (hgood : Good c m) {z y x : Nat}
    (h : Inside c z y x) {pred : Prediction} (hlen : pred.u.length ≤ 18)
    (hus : ∀ u ∈ pred.u, u.natAbs ≤ 524288) {s : Int} (hs : s.natAbs ≤ 65536) :
    ∃ m', update c m z y x pred s = .ok m' ∧ Good c m' := by
  have hroom : z * maxCz + pred.u.length ≤ m.weights.length := by
    have hmul : (z + 1) * maxCz ≤ c.nz.toNat * maxCz := Nat.mul_le_mul_right _ h.band
    have hmax : maxCz = 18 := rfl
    rw [Nat.add_mul] at hmul
    rw [hgood.weightsLength]
    omega
  obtain ⟨weights, hloop, hlength, hall⟩ := updateLoop_ok hv (2 * s - pred.sTilde)
    (scalingExponent_bounds hv (y * c.nx.toNat + x)).1 hus hgood.weights hroom
  refine ⟨_, ?_, good_store (⟨hgood.srLength, hgood.sr, hlength.trans hgood.weightsLength, hall⟩ :
    Good c { m with weights := weights }) z y x hs⟩
  rw [update, hloop, ok_bind]

end Ccsds123
end Compression
end Leodos
