/-
The scale of a prediction of `ccsds123.rs`.

A prediction has `omega + 2` bits behind the point, and `predicted_sample` takes one of them off.
So it leaves the range of the samples over some image, except where no sample is predicted or
every prediction is the same small number.
-/
import Leodos.Compression.Ccsds123.Lossless
import Mathlib

namespace Leodos
namespace Compression
namespace Ccsds123

open Emission

/-! ## The prediction loop -/

/-- What one turn of `compress` does to the predictor. -/
def predictorAt (c : Config) (image : List UInt16) (p : Pos) (m : Predictor) :
    Except Stop Predictor := do
  let s ← getSample c image p
  if time c p = 0 then .ok (m.store c p.z p.y p.x s)
  else do
    let pred ← predict c m p.z p.y p.x
    update c m p.z p.y p.x pred s

def predictorLoop (c : Config) (image : List UInt16) (ps : List Pos) (m : Predictor) :
    Except Stop Predictor :=
  ps.foldlM (fun m p => predictorAt c image p m) m

section Loop

variable {c : Config} {image : List UInt16}

theorem encodeAt_predictor {p : Pos} {m m' : Model} {w w' : BitWriter}
    (h : encodeAt c image p m w = .ok (m', w')) :
    predictorAt c image p m.predictor = .ok m'.predictor := by
  unfold encodeAt at h
  obtain ⟨s, hs, h⟩ := bind_ok h
  rw [predictorAt, hs, ok_bind]
  by_cases htime : time c p = 0
  · rw [if_pos htime] at h ⊢
    obtain ⟨w₁, -, h⟩ := bind_ok h
    cases h
    rfl
  · rw [if_neg htime] at h ⊢
    obtain ⟨pred, hpred, h⟩ := bind_ok h
    obtain ⟨acc, -, h⟩ := bind_ok h
    obtain ⟨sums, -, h⟩ := bind_ok h
    obtain ⟨predictor, hupdate, h⟩ := bind_ok h
    cases h
    rw [hpred, ok_bind]
    exact hupdate

/-- The predictor of `compress` is that of the prediction loop. -/
theorem encodeLoop_predictor {ps : List Pos} {m m' : Model} {w w' : BitWriter}
    (h : encodeLoop c image ps m w = .ok (m', w')) :
    predictorLoop c image ps m.predictor = .ok m'.predictor := by
  induction ps generalizing m w with
  | nil =>
    cases h
    rfl
  | cons p ps ih =>
    obtain ⟨r, hstep, hrest⟩ := bind_ok h
    rw [predictorLoop, List.foldlM_cons, encodeAt_predictor hstep]
    exact ih hrest

theorem predictorLoop_append (before : List Pos) (p : Pos) (m : Predictor) :
    predictorLoop c image (before ++ [p]) m =
      predictorLoop c image before m >>= predictorAt c image p := by
  simp [predictorLoop, List.foldlM_append]

/-- The cell of a sample in the buffer of the last two rows. -/
def cell (c : Config) (p : Pos) : Nat := slot c p.z (p.y % 2) p.x

theorem predictorAt_srBuf {p : Pos} {m m' : Predictor} (h : predictorAt c image p m = .ok m') :
    ∃ s, getSample c image p = .ok s ∧ m'.srBuf = m.srBuf.set (cell c p) s := by
  obtain ⟨s, hs, h⟩ := bind_ok h
  refine ⟨s, hs, ?_⟩
  by_cases htime : time c p = 0
  · rw [if_pos htime] at h
    cases h
    rfl
  · rw [if_neg htime] at h
    obtain ⟨pred, -, h⟩ := bind_ok h
    obtain ⟨weights, -, h⟩ := bind_ok h
    cases h
    rfl

theorem cell_lt {p : Pos} (hp : p ∈ positions c) : cell c p < c.nz.toNat * 2 * c.nx.toNat := by
  obtain ⟨hz, -, hx⟩ := mem_positions hp
  exact slot_lt hz (Nat.mod_lt _ (by omega)) hx

theorem predictorLoop_cell {before : List Pos} {m : Predictor}
    (hin : ∀ q ∈ before, q ∈ positions c)
    (h : predictorLoop c image before (initPredictor c) = .ok m) :
    m.srBuf.length = c.nz.toNat * 2 * c.nx.toNat ∧
      ∀ k v, (∃ q ∈ before, cell c q = k) →
        (∀ q ∈ before, cell c q = k → getSample c image q = .ok v) → m.srBuf[k]? = some v := by
  induction before using List.reverseRecOn generalizing m with
  | nil =>
    cases h
    refine ⟨List.length_replicate, fun k v hwritten => ?_⟩
    obtain ⟨q, hq, -⟩ := hwritten
    exact absurd hq List.not_mem_nil
  | append_singleton before p ih =>
    rw [predictorLoop_append] at h
    obtain ⟨m₁, h₁, hstep⟩ := bind_ok h
    obtain ⟨hlen, hcells⟩ := ih (fun q hq => hin q (List.mem_append_left _ hq)) h₁
    obtain ⟨s, hs, hset⟩ := predictorAt_srBuf hstep
    have hp := cell_lt (hin p (List.mem_append_right _ (List.mem_singleton_self p)))
    refine ⟨by rw [hset, List.length_set, hlen], fun k v hwritten hsame => ?_⟩
    rw [hset]
    by_cases hk : cell c p = k
    · have hv := hsame p (List.mem_append_right _ (List.mem_singleton_self p)) hk
      rw [hs, Except.ok.injEq] at hv
      rw [← hk, List.getElem?_set_self (by omega), hv]
    · rw [List.getElem?_set_ne hk]
      refine hcells k v ?_ fun q hq => hsame q (List.mem_append_left _ hq)
      obtain ⟨q, hq, hqk⟩ := hwritten
      rw [List.mem_append, List.mem_singleton] at hq
      cases hq with
      | inl hold => exact ⟨q, hold, hqk⟩
      | inr hnew => exact absurd (hnew ▸ hqk) hk

theorem mem_before {before after : List Pos} {p q : Pos} (h : positions c = before ++ p :: after)
    (hq : q ∈ positions c) (hlt : index c q < index c p) : q ∈ before := by
  have hindex : ∀ i (hi : i < (positions c).length), index c (positions c)[i] = i := by
    intro i hi
    have hget := congrArg (·[i]?) (map_index_positions c)
    simp only [List.getElem?_map, List.getElem?_eq_getElem hi, Option.map_some] at hget
    rw [List.getElem?_range (by rw [← length_positions]; exact hi), Option.some.injEq] at hget
    exact hget
  obtain ⟨i, hi, hqi⟩ := List.mem_iff_getElem.1 hq
  have hplace : index c p = before.length := by
    have hb : before.length < (positions c).length := by
      rw [h, List.length_append, List.length_cons]
      omega
    have hp := hindex before.length hb
    simp only [h, List.getElem_append_right (Nat.le_refl _), Nat.sub_self,
      List.getElem_cons_zero] at hp
    exact hp
  have hib : i < before.length := by
    rw [← hplace, ← hindex i hi, hqi]
    exact hlt
  rw [← hqi]
  simp only [h, List.getElem_append_left hib]
  exact List.getElem_mem hib

end Loop

/-! ## Flat neighbourhoods -/

section Flat

variable {c : Config}

/-- A sample value at the scale of a prediction. -/
def atScale (c : Config) (v : Int) : Int := pow2 (c.omega + 2) * v + pow2 (c.omega + 1)

def register (c : Config) (x : Int) : Int :=
  (x + pow2 (c.registerSize - 1)) % pow2 c.registerSize - pow2 (c.registerSize - 1)

theorem pow2_succ (n : Nat) : pow2 (n + 1) = 2 * pow2 n := by
  rw [pow2, pow2, Nat.one_shiftLeft, Nat.one_shiftLeft, Nat.pow_succ]
  omega

theorem dHatLoop_zero {weights : List Int} {j : Nat} {dHat r : Int} {us : List Int}
    (hus : ∀ u ∈ us, u = 0) (h : dHatLoop weights j dHat us = .ok r) : r = dHat := by
  induction us generalizing j with
  | nil =>
    cases h
    rfl
  | cons u us ih =>
    obtain ⟨w, -, h⟩ := bind_ok h
    have hu := hus u List.mem_cons_self
    rw [hu, Int.mul_zero, Int.add_zero] at h
    split at h
    · exact ih (fun u hu => hus u (List.mem_cons_of_mem _ hu)) h
    · cases h

theorem predict_flat {m : Predictor} {z y x : Nat} {pred : Prediction} {v : Int}
    (hpred : predict c m z y x = .ok pred) (htime : 0 < y * c.nx.toNat + x)
    (hsum : localSumWithBuf c m.srBuf z y x = .ok (4 * v))
    (hflat : ∀ us, buildUWithBuf c m.srBuf (4 * v) z y x = .ok us → ∀ u ∈ us, u = 0) :
    c.registerSize ≤ 63 ∧
      pred.sTilde = clip (register c (atScale c v)) (atScale c c.sMin) (atScale c c.sMax) := by
  have hlevel : 0 + pow2 c.omega * (4 * v - 4 * c.sMid) + pow2 (c.omega + 2) * c.sMid +
      pow2 (c.omega + 1) = atScale c v := by
    rw [atScale, pow2_succ (c.omega + 1), pow2_succ]
    ring
  unfold predict at hpred
  rw [hsum, ok_bind] at hpred
  obtain ⟨us, hus, hpred⟩ := bind_ok hpred
  obtain ⟨dHat, hdHat, hpred⟩ := bind_ok hpred
  obtain ⟨sTilde, hhigh, hpred⟩ := bind_ok hpred
  cases hpred
  rw [dHatLoop_zero (hflat us hus) hdHat, highResPredictedBuf, if_pos htime] at hhigh
  dsimp only at hhigh
  rw [hlevel] at hhigh
  split at hhigh
  · obtain ⟨residue, hmod, hhigh⟩ := bind_ok hhigh
    cases hhigh
    unfold modStar at hmod
    split at hmod
    · cases hmod
    · split at hmod
      · cases hmod
        exact ⟨by omega, rfl⟩
      · cases hmod
  · cases hhigh

theorem predictedSample_level {v : Int} (hmin : c.sMin ≤ v) (hmax : v ≤ c.sMax) (h0 : 0 ≤ v)
    (hregister : 0 < c.registerSize) (hfits : atScale c v < pow2 (c.registerSize - 1)) :
    predictedSample (clip (register c (atScale c v)) (atScale c c.sMin) (atScale c c.sMax)) =
      pow2 c.omega * (2 * v + 1) := by
  have hpos := pow2_pos c.omega
  have hscale : atScale c v = 2 * (pow2 c.omega * (2 * v + 1)) := by
    rw [atScale, pow2_succ (c.omega + 1), pow2_succ]
    ring
  have hnonneg : 0 ≤ atScale c v := by
    rw [hscale]
    exact Int.mul_nonneg (by omega) (Int.mul_nonneg (by omega) (by omega))
  have hwhole : pow2 c.registerSize = 2 * pow2 (c.registerSize - 1) := by
    rw [← pow2_succ, Nat.sub_add_cancel hregister]
  have hheld : register c (atScale c v) = atScale c v := by
    rw [register, hwhole, Int.emod_eq_of_lt (by omega) (by omega)]
    omega
  have hmono : ∀ {a b : Int}, a ≤ b → atScale c a ≤ atScale c b := by
    intro a b hab
    have hmul := Int.mul_le_mul_of_nonneg_left hab (Int.le_of_lt (pow2_pos (c.omega + 2)))
    unfold atScale
    omega
  have hlo := hmono hmin
  have hhi := hmono hmax
  rw [hheld, clip, if_neg (by omega), if_neg (by omega), predictedSample, if_pos hnonneg, hscale,
    Int.mul_tdiv_cancel_left _ (by omega)]

theorem pow2_add (n k : Nat) : pow2 (n + k) = pow2 n * pow2 k := by
  rw [pow2, pow2, pow2, Nat.one_shiftLeft, Nat.one_shiftLeft, Nat.one_shiftLeft, Nat.pow_add,
    Nat.cast_mul]

theorem pow2_mono {n k : Nat} (h : n ≤ k) : pow2 n ≤ pow2 k := by
  have hle := Nat.pow_le_pow_right (show 0 < 2 by omega) h
  rw [pow2, pow2, Nat.one_shiftLeft, Nat.one_shiftLeft]
  omega

theorem predictedSample_carry (hd : 0 < c.d) (hunsigned : c.signedSamples = false)
    (hregister : c.registerSize = c.d + c.omega + 2) :
    predictedSample (clip (register c (atScale c c.sMid)) (atScale c c.sMin)
      (atScale c c.sMax)) = pow2 c.omega := by
  have hmid : c.sMid = pow2 (c.d - 1) := by
    rw [Config.sMid, if_neg (by simp [hunsigned])]
    rfl
  have hmin : atScale c c.sMin = pow2 (c.omega + 1) := by
    rw [atScale, Config.sMin, if_neg (by simp [hunsigned]), Int.mul_zero, Int.zero_add]
  have hhalf : pow2 (c.omega + 2) * c.sMid = pow2 (c.registerSize - 1) := by
    rw [hmid, ← pow2_add, hregister]
    congr 1
    omega
  have hwhole : pow2 c.registerSize = 2 * pow2 (c.registerSize - 1) := by
    rw [← pow2_succ, Nat.sub_add_cancel (by omega)]
  have hsmall : pow2 (c.omega + 1) < pow2 c.registerSize := by
    have hle := pow2_mono (show c.omega + 2 ≤ c.registerSize by omega)
    have hpos := pow2_pos (c.omega + 1)
    rw [pow2_succ] at hle
    omega
  have hpos := pow2_pos (c.omega + 1)
  have hposR := pow2_pos (c.registerSize - 1)
  have hheld : register c (atScale c c.sMid) =
      pow2 (c.omega + 1) - pow2 (c.registerSize - 1) := by
    rw [register, atScale, hhalf]
    have hsum : pow2 (c.registerSize - 1) + pow2 (c.omega + 1) + pow2 (c.registerSize - 1) =
        pow2 (c.omega + 1) + pow2 c.registerSize := by omega
    rw [hsum, Int.add_emod_right, Int.emod_eq_of_lt (by omega) hsmall]
  rw [hheld, clip, hmin, if_pos (by omega), predictedSample, if_pos (by omega), pow2_succ,
    Int.mul_tdiv_cancel_left _ (by omega)]

theorem buildU_first {sr : List Int} {sigma : Int} {x : Nat} {us : List Int}
    (h : buildUWithBuf c sr sigma 0 0 x = .ok us) : ∀ u ∈ us, u = 0 := by
  have hspectral : spectralDiffs c sr 0 0 x (List.range' 1 (min 0 c.p)) = .ok [] := by
    rw [Nat.zero_min]
    rfl
  have hdirections : directionalDiffs c sr sigma 0 0 x = .ok [0, 0, 0] := rfl
  unfold buildUWithBuf at h
  cases hmode : c.mode with
  | full =>
    rw [hmode, hdirections, ok_bind, hspectral, ok_bind, Except.ok.injEq] at h
    simp [← h]
  | reduced =>
    rw [hmode, hspectral, Except.ok.injEq] at h
    simp [← h]

theorem localSum_narrow
    (hnarrow : c.localSumType = .narrowNeighbor ∨ c.localSumType = .narrowColumn)
    (sr : List Int) (x : Nat) : localSumWithBuf c sr 0 0 x = .ok (4 * c.sMid) := by
  cases hnarrow with
  | inl h => simp [localSumWithBuf, localTaps, h]
  | inr h => simp [localSumWithBuf, localTaps, h]

end Flat

/-! ## Predictions in range -/

section Range

/-- One row of one band, with sums that look at neither: every prediction is `2 ^ omega`. -/
structure OneRow (c : Config) : Prop where
  register : c.registerSize ≤ 63
  narrow : c.localSumType = .narrowNeighbor ∨ c.localSumType = .narrowColumn
  row : c.ny = 1
  band : c.nz = 1
  small : pow2 c.omega ≤ c.sMax
  middle : c.signedSamples = true ∨ c.registerSize = c.d + c.omega + 2

/-- A prediction as it should be. -/
structure Sound (c : Config) (image : List UInt16) (p : Pos) (sHat : Int) : Prop where
  range : c.sMin ≤ sHat ∧ sHat ≤ c.sMax
  bijective : Set.BijOn (fun s => mappedQuantizerIndex c (s - sHat) sHat)
    (Set.Icc c.sMin c.sMax) (Set.Iio (2 ^ c.d))
  constant : (∀ v ∈ image, ∀ v' ∈ image, v = v') → c.p = 0 →
    c.localSumType = .wideNeighbor ∨ c.localSumType = .wideColumn →
      ∃ s, getSample c image p = .ok s ∧ mappedQuantizerIndex c (s - sHat) sHat = 0

/-- Every sample that is not the first of its band is predicted, and as it should be. -/
def PredictsInRange (c : Config) : Prop :=
  ∀ image : List UInt16, image.length = size c → (∀ v ∈ image, c.InRange v) →
    ∀ before p after, positions c = before ++ p :: after → 0 < time c p →
      ∃ m pred, predictorLoop c image before (initPredictor c) = .ok m ∧
        predict c m p.z p.y p.x = .ok pred ∧ Sound c image p (predictedSample pred.sTilde)

variable {c : Config}

theorem sMin_nonpos (c : Config) : c.sMin ≤ 0 := by
  have hnonneg := Int.natCast_nonneg (1 <<< (c.d - 1))
  unfold Config.sMin
  split
  · omega
  · exact Int.le_refl 0

theorem sMax_bounds (hv : c.Valid) :
    pow2 (c.d - 1) - 1 ≤ c.sMax ∧ c.sMax ≤ 2 * pow2 (c.d - 1) - 1 := by
  have hrange := hv.range
  have hd : c.d = c.dynamicRange := rfl
  have hpos := pow2_pos (c.d - 1)
  have hdouble : pow2 c.d = 2 * pow2 (c.d - 1) := by
    rw [← pow2_succ]
    congr 1
    omega
  unfold Config.sMax
  split
  · show _ ≤ pow2 (c.d - 1) - 1 ∧ pow2 (c.d - 1) - 1 ≤ _
    omega
  · show _ ≤ pow2 c.d - 1 ∧ pow2 c.d - 1 ≤ _
    omega

theorem middle_value (hv : c.Valid)
    (hmiddle : c.signedSamples = true ∨ c.registerSize = c.d + c.omega + 2) :
    predictedSample (clip (register c (atScale c c.sMid)) (atScale c c.sMin)
      (atScale c c.sMax)) = pow2 c.omega := by
  have hrange := hv.range
  have hregister := hv.register
  cases hs : c.signedSamples with
  | true =>
    have hzero : c.sMid = 0 := by rw [Config.sMid, if_pos hs]
    have hmax := (sMax_bounds hv).1
    have hpos := pow2_pos (c.d - 1)
    rw [hzero, predictedSample_level (sMin_nonpos c) (by omega) (by omega) (by omega)]
    · ring
    · have hle := pow2_mono (show c.omega + 2 ≤ c.registerSize - 1 by omega)
      have hposW := pow2_pos (c.omega + 1)
      rw [pow2_succ] at hle
      rw [atScale]
      omega
  | false =>
    have hfull : c.registerSize = c.d + c.omega + 2 :=
      hmiddle.resolve_left fun hsigned => by simp [hs] at hsigned
    exact predictedSample_carry (show 0 < c.dynamicRange by omega) hs hfull

theorem middle_out (hv : c.Valid) (hunsigned : c.signedSamples = false)
    (hwide : c.registerSize ≠ c.d + c.omega + 2) :
    c.sMax < predictedSample (clip (register c (atScale c c.sMid)) (atScale c c.sMin)
      (atScale c c.sMax)) := by
  have hrange := hv.range
  have hregister := hv.register
  have hd : c.d = c.dynamicRange := rfl
  have hmid : c.sMid = pow2 (c.d - 1) := by
    rw [Config.sMid, if_neg (by simp [hunsigned])]
    rfl
  have hmax : c.sMax = 2 * pow2 (c.d - 1) - 1 := by
    rw [Config.sMax, if_neg (by simp [hunsigned]), ← pow2_succ]
    show pow2 c.d - 1 = _
    rw [show c.d - 1 + 1 = c.d by omega]
  have hpos := pow2_pos (c.d - 1)
  have hposW := pow2_pos c.omega
  have hfits : atScale c c.sMid < pow2 (c.registerSize - 1) := by
    have hle := pow2_mono (show c.omega + 2 + (c.d - 1) + 1 ≤ c.registerSize - 1 by omega)
    have hlow := pow2_mono (show c.omega + 2 ≤ c.omega + 2 + (c.d - 1) by omega)
    have hhalf : pow2 (c.omega + 2) = 2 * pow2 (c.omega + 1) := pow2_succ _
    have hpos' := pow2_pos (c.omega + 1)
    rw [pow2_succ, pow2_add (c.omega + 2)] at hle
    rw [pow2_add (c.omega + 2)] at hlow
    rw [atScale, hmid]
    omega
  have hmul : 1 * (2 * pow2 (c.d - 1) + 1) ≤ pow2 c.omega * (2 * pow2 (c.d - 1) + 1) :=
    Int.mul_le_mul_of_nonneg_right (by omega) (by omega)
  have hmin := sMin_nonpos c
  rw [predictedSample_level (by omega) (by omega) (by omega) (by omega) hfits, hmid, hmax]
  omega

/-- The codes of the samples are all numbers of `d` bits, wherever the prediction is. -/
theorem mapped_bijOn (hv : c.Valid) (sHat : Int) :
    Set.BijOn (fun s => mappedQuantizerIndex c (s - sHat) sHat) (Set.Icc c.sMin c.sMax)
      (Set.Iio (2 ^ c.d)) := by
  have hmaps : Set.MapsTo (fun s => mappedQuantizerIndex c (s - sHat) sHat)
      (Set.Icc c.sMin c.sMax) (Set.Iio (2 ^ c.d)) := fun s hs => (mapped_spec hv hs sHat).1
  have hinj : Set.InjOn (fun s => mappedQuantizerIndex c (s - sHat) sHat)
      (Set.Icc c.sMin c.sMax) := by
    intro s hs s' hs' heq
    have hback := (mapped_spec hv hs sHat).2
    have hback' := (mapped_spec hv hs' sHat).2
    rw [show mappedQuantizerIndex c (s - sHat) sHat = _ from heq, hback'] at hback
    omega
  refine ⟨hmaps, hinj, ?_⟩
  have hwidth := range_width hv
  have hcard : (Finset.range (2 ^ c.d)).card ≤ (Finset.Icc c.sMin c.sMax).card := by
    rw [Finset.card_range, Int.card_Icc]
    omega
  have hsurj := Finset.surjOn_of_injOn_of_card_le (s := Finset.Icc c.sMin c.sMax)
    (t := Finset.range (2 ^ c.d)) (fun s => mappedQuantizerIndex c (s - sHat) sHat)
    (by simpa using hmaps) (by simpa using hinj) hcard
  simpa using hsurj

theorem predictorLoop_ok (hv : c.Valid) (hregister : c.registerSize ≤ 63) {image : List UInt16}
    (hlen : image.length = size c) {before : List Pos} (hin : ∀ q ∈ before, q ∈ positions c) :
    ∃ m, predictorLoop c image before (initPredictor c) = .ok m ∧ Good c m := by
  induction before using List.reverseRecOn with
  | nil => exact ⟨initPredictor c, rfl, good_init hv.omega.2⟩
  | append_singleton before p ih =>
    obtain ⟨m, hm, hgood⟩ := ih fun q hq => hin q (List.mem_append_left _ hq)
    have hp := hin p (List.mem_append_right _ (List.mem_singleton_self p))
    obtain ⟨hz, hy, hx⟩ := mem_positions hp
    obtain ⟨v, himage⟩ : ∃ v, image[index c p]? = some v :=
      ⟨_, List.getElem?_eq_getElem (hlen ▸ index_lt hp)⟩
    have hword := v.toNat_lt
    rw [predictorLoop_append, hm, ok_bind, predictorAt, getSample, fetch_some himage, ok_bind,
      ok_bind]
    by_cases htime : time c p = 0
    · rw [if_pos htime]
      exact ⟨_, rfl, good_store hgood p.z p.y p.x (by omega)⟩
    · rw [if_neg htime]
      have hinside : Inside c p.z p.y p.x := ⟨hz, hy, hx, Nat.pos_of_ne_zero htime⟩
      obtain ⟨pred, hpred, hulen, hus, -⟩ := predict_ok hv hregister hgood hinside
      rw [hpred, ok_bind]
      exact update_ok hv hgood hinside hulen hus (by omega)

theorem predictsInRange_of_oneRow (hv : c.Valid) (h : OneRow c) : PredictsInRange c := by
  intro image hlen _ before p after hsplit htime
  have hin : ∀ q ∈ before, q ∈ positions c := fun q hq => by simp [hsplit, hq]
  have hp : p ∈ positions c := by simp [hsplit]
  obtain ⟨m, hm, hgood⟩ := predictorLoop_ok hv h.register hlen hin
  obtain ⟨hz, hy, hx⟩ := mem_positions hp
  obtain ⟨pred, hpred, -⟩ := predict_ok hv h.register hgood ⟨hz, hy, hx, htime⟩
  have hz0 : p.z = 0 := by
    rw [h.band] at hz
    exact Nat.lt_one_iff.1 hz
  have hy0 : p.y = 0 := by
    rw [h.row] at hy
    exact Nat.lt_one_iff.1 hy
  have hpred' := hpred
  rw [hz0, hy0] at hpred'
  rw [time, hy0] at htime
  have hvalue := (predict_flat hpred' htime (localSum_narrow h.narrow _ _)
    fun us hus => buildU_first hus).2
  refine ⟨m, pred, hm, hpred, ?_⟩
  rw [hvalue, middle_value hv h.middle]
  refine ⟨⟨?_, h.small⟩, mapped_bijOn hv _, fun _ _ hwide => ?_⟩
  · exact Int.le_trans (sMin_nonpos c) (Int.le_of_lt (pow2_pos c.omega))
  · have hnarrow := h.narrow
    cases hwide with
    | inl hw => simp [hw] at hnarrow
    | inr hw => simp [hw] at hnarrow

/-! ## Images that are predicted out of range -/

/-- The sample below the middle of the unsigned range, the largest of the signed one. -/
def level (c : Config) : UInt16 := .ofNat (2 ^ (c.d - 1) - 1)

theorem level_spec (hv : c.Valid) :
    ((level c).toNat : Int) = pow2 (c.d - 1) - 1 ∧ c.InRange (level c) := by
  have hrange := hv.range
  have hd : c.d = c.dynamicRange := rfl
  have hpow : 2 ^ (c.d - 1) ≤ 2 ^ 15 := Nat.pow_le_pow_right (by omega) (by omega)
  have hpos := Nat.two_pow_pos (c.d - 1)
  have hval : (level c).toNat = 2 ^ (c.d - 1) - 1 :=
    UInt16.toNat_ofNat_of_lt' (show _ < 65536 by omega)
  have hdouble : 2 ^ c.d = 2 * 2 ^ (c.d - 1) := by
    rw [Nat.mul_comm, ← Nat.pow_succ]
    congr 1
    omega
  have hsample : c.sample (level c) = (level c).toNat := by
    rw [Config.sample, if_neg]
    simp
    omega
  refine ⟨by rw [hval, pow2, Nat.one_shiftLeft]; omega, ?_⟩
  have hmin := sMin_nonpos c
  rw [Config.InRange, hsample, hval]
  refine ⟨by omega, ?_⟩
  unfold Config.sMax
  rw [Nat.one_shiftLeft, Nat.one_shiftLeft]
  split <;> omega

theorem level_out (hv : c.Valid) {pred : Prediction}
    (hpred : pred.sTilde = clip (register c (atScale c (level c).toNat)) (atScale c c.sMin)
      (atScale c c.sMax)) : c.sMax < predictedSample pred.sTilde := by
  have hrange := hv.range
  have homega := hv.omega
  have hregister := hv.register
  have hd : c.d = c.dynamicRange := rfl
  obtain ⟨hlevel, hin⟩ := level_spec hv
  have hhalf := pow2_mono (show 1 ≤ c.d - 1 by omega)
  have htwo : pow2 1 = 2 := rfl
  have hsixteen := pow2_mono homega.1
  have hsixteen' : pow2 4 = 16 := rfl
  have hmax := sMax_bounds hv
  have hfits : atScale c (level c).toNat < pow2 (c.registerSize - 1) := by
    have hle := pow2_mono (show c.omega + 2 + (c.d - 1) ≤ c.registerSize - 1 by omega)
    have hfour : pow2 (c.omega + 2) = 2 * pow2 (c.omega + 1) := pow2_succ _
    have hpos := pow2_pos (c.omega + 1)
    rw [pow2_add] at hle
    rw [atScale, hlevel, Int.mul_sub, Int.mul_one]
    omega
  have hmul : 16 * (2 * (pow2 (c.d - 1) - 1) + 1) ≤
      pow2 c.omega * (2 * (pow2 (c.d - 1) - 1) + 1) :=
    Int.mul_le_mul_of_nonneg_right (by omega) (by omega)
  rw [hpred, predictedSample_level (Int.le_trans (sMin_nonpos c) (by omega)) (by omega)
    (by omega) (by omega) hfits, hlevel]
  omega

theorem mem_positions_of {z y x : Nat} (hz : z < c.nz.toNat) (hy : y < c.ny.toNat)
    (hx : x < c.nx.toNat) : (⟨z, y, x⟩ : Pos) ∈ positions c :=
  List.mem_flatMap.2 ⟨z, List.mem_range.2 hz, List.mem_flatMap.2 ⟨y, List.mem_range.2 hy,
    List.mem_map.2 ⟨x, List.mem_range.2 hx, rfl⟩⟩⟩

/-- The image whose samples are all at the level. -/
def flat (c : Config) : List UInt16 := List.replicate (size c) (level c)

theorem getSample_flat {q : Pos} (hq : q ∈ positions c) :
    getSample c (flat c) q = .ok ((level c).toNat : Int) := by
  have hget : (flat c)[index c q]? = some (level c) :=
    List.getElem?_replicate_of_lt (index_lt hq)
  rw [getSample, fetch_some hget, ok_bind]

structure Reached (c : Config) (image : List UInt16) (p : Pos) (m : Predictor)
    (pred : Prediction) : Prop where
  state : ∃ before after, positions c = before ++ p :: after ∧
    predictorLoop c image before (initPredictor c) = .ok m
  predicted : predict c m p.z p.y p.x = .ok pred
  sound : Sound c image p (predictedSample pred.sTilde)

theorem PredictsInRange.reached (h : PredictsInRange c) {image : List UInt16}
    (hlen : image.length = size c) (hrange : ∀ v ∈ image, c.InRange v) {p : Pos}
    (hp : p ∈ positions c) (htime : 0 < time c p) : ∃ m pred, Reached c image p m pred := by
  obtain ⟨before, after, hsplit⟩ := List.append_of_mem hp
  obtain ⟨m, pred, hm, hpred, hsound⟩ := h image hlen hrange before p after hsplit htime
  exact ⟨m, pred, ⟨before, after, hsplit, hm⟩, hpred, hsound⟩

theorem Reached.fetch_cell {image : List UInt16} {p q : Pos} {m : Predictor} {pred : Prediction}
    (h : Reached c image p m pred) (hq : q ∈ positions c) (hlt : index c q < index c p) {v : Int}
    (hsame : ∀ q' ∈ positions c, cell c q' = cell c q → getSample c image q' = .ok v) :
    fetch m.srBuf (cell c q) = .ok v := by
  obtain ⟨before, after, hsplit, hm⟩ := h.state
  have hin : ∀ q' ∈ before, q' ∈ positions c := fun q' hq' => by simp [hsplit, hq']
  exact fetch_some ((predictorLoop_cell hin hm).2 _ v ⟨q, mem_before hsplit hq hlt, rfl⟩
    fun q' hq' => hsame q' (hin q' hq'))

theorem flat_reached (hv : c.Valid) (h : PredictsInRange c) {p : Pos} (hp : p ∈ positions c)
    (htime : 0 < time c p) : ∃ m pred, Reached c (flat c) p m pred ∧
      ∀ q ∈ positions c, index c q < index c p →
        fetch m.srBuf (cell c q) = .ok ((level c).toNat : Int) := by
  obtain ⟨m, pred, hreached⟩ := h.reached (List.length_replicate)
    (fun v hmem => (List.mem_replicate.1 hmem).2 ▸ (level_spec hv).2) hp htime
  exact ⟨m, pred, hreached, fun q hq hlt =>
    hreached.fetch_cell hq hlt fun q' hq' _ => getSample_flat hq'⟩

theorem one_row (hv : c.Valid) (h : PredictsInRange c) : c.ny.toNat = 1 := by
  have hx : 0 < c.nx.toNat := Nat.pos_of_ne_zero fun hz => hv.nx (UInt16.toNat.inj hz)
  have hy : 0 < c.ny.toNat := Nat.pos_of_ne_zero fun hz => hv.ny (UInt16.toNat.inj hz)
  have hz : 0 < c.nz.toNat := Nat.pos_of_ne_zero fun hz => hv.nz (UInt16.toNat.inj hz)
  by_contra hne
  have hp : (⟨0, 1, 0⟩ : Pos) ∈ positions c := mem_positions_of hz (by omega) hx
  obtain ⟨m, pred, hreached, hcells⟩ := flat_reached hv h hp (by simp [time]; omega)
  have hfetch : ∀ x < c.nx.toNat, fetch m.srBuf (slot c 0 0 x) = .ok ((level c).toNat : Int) := by
    intro x hlt
    refine hcells ⟨0, 0, x⟩ (mem_positions_of hz hy hlt) ?_
    simp only [index]
    omega
  have hwide : c.localSumType = .wideNeighbor ∨ c.localSumType = .narrowNeighbor →
      1 < c.nx.toNat := by
    intro hneighbor
    by_contra hone
    exact hv.neighbor ⟨UInt16.toNat.inj (show c.nx.toNat = 1 by omega), hneighbor⟩
  have hsum : localSumWithBuf c m.srBuf 0 1 0 = .ok (4 * ((level c).toNat : Int)) := by
    have hfirst := hfetch 0 hx
    cases htype : c.localSumType with
    | wideNeighbor =>
      have hsecond := hfetch 1 (hwide (.inl htype))
      simp [localSumWithBuf, localTaps, htype, sumTaps, hfirst, hsecond]
      ring
    | narrowNeighbor =>
      have hsecond := hfetch 1 (hwide (.inr htype))
      simp [localSumWithBuf, localTaps, htype, sumTaps, hfirst, hsecond]
      ring
    | wideColumn => simp [localSumWithBuf, localTaps, htype, sumTaps, hfirst]
    | narrowColumn => simp [localSumWithBuf, localTaps, htype, sumTaps, hfirst]
  have hflat : ∀ us, buildUWithBuf c m.srBuf (4 * ((level c).toNat : Int)) 0 1 0 = .ok us →
      ∀ u ∈ us, u = 0 := by
    intro us hus
    have hfirst := hfetch 0 hx
    unfold buildUWithBuf at hus
    cases hmode : c.mode with
    | full =>
      simp [hmode, directionalDiffs, directionalDiff, spectralDiffs, hfirst] at hus
      simp [← hus]
    | reduced =>
      simp [hmode, spectralDiffs] at hus
      simp [hus]
  obtain ⟨-, hvalue⟩ := predict_flat hreached.predicted (by simp; omega) hsum hflat
  have hout := level_out hv hvalue
  have hin := hreached.sound.range.2
  omega

def middle (c : Config) : UInt16 := .ofNat c.sMid.toNat

theorem middle_spec (hv : c.Valid) : ((middle c).toNat : Int) = c.sMid ∧ c.InRange (middle c) := by
  have hrange := hv.range
  have hd : c.d = c.dynamicRange := rfl
  have hbound := natAbs_sMid_le hv
  have hmax := sMax_bounds hv
  have hmin := sMin_nonpos c
  have hpos := pow2_pos (c.d - 1)
  have hmid : 0 ≤ c.sMid ∧ (c.signedSamples = true → c.sMid = 0) ∧ c.sMid ≤ c.sMax := by
    unfold Config.sMid
    cases hs : c.signedSamples with
    | true => simp; omega
    | false =>
      have htop : c.sMax = pow2 c.d - 1 := by
        rw [Config.sMax, if_neg (by simp [hs])]
        rfl
      have hdouble : pow2 c.d = 2 * pow2 (c.d - 1) := by
        rw [← pow2_succ]
        congr 1
        omega
      have hp2 : ((1 <<< (c.d - 1) : Nat) : Int) = pow2 (c.d - 1) := rfl
      simp only [Bool.false_eq_true, if_false, hp2, false_imp_iff, true_and]
      omega
  have hval : (middle c).toNat = c.sMid.toNat :=
    UInt16.toNat_ofNat_of_lt' (show _ < 65536 by omega)
  have hsample : c.sample (middle c) = (middle c).toNat := by
    rw [Config.sample, if_neg]
    intro hneg
    rw [Bool.and_eq_true, decide_eq_true_iff] at hneg
    have hzero := hmid.2.1 hneg.1
    omega
  rw [Config.InRange, hsample]
  omega

def step (c : Config) : List UInt16 := level c :: List.replicate (size c - 1) (middle c)

theorem eq_of_cell {x : Nat} {q : Pos} (hrow : c.ny.toNat = 1) (hx : x < c.nx.toNat)
    (hq : q ∈ positions c) (hcell : cell c q = cell c ⟨0, 0, x⟩) : q = ⟨0, 0, x⟩ := by
  obtain ⟨z, y, x'⟩ := q
  obtain ⟨-, hy, -⟩ := mem_positions hq
  have hy0 : y = 0 := Nat.lt_one_iff.1 (hrow ▸ hy)
  simp only [cell, slot, hy0, Nat.zero_mod, Nat.zero_mul, Nat.zero_add, Nat.add_zero] at hcell
  have hz0 : z = 0 := by
    by_contra hz
    have hmul := Nat.mul_le_mul_right c.nx.toNat (show 2 ≤ z * 2 by omega)
    omega
  simp only [hz0, Nat.zero_mul, Nat.zero_add] at hcell
  rw [hz0, hy0, hcell]

theorem spectralDiffs_middle {sr : List Int} {vs : List Int}
    (hnarrow : c.localSumType = .narrowNeighbor ∨ c.localSumType = .narrowColumn)
    (hfetch : fetch sr (slot c 0 0 1) = .ok c.sMid)
    (h : spectralDiffs c sr 1 0 1 (List.range' 1 (min 1 c.p)) = .ok vs) : ∀ v ∈ vs, v = 0 := by
  cases hp : c.p with
  | zero =>
    rw [hp] at h
    cases h
    simp
  | succ p =>
    have hone : List.range' 1 (min 1 (p + 1)) = [1] := by
      rw [Nat.min_eq_left (by omega)]
      rfl
    rw [hp, hone] at h
    simp [spectralDiffs, localSum_narrow hnarrow, hfetch] at h
    simp [← h]

theorem one_band (hv : c.Valid) (h : PredictsInRange c) (hmany : c.nx.toNat * c.ny.toNat ≠ 1)
    (hnarrow : c.localSumType = .narrowNeighbor ∨ c.localSumType = .narrowColumn) :
    c.nz.toNat = 1 := by
  have hrow := one_row hv h
  have hx : 0 < c.nx.toNat := Nat.pos_of_ne_zero fun hz => hv.nx (UInt16.toNat.inj hz)
  have hz : 0 < c.nz.toNat := Nat.pos_of_ne_zero fun hz => hv.nz (UInt16.toNat.inj hz)
  rw [hrow, Nat.mul_one] at hmany
  by_contra hne
  have hp : (⟨1, 0, 1⟩ : Pos) ∈ positions c := mem_positions_of (by omega) (by omega) (by omega)
  have hp₁ : (⟨0, 0, 1⟩ : Pos) ∈ positions c := mem_positions_of hz (by omega) (by omega)
  have hlt := index_lt hp₁
  have hlen : (step c).length = size c := by
    rw [step, List.length_cons, List.length_replicate]
    omega
  have hrange : ∀ v ∈ step c, c.InRange v := by
    intro v hmem
    rw [step, List.mem_cons, List.mem_replicate] at hmem
    cases hmem with
    | inl hfirst => exact hfirst ▸ (level_spec hv).2
    | inr hrest => exact hrest.2 ▸ (middle_spec hv).2
  obtain ⟨m, pred, hreached⟩ := h.reached hlen hrange hp (by simp [time])
  have hfirst : fetch m.srBuf (slot c 0 0 0) = .ok ((level c).toNat : Int) := by
    refine hreached.fetch_cell (q := ⟨0, 0, 0⟩) (mem_positions_of hz (by omega) hx)
      (by simp [index]) fun q hq hcell => ?_
    rw [eq_of_cell hrow hx hq hcell]
    simp [getSample, index, step, fetch]
  have hsecond : fetch m.srBuf (slot c 0 0 1) = .ok c.sMid := by
    refine hreached.fetch_cell (q := ⟨0, 0, 1⟩) hp₁ (by simp [index, hrow]; omega)
      fun q hq hcell => ?_
    have hget : (step c)[index c ⟨0, 0, 1⟩]? = some (middle c) := by
      rw [show index c ⟨0, 0, 1⟩ = 0 + 1 by simp [index], step, List.getElem?_cons_succ]
      simp only [index, Nat.zero_mul, Nat.zero_add] at hlt
      exact List.getElem?_replicate_of_lt (by omega)
    rw [eq_of_cell hrow (by omega) hq hcell, getSample, fetch_some hget, ok_bind,
      (middle_spec hv).1]
  have hsum : localSumWithBuf c m.srBuf 1 0 1 = .ok (4 * ((level c).toNat : Int)) := by
    cases hnarrow with
    | inl htype => simp [localSumWithBuf, localTaps, htype, sumTaps, hrow, hfirst]
    | inr htype => simp [localSumWithBuf, localTaps, htype, sumTaps, hrow, hfirst]
  have hflat : ∀ us, buildUWithBuf c m.srBuf (4 * ((level c).toNat : Int)) 1 0 1 = .ok us →
      ∀ u ∈ us, u = 0 := by
    intro us hus
    unfold buildUWithBuf at hus
    cases hmode : c.mode with
    | full =>
      rw [hmode] at hus
      obtain ⟨ds, hds, hus⟩ := bind_ok hus
      obtain ⟨vs, hvs, hus⟩ := bind_ok hus
      cases hds
      cases hus
      simpa using spectralDiffs_middle hnarrow hsecond hvs
    | reduced =>
      rw [hmode] at hus
      exact spectralDiffs_middle hnarrow hsecond hus
  obtain ⟨-, hvalue⟩ := predict_flat hreached.predicted (by simp) hsum hflat
  have hout := level_out hv hvalue
  have hin := hreached.sound.range.2
  omega

theorem narrow_sums (hv : c.Valid) (h : PredictsInRange c)
    (hmany : c.nx.toNat * c.ny.toNat ≠ 1) :
    c.localSumType = .narrowNeighbor ∨ c.localSumType = .narrowColumn := by
  have hrow := one_row hv h
  have hx : 0 < c.nx.toNat := Nat.pos_of_ne_zero fun hz => hv.nx (UInt16.toNat.inj hz)
  have hz : 0 < c.nz.toNat := Nat.pos_of_ne_zero fun hz => hv.nz (UInt16.toNat.inj hz)
  rw [hrow, Nat.mul_one] at hmany
  have hp : (⟨0, 0, 1⟩ : Pos) ∈ positions c := mem_positions_of hz (by omega) (by omega)
  obtain ⟨m, pred, hreached, hcells⟩ := flat_reached hv h hp (by simp [time])
  have hfirst : fetch m.srBuf (slot c 0 0 0) = .ok ((level c).toNat : Int) :=
    hcells ⟨0, 0, 0⟩ (mem_positions_of hz (by omega) hx) (by simp [index])
  by_contra hwide
  have hsum : localSumWithBuf c m.srBuf 0 0 1 = .ok (4 * ((level c).toNat : Int)) := by
    cases htype : c.localSumType with
    | wideNeighbor => simp [localSumWithBuf, localTaps, htype, sumTaps, hfirst]
    | wideColumn => simp [localSumWithBuf, localTaps, htype, sumTaps, hfirst]
    | narrowNeighbor => simp [htype] at hwide
    | narrowColumn => simp [htype] at hwide
  obtain ⟨-, hvalue⟩ := predict_flat hreached.predicted (by simp) hsum fun us hus =>
    buildU_first hus
  have hout := level_out hv hvalue
  have hin := hreached.sound.range.2
  omega

theorem oneRow_of_predictsInRange (hv : c.Valid) (h : PredictsInRange c)
    (hmany : c.nx.toNat * c.ny.toNat ≠ 1) : OneRow c := by
  have hrow := one_row hv h
  have hnarrow := narrow_sums hv h hmany
  have hband := one_band hv h hmany hnarrow
  have hx : 0 < c.nx.toNat := Nat.pos_of_ne_zero fun hz => hv.nx (UInt16.toNat.inj hz)
  rw [hrow, Nat.mul_one] at hmany
  have hp : (⟨0, 0, 1⟩ : Pos) ∈ positions c := mem_positions_of (by omega) (by omega) (by omega)
  obtain ⟨m, pred, hreached, -⟩ := flat_reached hv h hp (by simp [time])
  obtain ⟨hnarrowRegister, hvalue⟩ := predict_flat hreached.predicted (by simp)
    (localSum_narrow hnarrow m.srBuf 1) fun us hus => buildU_first hus
  have hin := hreached.sound.range.2
  rw [hvalue] at hin
  have hmiddle : c.signedSamples = true ∨ c.registerSize = c.d + c.omega + 2 := by
    by_contra hneither
    rw [not_or, Bool.not_eq_true] at hneither
    have hout := middle_out hv hneither.1 hneither.2
    omega
  rw [middle_value hv hmiddle] at hin
  exact ⟨hnarrowRegister, hnarrow, UInt16.toNat.inj hrow, UInt16.toNat.inj hband, hin, hmiddle⟩

/-- All predictions are in the range of the samples exactly when bands have one sample, or the
image is one row of one band under narrow sums with a small resolution. -/
theorem predictsInRange_iff (c : Config) (hv : c.validate = .ok ()) :
    PredictsInRange c ↔ c.nx.toNat * c.ny.toNat = 1 ∨ OneRow c := by
  have hvalid := Config.valid_of_validate hv
  constructor
  · intro h
    by_cases hone : c.nx.toNat * c.ny.toNat = 1
    · exact .inl hone
    · exact .inr (oneRow_of_predictsInRange hvalid h hone)
  · intro h
    cases h with
    | inl hone =>
      intro image _ _ before p after hsplit htime
      have hp : p ∈ positions c := by simp [hsplit]
      obtain ⟨-, hy, hx⟩ := mem_positions hp
      have hmany := one_lt_of_time hy hx htime
      omega
    | inr hrow => exact predictsInRange_of_oneRow hvalid hrow

/-- A row of two signed samples under narrow sums. -/
theorem predictsInRange_two :
    PredictsInRange { twoSamples with localSumType := .narrowColumn, omega := 4 } :=
  (predictsInRange_iff _ rfl).2 (.inr
    ⟨by decide, .inr rfl, rfl, rfl, by decide, .inl rfl⟩)

/-- Two equal samples of eight bits: the second one is predicted as 24576. -/
theorem predicted_out_of_range :
    (∃ m pred, predictorLoop { twoSamples with signedSamples := false } [1, 1] [⟨0, 0, 0⟩]
        (initPredictor { twoSamples with signedSamples := false }) = .ok m ∧
      predict { twoSamples with signedSamples := false } m 0 0 1 = .ok pred ∧
      predictedSample pred.sTilde = 24576 ∧
      mappedQuantizerIndex { twoSamples with signedSamples := false } (1 - 24576) 24576 = 254) ∧
    ¬ PredictsInRange { twoSamples with signedSamples := false } := by
  have hrun : ∃ m pred, predictorLoop { twoSamples with signedSamples := false } [1, 1]
        [⟨0, 0, 0⟩] (initPredictor { twoSamples with signedSamples := false }) = .ok m ∧
      predict { twoSamples with signedSamples := false } m 0 0 1 = .ok pred ∧
      predictedSample pred.sTilde = 24576 ∧
      mappedQuantizerIndex { twoSamples with signedSamples := false } (1 - 24576) 24576 = 254 :=
    ⟨_, _, rfl, rfl, rfl, rfl⟩
  refine ⟨hrun, fun h => ?_⟩
  obtain ⟨m, pred, hm, hpred, hvalue, -⟩ := hrun
  obtain ⟨m', pred', hm', hpred', hsound⟩ := h [1, 1] rfl (forall_two (by decide) (by decide))
    [⟨0, 0, 0⟩] ⟨0, 0, 1⟩ [] rfl (by decide)
  rw [hm, Except.ok.injEq] at hm'
  rw [← hm', hpred, Except.ok.injEq] at hpred'
  have htop := hsound.range.2
  rw [← hpred', hvalue] at htop
  exact absurd htop (by decide)

end Range

end Ccsds123
end Compression
end Leodos
