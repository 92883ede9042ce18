/-
Samples that leave the transform room.

Where overflow is checked a level of samples below 2^29 passes, and its low coefficients are at
most one and a half times as large.  So five levels pass on samples below 2^26.  Where overflow
is not checked every level passes.
-/
import Mathlib.Tactic.Linarith
import Leodos.Compression.Iwt.Levels

namespace Leodos
namespace Compression
namespace Iwt

open Memory

/-- Where overflow is checked, the samples are no larger than `A`. -/
def Small (checks : Bool) (A : Nat) (x : List Int32) : Prop :=
  checks = true → ∀ v ∈ x, v.toInt.natAbs ≤ A

variable {checks : Bool} {A : Nat} {x h : List Int32}

theorem add_eq {a b : Int32} (hin : checks = true → InRange (a.toInt + b.toInt)) :
    ∃ d, add checks a b = some d ∧ (checks = true → d.toInt = a.toInt + b.toInt) :=
  ⟨a + b, if_neg fun hover => hover.2 (hin hover.1), fun hc => toInt_add_of_inRange (hin hc)⟩

theorem sub_eq {a b : Int32} (hin : checks = true → InRange (a.toInt - b.toInt)) :
    ∃ d, sub checks a b = some d ∧ (checks = true → d.toInt = a.toInt - b.toInt) :=
  ⟨a - b, if_neg fun hover => hover.2 (hin hover.1), fun hc => toInt_sub_of_inRange (hin hc)⟩

theorem toInt_div_two (a : Int32) :
    -1 ≤ 2 * (a / 2).toInt - a.toInt ∧ 2 * (a / 2).toInt - a.toInt ≤ 1 := by
  have hdiv : (a / 2).toInt = a.toInt.tdiv 2 :=
    Int32.toInt_div_of_ne_right a 2 (by decide)
  have hsum := Int.mul_tdiv_add_tmod a.toInt 2
  have hlt := Int.tmod_lt_of_pos a.toInt (b := 2) (by decide)
  have hgt := Int.lt_tmod_of_pos a.toInt (b := 2) (by decide)
  omega

theorem toInt_div_four (a : Int32) :
    -3 ≤ 4 * (a / 4).toInt - a.toInt ∧ 4 * (a / 4).toInt - a.toInt ≤ 3 := by
  have hdiv : (a / 4).toInt = a.toInt.tdiv 4 :=
    Int32.toInt_div_of_ne_right a 4 (by decide)
  have hsum := Int.mul_tdiv_add_tmod a.toInt 4
  have hlt := Int.tmod_lt_of_pos a.toInt (b := 4) (by decide)
  have hgt := Int.lt_tmod_of_pos a.toInt (b := 4) (by decide)
  omega

theorem natAbs_le_iff {z : Int} {n : Nat} : z.natAbs ≤ n ↔ -(n : Int) ≤ z ∧ z ≤ n := by
  omega

theorem Small.getElem? (hx : Small checks A x) {i : Nat} (hi : i < x.length) :
    ∃ v, x[i]? = some v ∧ (checks = true → v.toInt.natAbs ≤ A) :=
  ⟨x.get ⟨i, hi⟩, List.getElem?_eq_getElem hi, fun hc => hx hc _ (List.get_mem ..)⟩

/-- A high coefficient, between the even samples `e` and `e'`, the second of which stands for the
sample behind the last one as well. -/
structure HighCoefficient (checks : Bool) (A : Nat) (x : List Int32) (k : Nat) (d : Int32) :
    Prop where
  bounds : checks = true → ∃ y e e' : Int32, x[2 * k + 1]? = some y ∧ x[2 * k]? = some e ∧
    y.toInt.natAbs ≤ A ∧ e.toInt.natAbs ≤ A ∧ e'.toInt.natAbs ≤ A ∧
    (2 * k + 2 < x.length → x[2 * k + 2]? = some e') ∧
    -1 ≤ 2 * d.toInt - 2 * y.toInt + e.toInt + e'.toInt ∧
    2 * d.toInt - 2 * y.toInt + e.toInt + e'.toInt ≤ 1

theorem Small.highAt (hx : Small checks A x) (hA : A < 2 ^ 29) {k : Nat} (hk : k < x.length / 2) :
    ∃ d, highAt checks x k = some d ∧ HighCoefficient checks A x k d := by
  obtain ⟨y, hy, hyA⟩ := hx.getElem? (i := 2 * k + 1) (by omega)
  obtain ⟨e, he, heA⟩ := hx.getElem? (i := 2 * k) (by omega)
  rw [Iwt.highAt, hy, he]
  by_cases hlast : k = x.length / 2 - 1 ∧ x.length % 2 = 0
  · obtain ⟨d, hd, hdv⟩ := @sub_eq checks y e fun hc => by
      have hyc := hyA hc
      have hec := heA hc
      rw [natAbs_le_iff] at hyc hec
      unfold InRange
      omega
    refine ⟨d, by rw [if_pos hlast]; exact hd, ⟨fun hc => ⟨y, e, e, hy, he, hyA hc, heA hc,
      heA hc, fun hlt => absurd hlt (by omega), ?_⟩⟩⟩
    have hvalue := hdv hc
    omega
  · obtain ⟨e', he', heA'⟩ := hx.getElem? (i := 2 * k + 2) (by omega)
    obtain ⟨s, hs, hsv⟩ := @add_eq checks e e' fun hc => by
      have hec := heA hc
      have hec' := heA' hc
      rw [natAbs_le_iff] at hec hec'
      unfold InRange
      omega
    have hhalf := toInt_div_two s
    obtain ⟨d, hd, hdv⟩ := @sub_eq checks y (s / 2) fun hc => by
      have hyc := hyA hc
      have hec := heA hc
      have hec' := heA' hc
      have hsc := hsv hc
      rw [natAbs_le_iff] at hyc hec hec'
      unfold InRange
      omega
    refine ⟨d, ?_, ⟨fun hc => ⟨y, e, e', hy, he, hyA hc, heA hc, heA' hc, fun _ => he', ?_⟩⟩⟩
    · rw [if_neg hlast, he']
      show (add checks e e').bind (fun s => sub checks y (s / 2)) = some d
      rw [hs]
      exact hd
    · have hsc := hsv hc
      have hvalue := hdv hc
      omega

theorem HighCoefficient.le {k : Nat} {d : Int32} (hd : HighCoefficient checks A x k d)
    (hc : checks = true) : -(2 * A : Int) ≤ d.toInt ∧ d.toInt ≤ 2 * A := by
  obtain ⟨y, e, e', -, -, hy, he, he', -, hlo, hhi⟩ := hd.bounds hc
  rw [natAbs_le_iff] at hy he he'
  omega

theorem corrected_le {v u y z e f d d' t : Int} (hv : v.natAbs ≤ A) (hy : y.natAbs ≤ A)
    (hz : z.natAbs ≤ A) (he : e.natAbs ≤ A) (hf : f.natAbs ≤ A)
    (hd : -1 ≤ 2 * d - 2 * y + e + v ∧ 2 * d - 2 * y + e + v ≤ 1)
    (hd' : -1 ≤ 2 * d' - 2 * z + v + f ∧ 2 * d' - 2 * z + v + f ≤ 1)
    (ht : t = d + d' + 2) (hu : -3 ≤ 4 * u - t ∧ 4 * u - t ≤ 3) :
    (v + u).natAbs ≤ (3 * A + 3) / 2 := by
  rw [natAbs_le_iff] at *
  have hupper : 8 * (v + u) ≤ 12 * A + 12 := by linarith
  have hlower : -(12 * A + 12) ≤ 8 * (v + u) := by linarith
  omega

theorem end_corrected_le {v u y e d s : Int} (hv : v.natAbs ≤ A) (hy : y.natAbs ≤ A)
    (he : e.natAbs ≤ A) (hd : -1 ≤ 2 * d - 2 * y + e + v ∧ 2 * d - 2 * y + e + v ≤ 1)
    (hs : s = d + 1) (hu : -1 ≤ 2 * u - s ∧ 2 * u - s ≤ 1) :
    (v + u).natAbs ≤ (3 * A + 3) / 2 := by
  rw [natAbs_le_iff] at *
  have hupper : 4 * (v + u) ≤ 6 * A + 5 := by linarith
  have hlower : -(6 * A + 5) ≤ 4 * (v + u) := by linarith
  omega

theorem updateAt_eq (hA : A < 2 ^ 29) (hlen : 2 ≤ x.length)
    (hhigh : ∀ k < x.length / 2, ∃ d, h[k]? = some d ∧ HighCoefficient checks A x k d) {k : Nat}
    (hk : k < (x.length + 1) / 2) {v : Int32} (hv : x[2 * k]? = some v) :
    ∃ u, updateAt checks ((x.length + 1) / 2) x.length h k = some u ∧
      (checks = true → (v.toInt + u.toInt).natAbs ≤ (3 * A + 3) / 2) := by
  have hone : (1 : Int32).toInt = 1 := rfl
  have htwo : (2 : Int32).toInt = 2 := rfl
  rw [updateAt]
  by_cases hfirst : k = 0
  · obtain ⟨d, hd, hcoeff⟩ := hhigh 0 (by omega)
    obtain ⟨s, hs, hsv⟩ := @add_eq checks d 1 fun hc => by
      have hdc := hcoeff.le hc
      unfold InRange
      omega
    refine ⟨s / 2, ?_, fun hc => ?_⟩
    · rw [if_pos hfirst, hd]
      show (add checks d 1).bind (fun s => some (s / 2)) = some (s / 2)
      rw [hs, Option.bind_some]
    · obtain ⟨y, e, e', -, he?, hy, he, he', -, hlo, hhi⟩ := hcoeff.bounds hc
      rw [hfirst, he?] at hv
      rw [← Option.some.inj hv]
      rw [add_assoc, add_comm e.toInt, ← add_assoc] at hlo hhi
      exact end_corrected_le he hy he' ⟨hlo, hhi⟩ (hsv hc) (toInt_div_two s)
  · have hnextlt : 2 * (k - 1) + 2 < x.length := by omega
    have hprev : 2 * (k - 1) + 2 = 2 * k := by omega
    by_cases hlast : k = (x.length + 1) / 2 - 1 ∧ x.length % 2 ≠ 0
    · obtain ⟨d, hd, hcoeff⟩ := hhigh (k - 1) (by omega)
      obtain ⟨s, hs, hsv⟩ := @add_eq checks d 1 fun hc => by
        have hdc := hcoeff.le hc
        unfold InRange
        omega
      refine ⟨s / 2, ?_, fun hc => ?_⟩
      · rw [if_neg hfirst, if_pos hlast, hd]
        show (add checks d 1).bind (fun s => some (s / 2)) = some (s / 2)
        rw [hs, Option.bind_some]
      · obtain ⟨y, e, e', -, -, hy, he, he', hnext, hlo, hhi⟩ := hcoeff.bounds hc
        have hsame := hnext hnextlt
        rw [hprev, hv] at hsame
        rw [Option.some.inj hsame]
        exact end_corrected_le he' hy he ⟨hlo, hhi⟩ (hsv hc) (toInt_div_two s)
    · obtain ⟨d, hd, hcoeff⟩ := hhigh (k - 1) (by omega)
      obtain ⟨d', hd', hcoeff'⟩ := hhigh k (by omega)
      obtain ⟨s, hs, hsv⟩ := @add_eq checks d d' fun hc => by
        have hdc := hcoeff.le hc
        have hdc' := hcoeff'.le hc
        unfold InRange
        omega
      obtain ⟨t, ht, htv⟩ := @add_eq checks s 2 fun hc => by
        have hdc := hcoeff.le hc
        have hdc' := hcoeff'.le hc
        have hsc := hsv hc
        unfold InRange
        omega
      refine ⟨t / 4, ?_, fun hc => ?_⟩
      · rw [if_neg hfirst, if_neg hlast, hd, hd']
        show ((add checks d d').bind fun s => (add checks s 2).bind fun t => some (t / 4)) =
          some (t / 4)
        rw [hs, Option.bind_some, ht, Option.bind_some]
      · obtain ⟨y, e, e', -, -, hy, he, he', hnext, hlo, hhi⟩ := hcoeff.bounds hc
        obtain ⟨z, f, f', -, hf?, hz, hf, hf', -, hlo', hhi'⟩ := hcoeff'.bounds hc
        have hsame := hnext hnextlt
        rw [hprev, hv] at hsame
        rw [hv] at hf?
        have hve' := Option.some.inj hsame
        have hvf := Option.some.inj hf?
        rw [← hve'] at hlo hhi he'
        rw [← hvf] at hlo' hhi'
        have hsum : t.toInt = d.toInt + d'.toInt + 2 := by rw [htv hc, hsv hc, htwo]
        exact corrected_le he' hy hz he hf' ⟨hlo, hhi⟩ ⟨hlo', hhi'⟩ hsum (toInt_div_four t)

theorem Small.lowAt (hx : Small checks A x) (hA : A < 2 ^ 29) (hlen : 2 ≤ x.length)
    (hhigh : ∀ k < x.length / 2, ∃ d, h[k]? = some d ∧ HighCoefficient checks A x k d) {k : Nat}
    (hk : k < (x.length + 1) / 2) :
    ∃ l, lowAt checks x h k = some l ∧ (checks = true → l.toInt.natAbs ≤ (3 * A + 3) / 2) := by
  obtain ⟨v, hv, -⟩ := hx.getElem? (i := 2 * k) (by omega)
  obtain ⟨u, hu, hbound⟩ := updateAt_eq hA hlen hhigh hk hv
  obtain ⟨l, hl, hlv⟩ := @add_eq checks v u fun hc => by
    have hb := hbound hc
    rw [natAbs_le_iff] at hb
    unfold InRange
    omega
  refine ⟨l, ?_, fun hc => by rw [hlv hc]; exact hbound hc⟩
  rw [Iwt.lowAt, hv]
  show (updateAt checks ((x.length + 1) / 2) x.length h k).bind (fun u => add checks v u) = some l
  rw [hu]
  exact hl

theorem mapM_range_isSome {f : Nat → Option Int32} {n : Nat} (hf : ∀ k < n, ∃ v, f k = some v) :
    ∃ ys, (List.range n).mapM f = some ys := by
  induction n with
  | zero => exact ⟨[], rfl⟩
  | succ n ih =>
    obtain ⟨ys, hys⟩ := ih fun k hk => hf k (Nat.lt_succ_of_lt hk)
    obtain ⟨v, hv⟩ := hf n (Nat.lt_succ_self n)
    obtain ⟨hlen, hget⟩ := mapM_range_eq_some.1 hys
    refine ⟨ys ++ [v], mapM_range_eq_some.2 ⟨by rw [List.length_append, hlen]; rfl, fun k hk => ?_⟩⟩
    by_cases hlast : k = n
    · rw [hlast, hv, ← hlen, List.getElem?_concat_length]
    · rw [List.getElem?_append_left (by omega)]
      exact hget k (by omega)

theorem Small.iwtForwardSingle (hx : Small checks A x) (hA : A < 2 ^ 29) :
    ∃ l h, iwtForwardSingle checks x = some (l, h) ∧ Small checks ((3 * A + 3) / 2) l := by
  rw [Iwt.iwtForwardSingle]
  by_cases hshort : x.length ≤ 1
  · refine ⟨x, [], if_pos hshort, fun hc v hv => ?_⟩
    have hle := hx hc v hv
    omega
  · obtain ⟨h, hh⟩ := mapM_range_isSome (f := Iwt.highAt checks x) (n := x.length / 2)
      fun k hk => by
        obtain ⟨d, hd, -⟩ := hx.highAt hA hk
        exact ⟨d, hd⟩
    have hhigh : ∀ k < x.length / 2, ∃ d, h[k]? = some d ∧ HighCoefficient checks A x k d := by
      intro k hk
      obtain ⟨d, hd, hcoeff⟩ := hx.highAt hA hk
      exact ⟨d, by rw [← hd]; exact ((mapM_range_eq_some.1 hh).2 k hk).symm, hcoeff⟩
    have hlow := fun k hk => hx.lowAt hA (by omega) hhigh (k := k) hk
    obtain ⟨l, hl⟩ := mapM_range_isSome (f := Iwt.lowAt checks x h) (n := (x.length + 1) / 2)
      fun k hk => by
        obtain ⟨v, hv, -⟩ := hlow k hk
        exact ⟨v, hv⟩
    refine ⟨l, h, ?_, fun hc v hv => ?_⟩
    · rw [if_neg hshort]
      show ((List.range (x.length / 2)).mapM (Iwt.highAt checks x)).bind _ = _
      rw [hh]
      show ((List.range ((x.length + 1) / 2)).mapM (Iwt.lowAt checks x h)).bind _ = _
      rw [hl]
      rfl
    · obtain ⟨k, hk, hget⟩ := List.mem_iff_getElem.1 hv
      obtain ⟨hlen, hvalues⟩ := mapM_range_eq_some.1 hl
      obtain ⟨w, hw, hbound⟩ := hlow k (by omega)
      have hsame : l[k]? = some v := by rw [List.getElem?_eq_getElem hk, hget]
      rw [← hvalues k (by omega), hw] at hsame
      rw [← Option.some.inj hsame]
      exact hbound hc

end Iwt
end Compression
end Leodos
