/-
The decoder finds every codeword within 16 symbols.
-/
import Leodos.Assignment.Loop
import Leodos.Coding.ReedSolomon.Codewords
import Leodos.Feedback.Locator

namespace Leodos
namespace Coding
namespace ReedSolomon

open Assignment Feedback Gf256 Polynomial Spp

/-! ## Arrays as polynomials -/

noncomputable def poly (xs : Bytes) : Gf256[X] := ascending (symbols xs) xs.length

@[simp] theorem coeff_poly (xs : Bytes) (i : Nat) : (poly xs).coeff i = symbols xs i := by
  rw [poly, coeff_ascending]
  split
  · rfl
  · next h => rw [symbols_of_le (Nat.le_of_not_lt h)]

theorem poly_ofFn {n : Nat} (f : Fin n → UInt8) {p : Gf256[X]}
    (hlt : ∀ i : Fin n, p.coeff i.1 = ⟨f i⟩) (hge : ∀ i, n ≤ i → p.coeff i = 0) :
    poly (Vector.ofFn f).toList = p := by
  ext i
  rw [coeff_poly]
  by_cases h : i < n
  · rw [symbols_ofFn f h, hlt ⟨i, h⟩]
  · rw [symbols_of_le (by rw [Vector.length_toList]; omega), hge i (Nat.le_of_not_lt h)]

theorem poly_map_mul {n : Nat} (v : Vector UInt8 n) (f : UInt8 → UInt8) (c : Gf256)
    (hf : ∀ s, (⟨f s⟩ : Gf256) = c * ⟨s⟩) : poly (v.map f).toList = C c * poly v.toList := by
  ext i
  rw [coeff_C_mul, coeff_poly, coeff_poly]
  by_cases h : i < n
  · rw [symbols_toList _ h, symbols_toList _ h, Vector.getElem_map, hf]
  · rw [symbols_of_le (by rw [Vector.length_toList]; omega),
      symbols_of_le (by rw [Vector.length_toList]; omega), mul_zero]

theorem poly_zipWith_add {n : Nat} (v w : Vector UInt8 n) :
    poly (Vector.zipWith Gf.add v w).toList = poly v.toList + poly w.toList := by
  ext i
  rw [coeff_add, coeff_poly, coeff_poly, coeff_poly]
  by_cases h : i < n
  · rw [symbols_toList _ h, symbols_toList _ h, symbols_toList _ h, Vector.getElem_zipWith, mk_add]
  · rw [symbols_of_le (by rw [Vector.length_toList]; omega),
      symbols_of_le (by rw [Vector.length_toList]; omega),
      symbols_of_le (by rw [Vector.length_toList]; omega), add_zero]

theorem poly_one : poly one.toList = 1 := by
  apply poly_ofFn
  · intro i
    rw [coeff_one]
    split <;> rfl
  · intro i hi
    rw [coeff_one, if_neg (by have : 0 < PARITY + 1 := by decide
                              omega)]

theorem poly_shifted {v : Vector UInt8 (PARITY + 1)} (h : symbols v.toList PARITY = 0) :
    poly (shifted v).toList = X * poly v.toList := by
  apply poly_ofFn
  · intro i
    obtain ⟨i, hi⟩ := i
    cases i with
    | zero => exact coeff_X_mul_zero _
    | succ j =>
      rw [coeff_X_mul, coeff_poly, symbols_toList v (Nat.lt_of_succ_lt hi)]
      rfl
  · intro i hi
    cases i with
    | zero => exact absurd hi (Nat.not_succ_le_zero PARITY)
    | succ j =>
      rw [coeff_X_mul, coeff_poly]
      rcases Nat.lt_or_ge PARITY j with hj | hj
      · exact symbols_of_le (by rw [Vector.length_toList]; omega)
      · rw [show j = PARITY by omega, h]

theorem poly_sub_eq (p q : Gf256[X]) : p - q = p + q := by
  ext i
  rw [coeff_sub, coeff_add, Gf256.sub_eq]

/-! ## The synthesis -/

theorem mk_getElem? {n : Nat} (v : Vector UInt8 n) {i : Nat} (h : i < n) :
    ∃ s, v[i]? = some s ∧ (⟨s⟩ : Gf256) = symbols v.toList i :=
  ⟨v[i], Vector.getElem?_eq_getElem h, (symbols_toList v h).symm⟩

theorem discrepancy_eq (syn : Vector UInt8 PARITY) {sigma : Vector UInt8 (PARITY + 1)} {l n : Nat}
    (hhead : (poly sigma.toList).coeff 0 = 1) (hdegree : (poly sigma.toList).natDegree ≤ l)
    (hl : l ≤ n) (hn : n < PARITY) :
    ∃ delta, discrepancy syn sigma l n = some delta ∧
      (⟨delta⟩ : Gf256) = (poly sigma.toList * poly syn.toList).coeff n := by
  obtain ⟨first, hfirst, hfirstEq⟩ := mk_getElem? syn hn
  have hsum : ∀ k ≤ l, ∃ delta,
      (List.range' 1 k).foldlM (discrepancyStep syn sigma n) first = some delta ∧
      (⟨delta⟩ : Gf256) = ∑ i ∈ Finset.range (k + 1),
        symbols sigma.toList i * symbols syn.toList (n - i) := by
    intro k
    induction k with
    | zero =>
      intro _
      refine ⟨first, rfl, ?_⟩
      rw [coeff_poly] at hhead
      rw [Finset.sum_range_one, hhead, one_mul, Nat.sub_zero, hfirstEq]
    | succ k ih =>
      intro hk
      obtain ⟨delta, hfold, hdelta⟩ := ih (Nat.le_of_succ_le hk)
      obtain ⟨s, hs, hsEq⟩ := mk_getElem? sigma (i := k + 1) (by omega)
      obtain ⟨y, hy, hyEq⟩ := mk_getElem? syn (i := n - (k + 1)) (by omega)
      have hstep : discrepancyStep syn sigma n delta (k + 1) =
          some (Gf.add delta (Gf.mul s y)) := by
        simp [discrepancyStep, hs, hy, hk.trans hl]
      refine ⟨Gf.add delta (Gf.mul s y), ?_, ?_⟩
      · rw [List.range'_1_concat, List.foldlM_append, hfold]
        change [1 + k].foldlM (discrepancyStep syn sigma n) delta = _
        rw [List.foldlM_cons, Nat.add_comm 1 k, hstep]
        rfl
      · rw [mk_add, mk_mul, hdelta, hsEq, hyEq, Finset.sum_range_succ _ (k + 1)]
  obtain ⟨delta, hfold, hdelta⟩ := hsum l (le_refl l)
  refine ⟨delta, ?_, ?_⟩
  · rw [discrepancy, hfirst]
    exact hfold
  · rw [hdelta, coeff_mul, Finset.Nat.sum_antidiagonal_eq_sum_range_succ
      (fun i j => (poly sigma.toList).coeff i * (poly syn.toList).coeff j)]
    simp only [coeff_poly]
    apply Finset.sum_subset
    · intro i hi
      rw [Finset.mem_range] at hi ⊢
      omega
    · intro i _ hi
      rw [← coeff_poly sigma.toList, coeff_eq_zero_of_natDegree_lt, zero_mul]
      rw [Finset.mem_range] at hi
      omega

/-- What holds of the registers once `n` syndromes are read. -/
structure Found (syn : Vector UInt8 PARITY) (n : Nat) (r : Registers) : Prop where
  synthesis : Synthesis (poly syn.toList) n (poly r.sigma.toList) (X * poly r.oldSigma.toList) r.l
  shortest : ∀ (g : Gf256[X]) (v : Nat), g.coeff 0 = 1 → g.natDegree ≤ v →
    Generates g (poly syn.toList) v PARITY → r.l ≤ v

theorem found_start (syn : Vector UInt8 PARITY) : Found syn 0 ⟨one, one, 0⟩ where
  synthesis := by
    rw [poly_one, mul_one]
    exact Synthesis.start _
  shortest := fun _ v _ _ _ => Nat.zero_le v

theorem found_round {syn : Vector UInt8 PARITY} {n : Nat} {r : Registers} (h : Found syn n r)
    (hn : n < PARITY) : ∃ r', r.round syn n = some r' ∧ Found syn (n + 1) r' := by
  have hsyn := h.synthesis
  obtain ⟨delta, hdelta, hdeltaEq⟩ :=
    discrepancy_eq syn hsyn.head hsyn.degree hsyn.le hn
  have hshift : poly (shifted r.oldSigma).toList = X * poly r.oldSigma.toList := by
    apply poly_shifted
    have hdeg := hsyn.aux_degree
    rw [← coeff_poly, ← coeff_X_mul]
    exact coeff_eq_zero_of_natDegree_lt (by omega)
  rw [Registers.round, hdelta]
  by_cases hzero : delta = 0
  · have hnone : (poly r.sigma.toList * poly syn.toList).coeff n = 0 := by
      rw [← hdeltaEq, hzero, mk_zero]
    refine ⟨⟨r.sigma, shifted r.oldSigma, r.l⟩, ?_, ?_, h.shortest⟩
    · simp [hzero]
    · rw [hshift]
      exact hsyn.keep hnone
  · have hsome : (poly r.sigma.toList * poly syn.toList).coeff n ≠ 0 := by
      rw [← hdeltaEq, Ne, mk_eq_zero]
      exact hzero
    have hsigma : poly (Vector.zipWith Gf.add r.sigma
        ((shifted r.oldSigma).map (Gf.mul delta))).toList =
        poly r.sigma.toList - C ((poly r.sigma.toList * poly syn.toList).coeff n) *
          (X * poly r.oldSigma.toList) := by
      rw [poly_zipWith_add, poly_map_mul _ _ ⟨delta⟩ fun s => mk_mul delta s, hshift, poly_sub_eq,
        hdeltaEq]
    by_cases hl : 2 * r.l ≤ n
    · refine ⟨⟨Vector.zipWith Gf.add r.sigma ((shifted r.oldSigma).map (Gf.mul delta)),
        r.sigma.map fun s => Gf.mul s (Gf.inv delta), n + 1 - r.l⟩, ?_, ?_, ?_⟩
      · simp [hzero, hl]
      · have hold : poly (r.sigma.map fun s => Gf.mul s (Gf.inv delta)).toList =
            C ((poly r.sigma.toList * poly syn.toList).coeff n)⁻¹ * poly r.sigma.toList := by
          apply poly_map_mul
          intro s
          rw [mk_mul, mk_inv, hdeltaEq, mul_comm]
        rw [hsigma, hold]
        exact hsyn.lengthen hl hsome
      · intro g v hhead hdegree hgen
        exact hsyn.lengthen_le hsome hhead hdegree hgen hn
    · refine ⟨⟨Vector.zipWith Gf.add r.sigma ((shifted r.oldSigma).map (Gf.mul delta)),
        shifted r.oldSigma, r.l⟩, ?_, ?_, h.shortest⟩
      · simp [hzero, hl]
      · rw [hsigma, hshift]
        exact hsyn.repair (by omega)

theorem exists_found (syn : Vector UInt8 PARITY) :
    ∃ r, (List.range PARITY).foldlM (Registers.round syn) ⟨one, one, 0⟩ = some r ∧
      Found syn PARITY r :=
  foldlM_range_of_inv _ (Found syn) PARITY _ (found_start syn)
    fun _ hk _ h => found_round h hk

/-! ## Errors as locators -/

/-- The positions in which two words differ. -/
def wrong (w v : Vector UInt8 N) : Finset (Fin N) := Finset.univ.filter fun p => w[p] ≠ v[p]

def distance (w c : Vector UInt8 N) : Nat := (wrong w c).card

def locatorAt (p : Nat) : Gf256 := alpha ^ (N - 1 - p)

def positionOf (x : Gf256) : Nat := N - 1 - (Gf.log x.byte).toNat

theorem positionOf_locatorAt {p : Nat} (hp : p < N) : positionOf (locatorAt p) = p := by
  have hp' : p < 255 := hp
  rw [positionOf, locatorAt, ← mk_alpha, Gf.log_alpha (show N - 1 - p < 255 by unfold N; omega)]
  unfold N
  omega

theorem locatorAt_inj {p q : Nat} (hp : p < N) (hq : q < N) (h : locatorAt p = locatorAt q) :
    p = q := by
  rw [← positionOf_locatorAt hp, h, positionOf_locatorAt hq]

theorem locatorAt_ne_zero (p : Nat) : locatorAt p ≠ 0 := alpha_pow_ne_zero _

noncomputable def locators (w c : Vector UInt8 N) : Finset Gf256 :=
  (wrong w c).image fun p => locatorAt p.1

/-- What the error at a locator adds to the power sums. -/
def errorAt (w c : Vector UInt8 N) (x : Gf256) : Gf256 :=
  (symbols w.toList (positionOf x) + symbols c.toList (positionOf x)) * x ^ FCR

theorem errorAt_locatorAt (w c : Vector UInt8 N) {p : Nat} (hp : p < N) :
    errorAt w c (locatorAt p) =
      (symbols w.toList p + symbols c.toList p) * locatorAt p ^ FCR := by
  rw [errorAt, positionOf_locatorAt hp]

theorem mem_wrong {w c : Vector UInt8 N} {p : Fin N} :
    p ∈ wrong w c ↔ symbols w.toList p + symbols c.toList p ≠ 0 := by
  rw [wrong, Finset.mem_filter, symbols_toList _ p.2, symbols_toList _ p.2, ← Gf256.sub_eq, Ne, Ne,
    sub_eq_zero, Gf256.mk.injEq]
  exact ⟨And.right, fun h => ⟨Finset.mem_univ p, h⟩⟩

theorem locatorAt_injOn (s : Finset (Fin N)) : Set.InjOn (fun p : Fin N => locatorAt p.1) s :=
  fun p _ q _ h => Fin.ext (locatorAt_inj p.2 q.2 h)

theorem card_locators (w c : Vector UInt8 N) : (locators w c).card = distance w c :=
  Finset.card_image_of_injOn (locatorAt_injOn _)

theorem zero_notMem_locators (w c : Vector UInt8 N) : (0 : Gf256) ∉ locators w c := by
  intro h
  obtain ⟨p, _, hp⟩ := Finset.mem_image.1 h
  exact locatorAt_ne_zero p hp

theorem locatorAt_mem {w c : Vector UInt8 N} {p : Nat} (hp : p < N) :
    locatorAt p ∈ locators w c ↔ symbols w.toList p + symbols c.toList p ≠ 0 := by
  rw [← mem_wrong (p := ⟨p, hp⟩), locators, Finset.mem_image]
  constructor
  · intro h
    obtain ⟨q, hq, hqp⟩ := h
    rwa [← show q = ⟨p, hp⟩ from Fin.ext (locatorAt_inj q.2 hp hqp)]
  · exact fun h => ⟨⟨p, hp⟩, h, rfl⟩

theorem errorAt_ne_zero {w c : Vector UInt8 N} {x : Gf256} (hx : x ∈ locators w c) :
    errorAt w c x ≠ 0 := by
  obtain ⟨p, hp, rfl⟩ := Finset.mem_image.1 hx
  rw [errorAt_locatorAt w c p.2]
  exact mul_ne_zero (mem_wrong.1 hp) (pow_ne_zero _ (locatorAt_ne_zero p))

theorem ofFn_congr_poly {n : Nat} {v : Vector UInt8 n} {a : Nat → Gf256}
    (h : ∀ i < n, symbols v.toList i = a i) : poly v.toList = ascending a n := by
  apply eq_ascending
  · rw [poly, Vector.length_toList]
    exact degree_ascending _ n
  · intro i hi
    rw [coeff_poly, h i hi]

theorem poly_syndromes {w c : Vector UInt8 N} (hc : NoSyndromes c) :
    poly (syndromes w).toList = powerSums (locators w c) (errorAt w c) PARITY := by
  apply ofFn_congr_poly
  intro j hj
  have hsum : horner (symbols w.toList) (alpha ^ (FCR + j)) N =
      horner (fun i => symbols w.toList i + symbols c.toList i) (alpha ^ (FCR + j)) N := by
    rw [horner_add, hc j hj, add_zero]
  rw [symbols_syndromes w hj, hsum, horner_eq_sum, locators,
    Finset.sum_image (locatorAt_injOn _),
    ← Fin.sum_univ_eq_sum_range (fun i => (symbols w.toList i + symbols c.toList i) *
      (alpha ^ (FCR + j)) ^ (N - 1 - i)) N]
  symm
  calc ∑ p ∈ wrong w c, errorAt w c (locatorAt p) * locatorAt p ^ j
      = ∑ p ∈ wrong w c, (symbols w.toList p + symbols c.toList p) *
          (alpha ^ (FCR + j)) ^ (N - 1 - p.1) := by
        apply Finset.sum_congr rfl
        intro p _
        rw [errorAt_locatorAt w c p.2, mul_assoc, ← pow_add, locatorAt, ← pow_mul, ← pow_mul,
          Nat.mul_comm]
    _ = ∑ p : Fin N, (symbols w.toList p + symbols c.toList p) *
          (alpha ^ (FCR + j)) ^ (N - 1 - p.1) := by
        apply Finset.sum_subset (Finset.subset_univ _)
        intro p _ hp
        rw [not_not.1 fun h => hp (mem_wrong.2 h), zero_mul]

theorem found_locator {w c : Vector UInt8 N} (hc : NoSyndromes c) (hdist : distance w c ≤ T)
    {r : Registers} (h : Found (syndromes w) PARITY r) :
    poly r.sigma.toList = locator (locators w c) ∧ r.l = distance w c := by
  have hcard := card_locators w c
  have hsyn := h.synthesis
  have hT : 2 * (locators w c).card ≤ PARITY := by
    have hT : 2 * T ≤ PARITY := by decide
    omega
  have h0 := zero_notMem_locators w c
  have hl : r.l ≤ (locators w c).card := by
    apply h.shortest _ _ (coeff_zero_locator _) (natDegree_locator h0).le
    rw [poly_syndromes hc]
    exact generates_locator h0 _ _
  have hgen := hsyn.generates
  rw [poly_syndromes hc] at hgen
  rw [← hcard]
  exact eq_locator h0 (fun x hx => errorAt_ne_zero hx) hsyn.head hsyn.degree hgen hl hT

/-! ## The search -/

/-- The positions of the roots among the powers, in the order of the search. -/
def rootsOf (sigma : Bytes) (ms : List Nat) : List Nat :=
  (ms.filter fun m => Gf.polyEvalAsc sigma (Gf.exp m) = 0).map fun m => (m + N - 1) % N

theorem rootsOf_cons (sigma : Bytes) (m : Nat) (ms : List Nat) :
    rootsOf sigma (m :: ms) = if Gf.polyEvalAsc sigma (Gf.exp m) = 0 then
      (m + N - 1) % N :: rootsOf sigma ms else rootsOf sigma ms := by
  rw [rootsOf, List.filter_cons]
  split
  · next h => rw [if_pos (of_decide_eq_true h)]; rfl
  · next h => rw [if_neg fun h' => h (decide_eq_true h')]; rfl

theorem take_set {n : Nat} (v : Vector UInt8 n) {i : Nat} (h : i < n) (x : UInt8) :
    (v.set i x).toList.take (i + 1) = v.toList.take i ++ [x] := by
  rw [Vector.toList_set, List.take_succ_eq_append_getElem (by
    rwa [List.length_set, Vector.length_toList]), List.getElem_set_self,
    List.take_set_of_le (le_refl i)]

theorem chienLoop_eq (sigma : Bytes) {numErrors : Nat} (hT : numErrors ≤ T) (ms : List Nat)
    (positions : Vector UInt8 T) {found : Nat} (hfound : found < numErrors) :
    ∃ positions' found', chienLoop sigma numErrors ms positions found = some (positions', found') ∧
      found' = min numErrors (found + (rootsOf sigma ms).length) ∧
      positions'.toList.take found' =
        positions.toList.take found ++
          ((rootsOf sigma ms).take (numErrors - found)).map UInt8.ofNat := by
  induction ms generalizing positions found with
  | nil =>
    refine ⟨positions, found, rfl, ?_, ?_⟩
    · rw [show (rootsOf sigma []).length = 0 from rfl, Nat.add_zero, Nat.min_eq_right hfound.le]
    · rw [show rootsOf sigma [] = [] from rfl, List.take_nil, List.map_nil, List.append_nil]
  | cons m ms ih =>
    rw [chienLoop, rootsOf_cons]
    split
    · next hroot =>
      rw [dif_pos (hfound.trans_le hT)]
      obtain ⟨left, hleft⟩ : ∃ left, numErrors - found = left + 1 :=
        ⟨numErrors - found - 1, by omega⟩
      by_cases hlast : found + 1 = numErrors
      · refine ⟨_, _, if_pos hlast, ?_, ?_⟩
        · rw [List.length_cons]
          omega
        · rw [take_set, hleft, show left = 0 by omega, List.take_succ_cons, List.take_zero]
          rfl
      · obtain ⟨positions', found', hloop, hcount, htake⟩ :=
          ih (positions.set found (UInt8.ofNat ((m + N - 1) % N)) (hfound.trans_le hT))
            (show found + 1 < numErrors by omega)
        refine ⟨positions', found', ?_, ?_, ?_⟩
        · rw [if_neg hlast]
          exact hloop
        · rw [List.length_cons]
          omega
        · rw [htake, take_set, hleft, List.take_succ_cons, List.map_cons, List.append_assoc,
            show numErrors - (found + 1) = left by omega]
          rfl
    · exact ih positions hfound

theorem rootsOf_nodup (sigma : Bytes) : (rootsOf sigma (List.range N)).Nodup := by
  rw [rootsOf]
  apply List.Nodup.map_on
  · intro m hm m' hm' h
    have hlt : m < 255 := List.mem_range.1 (List.mem_filter.1 hm).1
    have hlt' : m' < 255 := List.mem_range.1 (List.mem_filter.1 hm').1
    unfold N at h
    omega
  · exact List.nodup_range.filter _

theorem lt_of_mem_rootsOf {sigma : Bytes} {p : Nat} (h : p ∈ rootsOf sigma (List.range N)) :
    p < N := by
  obtain ⟨m, _, rfl⟩ := List.mem_map.1 h
  exact Nat.mod_lt _ (by decide)

theorem chienSearch_eq (sigma : Vector UInt8 (PARITY + 1)) {numErrors : Nat} (hpos : 0 < numErrors)
    (hT : numErrors ≤ T) :
    ∃ positions, chienSearch sigma numErrors = some (if numErrors ≤
        (rootsOf (sigma.toList.take (numErrors + 1)) (List.range N)).length then .ok positions
        else .error .tooManyErrors) ∧
      ((rootsOf (sigma.toList.take (numErrors + 1)) (List.range N)).take numErrors).map
        UInt8.ofNat <+: positions.toList := by
  have hslice : upTo (numErrors + 1) sigma = some (sigma.toList.take (numErrors + 1)) :=
    if_pos (by have : T ≤ PARITY := by decide
               omega)
  obtain ⟨positions, found, hloop, hcount, htake⟩ := chienLoop_eq
    (sigma.toList.take (numErrors + 1)) hT (List.range N) (Vector.replicate T 0) hpos
  rw [Nat.zero_add] at hcount
  rw [List.take_zero, List.nil_append, Nat.sub_zero] at htake
  refine ⟨positions, ?_, htake ▸ List.take_prefix found positions.toList⟩
  rw [chienSearch, hslice]
  simp only [Option.bind_eq_bind, Option.bind_some, hloop]
  by_cases h : numErrors ≤ (rootsOf (sigma.toList.take (numErrors + 1)) (List.range N)).length
  · rw [if_neg (by omega), if_pos h]
    rfl
  · rw [if_pos (by omega), if_neg h]
    rfl

/-! ## The magnitudes -/

/-- The first positions in the array, all different. -/
structure Placed (positions : Vector UInt8 T) (ps : List Nat) : Prop where
  entries : ps.map UInt8.ofNat <+: positions.toList
  nodup : ps.Nodup
  lt : ∀ p ∈ ps, p < N

theorem Placed.length_le {positions : Vector UInt8 T} {ps : List Nat} (h : Placed positions ps) :
    ps.length ≤ T := by
  have hle := h.entries.length_le
  rwa [List.length_map, Vector.length_toList] at hle

theorem Placed.getElem? {positions : Vector UInt8 T} {ps : List Nat} (h : Placed positions ps)
    {k : Nat} (hk : k < ps.length) :
    positions[k]? = some (UInt8.ofNat ps[k]) ∧ (UInt8.ofNat ps[k]).toNat = ps[k] := by
  have hlt : ps[k] < 255 := h.lt _ (List.getElem_mem hk)
  have hkT : k < T := hk.trans_le h.length_le
  constructor
  · have hentry := h.entries.getElem (i := k) (by rwa [List.length_map])
    rw [List.getElem_map, Vector.getElem_toList] at hentry
    rw [Vector.getElem?_eq_getElem hkT, ← hentry]
  · rw [UInt8.toNat_ofNat']
    exact Nat.mod_eq_of_lt (by omega)

theorem exists_magnitude (omega deriv : Bytes) {p : Nat} (hp : p < N) :
    ∃ val, magnitude omega deriv p = some val := ⟨_, if_pos (Nat.le_pred_of_lt hp)⟩

theorem forney_eq {positions : Vector UInt8 T} {ps : List Nat} (h : Placed positions ps)
    (syn : Vector UInt8 PARITY) (sigma : Vector UInt8 (PARITY + 1)) :
    ∃ magnitudes, forney syn sigma positions ps.length = some magnitudes ∧
      ∀ k (hk : k < ps.length), magnitudes[k]? = magnitude (omega syn sigma ps.length).toList
        ((sigmaDeriv sigma ps.length).toList.take ps.length) ps[k] := by
  have hT := h.length_le
  have hslice : upTo ps.length (sigmaDeriv sigma ps.length) =
      some ((sigmaDeriv sigma ps.length).toList.take ps.length) :=
    if_pos (hT.trans (by decide))
  obtain ⟨magnitudes, hfold, hinv⟩ := foldlM_range_of_inv
    (forneyStep syn sigma positions ps.length)
    (fun j magnitudes => ∀ k (hk : k < ps.length), k < j →
      magnitudes[k]? = magnitude (omega syn sigma ps.length).toList
        ((sigmaDeriv sigma ps.length).toList.take ps.length) ps[k])
    ps.length (Vector.replicate T 0) (fun k _ hk => absurd hk (Nat.not_lt_zero k))
    (by
      intro j hj magnitudes hinv
      obtain ⟨hpos, hnat⟩ := h.getElem? hj
      obtain ⟨val, hval⟩ := exists_magnitude (omega syn sigma ps.length).toList
        ((sigmaDeriv sigma ps.length).toList.take ps.length) (h.lt _ (List.getElem_mem hj))
      refine ⟨magnitudes.set j val (hj.trans_le hT), ?_, ?_⟩
      · simp only [forneyStep, hslice, hpos, Option.bind_eq_bind, Option.bind_some, hnat, hval]
        exact dif_pos (hj.trans_le hT)
      · intro k hk hkj
        rcases Nat.lt_succ_iff_lt_or_eq.1 hkj with hlt | rfl
        · rw [Vector.getElem?_set_ne _ hlt.ne']
          exact hinv k hk hlt
        · rw [Vector.getElem?_set_self, hval])
  exact ⟨magnitudes, hfold, fun k hk => hinv k hk hk⟩

theorem symbols_vector_set {n : Nat} (v : Vector UInt8 n) {i : Nat} (h : i < n) (x : UInt8)
    (j : Nat) : symbols (v.set i x).toList j = if i = j then ⟨x⟩ else symbols v.toList j := by
  rw [Vector.toList_set]
  exact symbols_set (by rwa [Vector.length_toList]) x j

theorem correct_eq {positions : Vector UInt8 T} {ps : List Nat} (h : Placed positions ps)
    (magnitudes : Vector UInt8 T) (w : Vector UInt8 N) :
    ∃ w', correct positions magnitudes ps.length w = some w' ∧
      (∀ p, p ∉ ps → symbols w'.toList p = symbols w.toList p) ∧
      ∀ k (hk : k < ps.length), symbols w'.toList ps[k] =
        symbols w.toList ps[k] + symbols magnitudes.toList k := by
  have hT := h.length_le
  obtain ⟨w', hfold, hout, hin⟩ := foldlM_range_of_inv (correctStep positions magnitudes)
    (fun j w' => (∀ p, p ∉ ps.take j → symbols w'.toList p = symbols w.toList p) ∧
      ∀ k (hk : k < ps.length), k < j → symbols w'.toList ps[k] =
        symbols w.toList ps[k] + symbols magnitudes.toList k)
    ps.length w ⟨fun _ _ => rfl, fun k _ hk => absurd hk (Nat.not_lt_zero k)⟩
    (by
      intro j hj w' hinv
      obtain ⟨hout, hin⟩ := hinv
      obtain ⟨hpos, hnat⟩ := h.getElem? hj
      obtain ⟨val, hval, hvalEq⟩ := mk_getElem? magnitudes (hj.trans_le hT)
      have hlt : ps[j] < N := h.lt _ (List.getElem_mem hj)
      have hfresh : ps[j] ∉ ps.take j := by
        intro hmem
        obtain ⟨k, hk, hkj⟩ := List.getElem_of_mem hmem
        rw [List.getElem_take] at hkj
        rw [List.length_take] at hk
        have := h.nodup.getElem_inj_iff.1 hkj
        omega
      refine ⟨w'.set ps[j] (Gf.add w'[ps[j]] val), ?_, ?_, ?_⟩
      · simp only [correctStep, hpos, Option.bind_eq_bind, Option.bind_some, hnat, hval]
        exact dif_pos hlt
      · intro p hp
        rw [List.take_succ_eq_append_getElem hj, List.mem_append, List.mem_singleton, not_or] at hp
        rw [symbols_vector_set, if_neg (Ne.symm hp.2), hout p hp.1]
      · intro k hk hkj
        rcases Nat.lt_succ_iff_lt_or_eq.1 hkj with hlt' | rfl
        · rw [symbols_vector_set, if_neg, hin k hk hlt']
          intro heq
          exact absurd (h.nodup.getElem_inj_iff.1 heq) hlt'.ne'
        · rw [symbols_vector_set, if_pos rfl, mk_add, ← symbols_toList, hout _ hfresh, hvalEq])
  rw [List.take_length] at hout
  exact ⟨w', hfold, hout, fun k hk => hin k hk hk⟩

/-! ## Within 16 symbols -/

theorem poly_take {xs : Bytes} {k : Nat} (h : ∀ i, k ≤ i → (poly xs).coeff i = 0) :
    poly (xs.take k) = poly xs := by
  ext i
  rcases Nat.lt_or_ge i k with hi | hi
  · rw [coeff_poly, coeff_poly, symbols, symbols, List.getD_eq_getElem?_getD,
      List.getElem?_take_of_lt hi, ← List.getD_eq_getElem?_getD]
  · rw [h i hi, coeff_poly, symbols_of_le (by rw [List.length_take]; omega)]

theorem polyEvalAsc_eq_zero (xs : Bytes) (x : UInt8) :
    Gf.polyEvalAsc xs x = 0 ↔ (poly xs).eval ⟨x⟩ = 0 := by
  rw [← mk_eq_zero, mk_polyEvalAsc, poly]

theorem locatorAt_root {m : Nat} (hm : m < N) : locatorAt ((m + N - 1) % N) = (alpha ^ m)⁻¹ := by
  have hm' : m < 255 := hm
  apply eq_inv_of_mul_eq_one_left
  rw [locatorAt, ← pow_add]
  unfold N
  rcases Nat.eq_zero_or_pos m with rfl | hpos
  · rfl
  · rw [show 255 - 1 - (m + 255 - 1) % 255 + m = 255 by omega, alpha_pow_period]

section Near

variable {w c : Vector UInt8 N} {sigma : Vector UInt8 (PARITY + 1)}

theorem mem_rootsOf (hsigma : poly sigma.toList = locator (locators w c)) (p : Nat) :
    p ∈ rootsOf (sigma.toList.take (distance w c + 1)) (List.range N) ↔
      p < N ∧ locatorAt p ∈ locators w c := by
  have hslice : poly (sigma.toList.take (distance w c + 1)) = locator (locators w c) := by
    rw [poly_take, hsigma]
    intro i hi
    rw [hsigma, coeff_eq_zero_of_natDegree_lt]
    rw [natDegree_locator (zero_notMem_locators w c), card_locators]
    omega
  have hroot : ∀ m < N, (Gf.polyEvalAsc (sigma.toList.take (distance w c + 1)) (Gf.exp m) = 0 ↔
      locatorAt ((m + N - 1) % N) ∈ locators w c) := by
    intro m hm
    rw [polyEvalAsc_eq_zero, hslice, mk_exp, eval_locator_eq_zero (alpha_pow_ne_zero m),
      locatorAt_root hm]
  rw [rootsOf, List.mem_map]
  constructor
  · intro h
    obtain ⟨m, hm, rfl⟩ := h
    obtain ⟨hrange, hzero⟩ := List.mem_filter.1 hm
    exact ⟨Nat.mod_lt _ (by decide),
      (hroot m (List.mem_range.1 hrange)).1 (of_decide_eq_true hzero)⟩
  · intro h
    have hp : p < 255 := h.1
    have hback : ((p + 1) % N + N - 1) % N = p := by unfold N; omega
    have hlt : (p + 1) % N < N := Nat.mod_lt _ (by decide)
    refine ⟨(p + 1) % N, List.mem_filter.2 ⟨List.mem_range.2 hlt, decide_eq_true ?_⟩, hback⟩
    rw [hroot _ hlt, hback]
    exact h.2

theorem length_rootsOf (hsigma : poly sigma.toList = locator (locators w c)) :
    (rootsOf (sigma.toList.take (distance w c + 1)) (List.range N)).length = distance w c := by
  have hcard : (wrong w c).card = ((wrong w c).image Fin.val).card :=
    (Finset.card_image_of_injective _ Fin.val_injective).symm
  rw [← List.toFinset_card_of_nodup (rootsOf_nodup _)]
  refine Eq.trans ?_ hcard.symm
  congr 1
  ext p
  rw [List.mem_toFinset, mem_rootsOf hsigma, Finset.mem_image]
  constructor
  · intro h
    exact ⟨⟨p, h.1⟩, mem_wrong.2 ((locatorAt_mem h.1).1 h.2), rfl⟩
  · intro h
    obtain ⟨q, hq, rfl⟩ := h
    exact ⟨q.2, (locatorAt_mem q.2).2 (mem_wrong.1 hq)⟩

theorem poly_omega (hc : NoSyndromes c) (hdist : distance w c ≤ T)
    (hsigma : poly sigma.toList = locator (locators w c)) :
    poly (omega (syndromes w) sigma (distance w c)).toList =
      evaluator (locators w c) (errorAt w c) := by
  have hdeg := degree_evaluator (zero_notMem_locators w c) (errorAt w c)
  rw [card_locators, degree_lt_iff_coeff_zero] at hdeg
  apply poly_ofFn
  · intro i
    rw [coeff_evaluator _ _ i.2, ← poly_syndromes hc, ← hsigma, coeff_mul,
      Finset.Nat.sum_antidiagonal_eq_sum_range_succ
        (fun i j => (poly sigma.toList).coeff i * (poly (syndromes w).toList).coeff j)]
    have hfold : ∀ k, (⟨(List.range k).foldl (fun val j => Gf.add val
        (Gf.mul (sigma.toList.getD j 0) ((syndromes w).toList.getD (i.1 - j) 0))) 0⟩ : Gf256) =
        ∑ j ∈ Finset.range k, (poly sigma.toList).coeff j *
          (poly (syndromes w).toList).coeff (i.1 - j) := by
      intro k
      induction k with
      | zero => rfl
      | succ k ih =>
        rw [List.range_succ, List.foldl_append, List.foldl_cons, List.foldl_nil, mk_add, mk_mul, ih,
          Finset.sum_range_succ, coeff_poly, coeff_poly]
        rfl
    rw [hfold]
    symm
    apply Finset.sum_subset
    · intro j hj
      rw [Finset.mem_range] at hj ⊢
      omega
    · intro j hj hj'
      rw [Finset.mem_range] at hj hj'
      rw [hsigma, coeff_eq_zero_of_natDegree_lt, zero_mul]
      rw [natDegree_locator (zero_notMem_locators w c), card_locators]
      omega
  · intro i hi
    have hT : T ≤ PARITY := by decide
    exact hdeg i (by omega)

theorem natCast_succ (i : Nat) : ((i : Gf256) + 1) = if i % 2 = 0 then 1 else 0 := by
  induction i with
  | zero => rw [Nat.cast_zero, zero_add, if_pos rfl]
  | succ i ih =>
    rw [Nat.cast_succ, ih]
    rcases Nat.mod_two_eq_zero_or_one i with h | h
    · rw [if_pos h, if_neg (by omega), add_self]
    · rw [if_neg (by omega), if_pos (by omega), zero_add]

theorem poly_sigmaDeriv (hdist : distance w c ≤ T)
    (hsigma : poly sigma.toList = locator (locators w c)) :
    poly ((sigmaDeriv sigma (distance w c)).toList.take (distance w c)) =
      derivative (locator (locators w c)) := by
  have hzero : ∀ i, distance w c ≤ i → (derivative (locator (locators w c))).coeff i = 0 := by
    intro i hi
    rw [coeff_derivative, coeff_eq_zero_of_natDegree_lt, zero_mul]
    rw [natDegree_locator (zero_notMem_locators w c), card_locators]
    omega
  have hT : T ≤ PARITY := by decide
  have hall : poly (sigmaDeriv sigma (distance w c)).toList =
      derivative (locator (locators w c)) := by
    apply poly_ofFn
    · intro i
      rcases Nat.lt_or_ge i.1 (distance w c) with hi | hi
      · rw [coeff_derivative, natCast_succ, ← hsigma, coeff_poly, symbols_toList _ (by omega)]
        by_cases heven : i.1 % 2 = 0
        · rw [if_pos heven, mul_one, if_pos ⟨heven, hi⟩]
        · rw [if_neg heven, mul_zero, if_neg fun h => heven h.1, mk_zero]
      · rw [hzero i hi, if_neg (by omega), mk_zero]
    · exact fun i hi => hzero i (by omega)
  rw [poly_take (by rw [hall]; exact hzero), hall]

theorem magnitude_eq (hc : NoSyndromes c) (hdist : distance w c ≤ T)
    (hsigma : poly sigma.toList = locator (locators w c)) {p : Nat} (hp : p < N)
    (hmem : locatorAt p ∈ locators w c) {val : UInt8}
    (hval : magnitude (omega (syndromes w) sigma (distance w c)).toList
      ((sigmaDeriv sigma (distance w c)).toList.take (distance w c)) p = some val) :
    (⟨val⟩ : Gf256) = symbols w.toList p + symbols c.toList p := by
  have hp' : p < 255 := hp
  have hlog : (N - 1 - p) % N = N - 1 - p := Nat.mod_eq_of_lt (by unfold N; omega)
  have hinv : alpha ^ ((N - (N - 1 - p)) % N) = (locatorAt p)⁻¹ := by
    apply eq_inv_of_mul_eq_one_left
    have hmod : alpha ^ ((N - (N - 1 - p)) % N) = alpha ^ (N - (N - 1 - p)) := alpha_pow_mod _
    rw [hmod, locatorAt, ← pow_add, Nat.sub_add_cancel (by unfold N; omega)]
    exact alpha_pow_period
  have hpower : alpha ^ (((N - 1 - p) * (1 + N - FCR)) % N) = locatorAt p ^ 144 := by
    have hmod : alpha ^ (((N - 1 - p) * (1 + N - FCR)) % N) =
      alpha ^ ((N - 1 - p) * (1 + N - FCR)) := alpha_pow_mod _
    rw [hmod, pow_mul]
    rfl
  rw [magnitude, if_pos (show p ≤ N - 1 by omega)] at hval
  rw [← Option.some.inj hval, hlog, mk_mul, mk_div, mk_polyEvalAsc, mk_polyEvalAsc, mk_exp, mk_exp,
    hinv, hpower]
  have homega := poly_omega hc hdist hsigma
  have hderiv := poly_sigmaDeriv hdist hsigma
  rw [poly] at homega hderiv
  rw [homega, hderiv]
  have hvalue := value_eq (errorAt w c) hmem (locatorAt_ne_zero p)
  rw [neg_eq, errorAt_locatorAt w c hp] at hvalue
  have hone : locatorAt p ^ 255 = 1 := by
    rw [locatorAt, ← pow_mul, Nat.mul_comm, pow_mul, alpha_pow_period, one_pow]
  calc locatorAt p ^ 144 * (eval (locatorAt p)⁻¹ (evaluator (locators w c) (errorAt w c)) /
        eval (locatorAt p)⁻¹ (derivative (locator (locators w c))))
      = locatorAt p ^ 143 * (locatorAt p *
        (eval (locatorAt p)⁻¹ (evaluator (locators w c) (errorAt w c)) /
          eval (locatorAt p)⁻¹ (derivative (locator (locators w c))))) := by
        rw [← mul_assoc, ← pow_succ]
    _ = (symbols w.toList p + symbols c.toList p) * locatorAt p ^ 255 := by
        rw [hvalue, mul_left_comm, ← pow_add]
        rfl
    _ = symbols w.toList p + symbols c.toList p := by rw [hone, mul_one]

end Near

/-! ## The decoder -/

theorem vector_ext_symbols {n : Nat} {v v' : Vector UInt8 n}
    (h : ∀ i < n, symbols v.toList i = symbols v'.toList i) : v = v' := by
  apply Vector.ext
  intro i hi
  have hsym := h i hi
  rw [symbols_toList _ hi, symbols_toList _ hi] at hsym
  exact congrArg byte hsym

theorem Found.pos {w : Vector UInt8 N} {r : Registers} (h : Found (syndromes w) PARITY r)
    (hw : ¬NoSyndromes w) : 0 < r.l := by
  rw [Nat.pos_iff_ne_zero]
  intro hl
  have hone : poly r.sigma.toList = 1 := by
    have hdeg := h.synthesis.degree
    rw [hl] at hdeg
    rw [eq_C_of_natDegree_le_zero hdeg, h.synthesis.head, C_1]
  apply hw
  intro j hj
  have hgen := h.synthesis.generates j (by omega) hj
  rwa [hone, one_mul, coeff_poly, symbols_syndromes w hj] at hgen

theorem decode_of_noSyndromes {w : Vector UInt8 N} (h : NoSyndromes w) :
    decode w = some (.ok 0, w) := by
  rw [decode]
  exact if_pos ((all_syndromes w).2 h)

theorem decode_eq {w : Vector UInt8 N} (hw : ¬NoSyndromes w) {r : Registers}
    (hr : (List.range PARITY).foldlM (Registers.round (syndromes w)) ⟨one, one, 0⟩ = some r) :
    decode w = if r.l > T then some (.error .tooManyErrors, w) else finish w r.sigma r.l := by
  have hbm : berlekampMassey (syndromes w) =
      some (if r.l > T then .error .tooManyErrors else .ok (r.sigma, r.l)) := by
    rw [berlekampMassey, hr]
    simp only [Option.bind_eq_bind, Option.bind_some]
    split <;> rfl
  rw [decode]
  simp only [hbm]
  rw [if_neg fun h => hw ((all_syndromes w).1 h)]
  by_cases h : r.l > T
  · rw [if_pos h, if_pos h]
  · rw [if_neg h, if_neg h]

/-- The word after the stages behind the synthesis, which changed it at the positions `ps`. -/
structure Corrected (w : Vector UInt8 N) (sigma : Vector UInt8 (PARITY + 1)) (ps : List Nat)
    (w' : Vector UInt8 N) : Prop where
  few : ps.length ≤ T
  outside : ∀ p, p ∉ ps → symbols w'.toList p = symbols w.toList p
  inside : ∀ p ∈ ps, ∃ val, magnitude (omega (syndromes w) sigma ps.length).toList
    ((sigmaDeriv sigma ps.length).toList.take ps.length) p = some val ∧
      symbols w'.toList p = symbols w.toList p + ⟨val⟩
  result : finish w sigma ps.length = some (if (syndromes w').toList.all (· == 0) then
    (.ok ps.length, w') else (.error .tooManyErrors, w'))

theorem finish_of_lt (w : Vector UInt8 N) {sigma : Vector UInt8 (PARITY + 1)} {numErrors : Nat}
    (hpos : 0 < numErrors) (hT : numErrors ≤ T)
    (hfew : (rootsOf (sigma.toList.take (numErrors + 1)) (List.range N)).length < numErrors) :
    finish w sigma numErrors = some (.error .tooManyErrors, w) := by
  obtain ⟨positions, hsearch, _⟩ := chienSearch_eq sigma hpos hT
  rw [if_neg (Nat.not_le.2 hfew)] at hsearch
  rw [finish, hsearch]
  rfl

theorem finish_of_le (w : Vector UInt8 N) {sigma : Vector UInt8 (PARITY + 1)} {numErrors : Nat}
    (hpos : 0 < numErrors) (hT : numErrors ≤ T)
    (hle : numErrors ≤ (rootsOf (sigma.toList.take (numErrors + 1)) (List.range N)).length) :
    ∃ ps w', ps = (rootsOf (sigma.toList.take (numErrors + 1)) (List.range N)).take numErrors ∧
      ps.length = numErrors ∧ Corrected w sigma ps w' := by
  obtain ⟨positions, hsearch, hentries⟩ := chienSearch_eq sigma hpos hT
  rw [if_pos hle] at hsearch
  generalize hps : (rootsOf (sigma.toList.take (numErrors + 1)) (List.range N)).take numErrors =
    ps at hentries
  have hlen : ps.length = numErrors := by
    rw [← hps, List.length_take, Nat.min_eq_left hle]
  have hplaced : Placed positions ps := by
    refine ⟨hentries, ?_, ?_⟩
    · rw [← hps]
      exact (rootsOf_nodup _).sublist (List.take_sublist _ _)
    · intro p hp
      rw [← hps] at hp
      exact lt_of_mem_rootsOf (List.mem_of_mem_take hp)
  obtain ⟨magnitudes, hforney, hmag⟩ := forney_eq hplaced (syndromes w) sigma
  obtain ⟨w', hcorrect, hout, hin⟩ := correct_eq hplaced magnitudes w
  refine ⟨ps, w', rfl, hlen, hplaced.length_le, hout, ?_, ?_⟩
  · intro p hp
    obtain ⟨k, hk, rfl⟩ := List.getElem_of_mem hp
    obtain ⟨val, hval, hvalEq⟩ := mk_getElem? magnitudes (hk.trans_le hplaced.length_le)
    exact ⟨val, by rw [← hmag k hk, hval], by rw [hin k hk, hvalEq]⟩
  · rw [← hlen] at hsearch
    rw [finish, hsearch]
    simp only [Option.bind_eq_bind, Option.bind_some, hforney, hcorrect]
    split <;> rfl

theorem decode_of_near {w c : Vector UInt8 N} (hc : NoSyndromes c) (hdist : distance w c ≤ T) :
    decode w = some (.ok (distance w c), c) := by
  obtain ⟨r, hr, hfound⟩ := exists_found (syndromes w)
  obtain ⟨hsigma, hl⟩ := found_locator hc hdist hfound
  by_cases hw : NoSyndromes w
  · -- a word without syndromes leaves the register empty
    have hzero : r.l = 0 := by
      apply Nat.le_zero.1
      apply hfound.shortest 1 0 coeff_one_zero natDegree_one.le
      intro j _ hj
      rw [one_mul, coeff_poly, symbols_syndromes w hj, hw j hj]
    have hnone : distance w c = 0 := hl ▸ hzero
    have heq : w = c := by
      apply vector_ext_symbols
      intro p hp
      have hnot : (⟨p, hp⟩ : Fin N) ∉ wrong w c := by
        rw [Finset.card_eq_zero.1 hnone]
        exact Finset.notMem_empty _
      rw [mem_wrong, not_not, ← Gf256.sub_eq, sub_eq_zero] at hnot
      exact hnot
    rw [decode_of_noSyndromes hw, hnone, heq]
  · have hpos := hfound.pos hw
    rw [decode_eq hw hr, if_neg (by omega)]
    rw [hl] at hpos ⊢
    have hlen := length_rootsOf hsigma
    obtain ⟨ps, w', hps, hpsLen, hcorr⟩ := finish_of_le w hpos hdist hlen.ge
    have hmem : ∀ p, p ∈ ps ↔ p < N ∧ locatorAt p ∈ locators w c := by
      intro p
      rw [hps, List.take_of_length_le hlen.le]
      exact mem_rootsOf hsigma p
    have heq : w' = c := by
      apply vector_ext_symbols
      intro p hp
      by_cases hpin : p ∈ ps
      · obtain ⟨val, hval, hsym⟩ := hcorr.inside p hpin
        rw [hpsLen] at hval
        rw [hsym, magnitude_eq hc hdist hsigma hp ((hmem p).1 hpin).2 hval, ← add_assoc, add_self,
          zero_add]
      · have hnot : ¬symbols w.toList p + symbols c.toList p ≠ 0 := by
          rw [← locatorAt_mem hp]
          exact fun h => hpin ((hmem p).2 ⟨hp, h⟩)
        rw [not_not, ← Gf256.sub_eq, sub_eq_zero] at hnot
        rw [hcorr.outside p hpin, hnot]
    rw [← hpsLen, hcorr.result, heq, if_pos ((all_syndromes c).2 hc)]

theorem decode_total (w : Vector UInt8 N) :
    (∃ c, NoSyndromes c ∧ distance w c ≤ T) ∨
      ∃ w', decode w = some (.error .tooManyErrors, w') := by
  by_cases hw : NoSyndromes w
  · left
    refine ⟨w, hw, ?_⟩
    rw [distance, wrong, Finset.filter_false_of_mem fun p _ => not_not.2 rfl, Finset.card_empty]
    exact Nat.zero_le T
  obtain ⟨r, hr, hfound⟩ := exists_found (syndromes w)
  rw [decode_eq hw hr]
  by_cases hl : r.l > T
  · exact .inr ⟨w, if_pos hl⟩
  rw [if_neg hl]
  rcases Nat.lt_or_ge
    (rootsOf (r.sigma.toList.take (r.l + 1)) (List.range N)).length r.l with hfew | hle
  · exact .inr ⟨w, finish_of_lt w (hfound.pos hw) (Nat.le_of_not_lt hl) hfew⟩
  · obtain ⟨ps, w', _, hpsLen, hcorr⟩ :=
      finish_of_le w (hfound.pos hw) (Nat.le_of_not_lt hl) hle
    by_cases hzero : (syndromes w').toList.all (· == 0) = true
    · left
      refine ⟨w', (all_syndromes w').1 hzero, ?_⟩
      have hsub : (wrong w w').image Fin.val ⊆ ps.toFinset := by
        intro p hp
        obtain ⟨q, hq, rfl⟩ := Finset.mem_image.1 hp
        rw [List.mem_toFinset]
        by_contra hnot
        rw [mem_wrong, hcorr.outside _ hnot, add_self] at hq
        exact hq rfl
      calc distance w w' = ((wrong w w').image Fin.val).card :=
            (Finset.card_image_of_injective _ Fin.val_injective).symm
        _ ≤ ps.toFinset.card := Finset.card_le_card hsub
        _ ≤ ps.length := List.toFinset_card_le ps
        _ ≤ T := hcorr.few
    · rw [← hpsLen, hcorr.result, if_neg hzero]
      exact .inr ⟨w', rfl⟩

end ReedSolomon
end Coding
end Leodos
