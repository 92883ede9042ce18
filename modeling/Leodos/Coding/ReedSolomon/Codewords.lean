/-
The outputs of the encoder are the words without syndromes.
-/
import Leodos.Coding.ReedSolomon.Code

namespace Leodos
namespace Coding
namespace ReedSolomon

open Feedback Gf256 Spp

/-! ## The generator -/

theorem symbols_of_le {xs : Bytes} {i : Nat} (h : xs.length ≤ i) : symbols xs i = 0 := by
  rw [symbols, List.getD_eq_default _ _ h, mk_zero]

theorem symbols_append_left {xs : Bytes} (ys : Bytes) {i : Nat} (h : i < xs.length) :
    symbols (xs ++ ys) i = symbols xs i := by
  rw [symbols, symbols, List.getD_append _ _ _ _ h]

theorem symbols_append_right {xs : Bytes} (ys : Bytes) (i : Nat) :
    symbols (xs ++ ys) (xs.length + i) = symbols ys i := by
  rw [symbols, symbols, List.getD_append_right _ _ _ _ (Nat.le_add_right _ i),
    Nat.add_sub_cancel_left]

theorem horner_append_symbols (xs ys : Bytes) (x : Gf256) :
    horner (symbols (xs ++ ys)) x (xs.length + ys.length) =
      horner (symbols xs) x xs.length * x ^ ys.length + horner (symbols ys) x ys.length := by
  rw [horner_append, horner_congr (fun i hi => symbols_append_left ys hi)]
  simp only [symbols_append_right]

theorem symbols_set {xs : Bytes} {i : Nat} (h : i < xs.length) (v : UInt8) (j : Nat) :
    symbols (xs.set i v) j = if i = j then ⟨v⟩ else symbols xs j := by
  rw [symbols, symbols, List.getD_eq_getElem?_getD, List.getD_eq_getElem?_getD]
  by_cases hij : i = j
  · subst hij
    rw [List.getElem?_set_self h, Option.getD_some, if_pos rfl]
  · rw [List.getElem?_set_ne hij, if_neg hij]

theorem symbols_ofFn {n : Nat} (f : Fin n → UInt8) {i : Nat} (h : i < n) :
    symbols (Vector.ofFn f).toList i = ⟨f ⟨i, h⟩⟩ := by
  rw [symbols, List.getD_eq_getElem _ _ (by rwa [Vector.length_toList]), Vector.getElem_toList,
    Vector.getElem_ofFn]

theorem symbols_toList {n : Nat} (v : Vector UInt8 n) {i : Nat} (h : i < n) :
    symbols v.toList i = ⟨v[i]⟩ := by
  rw [symbols, List.getD_eq_getElem _ _ (by rwa [Vector.length_toList]), Vector.getElem_toList]

theorem length_mulRoot (root : UInt8) (n : Nat) (g : Bytes) :
    (mulRoot root n g).length = g.length := by
  induction n generalizing g with
  | zero => rfl
  | succ n ih =>
    rw [mulRoot, ih]
    split
    · rw [List.length_set]
    · rfl

theorem symbols_mulRoot {root : UInt8} (hroot : root ≠ 0) {n : Nat} {g : Bytes}
    (hn : n < g.length) (i : Nat) :
    symbols (mulRoot root n g) i =
      if 0 < i ∧ i ≤ n then symbols g i + ⟨root⟩ * symbols g (i - 1) else symbols g i := by
  induction n generalizing g with
  | zero => rw [mulRoot, if_neg (by omega)]
  | succ n ih =>
    have hstep : ∀ j, symbols (if g.getD n 0 ≠ 0 then
        g.set (n + 1) (g.getD (n + 1) 0 ^^^
          Gf.EXP.getD (((Gf.log (g.getD n 0)).toNat + (Gf.log root).toNat) % 255) 0)
        else g) j =
        if n + 1 = j then symbols g j + ⟨root⟩ * symbols g n else symbols g j := by
      intro j
      split
      · next hg =>
        rw [symbols_set hn]
        split
        · next hj =>
          subst hj
          have hmul : Gf.EXP.getD (((Gf.log (g.getD n 0)).toNat + (Gf.log root).toNat) % 255) 0 =
              Gf.mul (g.getD n 0) root := by
            rw [Gf.mul, if_neg (not_or.2 ⟨hg, hroot⟩), Gf.exp]
          rw [hmul, show g.getD (n + 1) 0 ^^^ Gf.mul (g.getD n 0) root =
            Gf.add (g.getD (n + 1) 0) (Gf.mul (g.getD n 0) root) from rfl, mk_add, mk_mul,
            mul_comm]
          rfl
        · rfl
      · next hg =>
        have hzero : symbols g n = 0 := by rw [symbols, not_not.1 hg, mk_zero]
        rw [hzero, mul_zero, add_zero, ite_self]
    have hlen : ∀ v, n < (if g.getD n 0 ≠ 0 then g.set (n + 1) v else g).length := by
      intro v
      split
      · rw [List.length_set]
        omega
      · omega
    rw [mulRoot, ih (hlen _), hstep, hstep]
    by_cases hi : i = n + 1
    · subst hi
      rw [if_neg (show ¬(0 < n + 1 ∧ n + 1 ≤ n) by omega), if_pos rfl,
        if_pos (show 0 < n + 1 ∧ n + 1 ≤ n + 1 by omega), Nat.add_sub_cancel]
    · rw [if_neg (show ¬n + 1 = i by omega)]
      by_cases h : 0 < i ∧ i ≤ n
      · rw [if_pos h, if_neg (show ¬n + 1 = i - 1 by omega), if_pos (by omega)]
      · rw [if_neg h, if_neg (by omega)]

/-- The table of the generator once `k` roots are multiplied in. -/
structure Product (s : Bytes × Nat) (k : Nat) : Prop where
  len : s.2 = k + 1
  size : s.1.length = PARITY + 1
  head : symbols s.1 0 = 1
  tail : ∀ i, k < i → symbols s.1 i = 0
  value : ∀ x, horner (symbols s.1) x (k + 1) = ∏ i ∈ Finset.range k, (x + alpha ^ (FCR + i))

theorem Product.start : Product ((List.replicate (PARITY + 1) 0).set 0 1, 1) 0 where
  len := rfl
  size := by rw [List.length_set, List.length_replicate]
  head := rfl
  tail := by
    intro i hi
    rw [symbols_set (by decide), if_neg (Nat.ne_of_lt hi), symbols, List.getD_eq_getElem?_getD,
      List.getElem?_replicate]
    split <;> rfl
  value := by
    intro x
    rw [horner_succ, horner_zero, zero_mul, zero_add, Finset.prod_range_zero]
    rfl

theorem Product.step {s : Bytes × Nat} {k : Nat} (h : Product s k) (hk : k < PARITY) :
    Product (generatorStep s k) (k + 1) := by
  have hroot : Gf.EXP.getD ((FCR + k) % 255) 0 = Gf.exp (FCR + k) := rfl
  have hne : Gf.exp (FCR + k) ≠ 0 := by
    rw [Gf.exp_eq]
    exact Gf.alpha_ne_zero _
  have hlen := h.len
  have hsize := h.size
  have hsym := symbols_mulRoot hne (n := s.2) (g := s.1) (by omega)
  have hcoef : ∀ i < k + 1 + 1, symbols (mulRoot (Gf.exp (FCR + k)) s.2 s.1) i =
      symbols s.1 i + alpha ^ (FCR + k) * (if i = 0 then 0 else symbols s.1 (i - 1)) := by
    intro i hi
    rw [hsym, mk_exp]
    by_cases h0 : i = 0
    · rw [if_neg (by omega), if_pos h0, mul_zero, add_zero]
    · rw [if_pos (by omega), if_neg h0]
  constructor
  · rw [generatorStep, hlen]
  · rw [generatorStep, length_mulRoot, hsize]
  · rw [generatorStep, hroot, hsym, if_neg (by omega), h.head]
  · intro i hi
    rw [generatorStep, hroot, hsym, if_neg (by omega), h.tail i (by omega)]
  · intro x
    rw [generatorStep, hroot, horner_congr hcoef, horner_add, horner_mul_left, horner_succ,
      h.tail _ (Nat.lt_succ_self k), horner_head (fun i => if i = 0 then 0 else _), if_pos rfl,
      zero_mul, zero_add]
    simp only [Nat.succ_ne_zero, if_false, Nat.add_sub_cancel]
    rw [h.value, Finset.prod_range_succ]
    ring

theorem product_generator :
    Product ((List.range PARITY).foldl generatorStep ((List.replicate (PARITY + 1) 0).set 0 1, 1))
      PARITY := by
  have h : ∀ k ≤ PARITY, Product
      ((List.range k).foldl generatorStep ((List.replicate (PARITY + 1) 0).set 0 1, 1)) k := by
    intro k
    induction k with
    | zero => exact fun _ => Product.start
    | succ k ih =>
      intro hk
      rw [List.range_succ, List.foldl_append, List.foldl_cons, List.foldl_nil]
      exact (ih (Nat.le_of_succ_le hk)).step hk
  exact h PARITY (le_refl PARITY)

theorem symbols_generator_zero : symbols GENERATOR 0 = 1 := product_generator.head

theorem horner_generator {j : Nat} (hj : j < PARITY) :
    horner (symbols GENERATOR) (alpha ^ (FCR + j)) (PARITY + 1) = 0 := by
  rw [GENERATOR, product_generator.value]
  exact Finset.prod_eq_zero (Finset.mem_range.2 hj) (add_self _)

/-! ## The remainder -/

theorem symbols_divide (remainder : Vector UInt8 PARITY) (symbol : UInt8) {j : Nat}
    (hj : j < PARITY) :
    symbols (divide remainder symbol).toList j = symbols remainder.toList (j + 1) +
      (⟨symbol⟩ + symbols remainder.toList 0) * symbols GENERATOR (j + 1) := by
  have hpos : 0 < PARITY := by decide
  have hfeedback : (⟨symbol⟩ + symbols remainder.toList 0 : Gf256) =
      ⟨Gf.add symbol remainder[0]⟩ := by
    rw [symbols_toList _ hpos, mk_add]
  have hlast : ¬j + 1 < PARITY → symbols remainder.toList (j + 1) = 0 := by
    intro h
    exact symbols_of_le (by rw [Vector.length_toList]; omega)
  rw [hfeedback, divide]
  split
  · rw [symbols_ofFn _ hj]
    split
    · next h => rw [mk_add, mk_mul, symbols_toList _ h, symbols]
    · next h =>
      have hj1 : PARITY = j + 1 := Nat.le_antisymm (Nat.le_of_not_lt h) hj
      rw [hlast h, zero_add, mk_mul]
      exact congrArg (_ * symbols GENERATOR ·) hj1
  · next hzero =>
    rw [not_not.1 hzero, mk_zero, zero_mul, add_zero, symbols_ofFn _ hj]
    split
    · next h => rw [symbols_toList _ h]
    · next h => rw [hlast h, mk_zero]

theorem horner_divide {x : Gf256} (hx : horner (symbols GENERATOR) x (PARITY + 1) = 0)
    (remainder : Vector UInt8 PARITY) (symbol : UInt8) :
    horner (symbols (divide remainder symbol).toList) x PARITY =
      (horner (symbols remainder.toList) x PARITY) * x + ⟨symbol⟩ * x ^ PARITY := by
  have hgen := horner_head (symbols GENERATOR) x PARITY
  rw [hx, symbols_generator_zero, one_mul] at hgen
  have hrem := horner_head (symbols remainder.toList) x PARITY
  rw [horner_succ, symbols_of_le (by rw [Vector.length_toList]), add_zero] at hrem
  rw [horner_congr (fun j hj => symbols_divide remainder symbol hj), horner_add, horner_mul_left,
    hrem]
  have htail : horner (fun j => symbols GENERATOR (j + 1)) x PARITY = x ^ PARITY := by
    rw [← neg_eq (x ^ PARITY)]
    exact eq_neg_of_add_eq_zero_right hgen.symm
  rw [htail, add_mul]
  ring

theorem horner_foldl_divide {x : Gf256} (hx : horner (symbols GENERATOR) x (PARITY + 1) = 0)
    (data : Bytes) :
    horner (symbols (data.foldl divide (Vector.replicate PARITY 0)).toList) x PARITY =
      horner (symbols data) x data.length * x ^ PARITY := by
  induction data using List.reverseRecOn with
  | nil =>
    rw [List.foldl_nil, List.length_nil, horner_zero, zero_mul, horner_eq_sum]
    apply Finset.sum_eq_zero
    intro i hi
    rw [symbols_toList _ (Finset.mem_range.1 hi), Vector.getElem_replicate, mk_zero, zero_mul]
  | append_singleton data symbol ih =>
    have hlast : symbols (data ++ [symbol]) data.length = ⟨symbol⟩ :=
      symbols_append_right [symbol] 0
    rw [List.foldl_append, List.foldl_cons, List.foldl_nil, horner_divide hx, ih,
      List.length_append, List.length_singleton, horner_succ, hlast,
      horner_congr (fun i hi => symbols_append_left [symbol] hi)]
    ring

/-! ## Words without syndromes -/

/-- An output of the encoder for as much data as fits. -/
def Codeword (c : Vector UInt8 N) : Prop :=
  ∃ data output : Bytes, data.length = K ∧ output.length = N ∧
    encode data output = (.ok N, c.toList)

theorem symbols_syndromes (w : Vector UInt8 N) {j : Nat} (hj : j < PARITY) :
    symbols (syndromes w).toList j = horner (symbols w.toList) (alpha ^ (FCR + j)) N := by
  rw [syndromes, symbols_ofFn _ hj, mk_polyEval, mk_exp, Vector.length_toList]

def NoSyndromes (w : Vector UInt8 N) : Prop :=
  ∀ j < PARITY, horner (symbols w.toList) (alpha ^ (FCR + j)) N = 0

theorem all_syndromes (w : Vector UInt8 N) :
    (syndromes w).toList.all (· == 0) = true ↔ NoSyndromes w := by
  have hget : ∀ j < PARITY, horner (symbols w.toList) (alpha ^ (FCR + j)) N = 0 ↔
      (syndromes w).toList.getD j 0 = 0 := by
    intro j hj
    rw [← symbols_syndromes w hj, symbols, mk_eq_zero]
  rw [List.all_eq_true]
  constructor
  · intro h j hj
    have hlt : j < (syndromes w).toList.length := by rwa [Vector.length_toList]
    rw [hget j hj, List.getD_eq_getElem _ _ hlt]
    exact eq_of_beq (h _ (List.getElem_mem hlt))
  · intro h s hs
    obtain ⟨j, hj, rfl⟩ := List.getElem_of_mem hs
    have hlt : j < PARITY := by rwa [Vector.length_toList] at hj
    rw [← List.getD_eq_getElem _ 0 hj, (hget j hlt).1 (h j hlt)]
    rfl

theorem padded_of_length {data : Bytes} (h : data.length = K) : padded data = data := by
  rw [padded, h, Nat.sub_self, List.replicate_zero, List.append_nil]

theorem encode_of_length {data output : Bytes} (hdata : data.length = K)
    (houtput : output.length = N) :
    encode data output =
      (.ok N, data ++ (data.foldl divide (Vector.replicate PARITY 0)).toList) := by
  rw [encode, if_neg (by omega), if_neg (by omega)]
  dsimp only
  rw [padded_of_length hdata, List.drop_eq_nil_of_le (by omega), List.append_nil]

theorem horner_encoded {data : Bytes} (hdata : data.length = K) {j : Nat} (hj : j < PARITY) :
    horner (symbols (data ++ (data.foldl divide (Vector.replicate PARITY 0)).toList))
      (alpha ^ (FCR + j)) N = 0 := by
  have happ := horner_append_symbols data
    (data.foldl divide (Vector.replicate PARITY 0)).toList (alpha ^ (FCR + j))
  rw [Vector.length_toList, horner_foldl_divide (horner_generator hj), add_self, hdata] at happ
  exact happ

theorem alpha_roots_injOn :
    Set.InjOn (fun j => alpha ^ (FCR + j)) (Finset.range PARITY) := by
  intro i hi j hj h
  have hi' : i < 32 := Finset.mem_range.1 hi
  have hj' : j < 32 := Finset.mem_range.1 hj
  have hij : 112 + i = 112 + j := alpha_pow_inj (by omega) (by omega) h
  omega

theorem codeword_iff (c : Vector UInt8 N) : Codeword c ↔ NoSyndromes c := by
  constructor
  · intro h
    obtain ⟨data, output, hdata, houtput, henc⟩ := h
    rw [encode_of_length hdata houtput] at henc
    intro j hj
    rw [← (Prod.mk.inj henc).2]
    exact horner_encoded hdata hj
  · intro h
    have hK : (c.toList.take K).length = K := by
      rw [List.length_take, Vector.length_toList]
      rfl
    refine ⟨c.toList.take K, c.toList, hK, Vector.length_toList, ?_⟩
    rw [encode_of_length hK Vector.length_toList, Prod.mk.injEq]
    refine ⟨rfl, ?_⟩
    -- the remainder and the end of the word are registers with the same values at the roots
    have hlen : (c.toList.drop K).length = PARITY := by
      rw [List.length_drop, Vector.length_toList]
      rfl
    have hzero : ∀ i < PARITY,
        symbols ((c.toList.take K).foldl divide (Vector.replicate PARITY 0)).toList i +
          symbols (c.toList.drop K) i = 0 := by
      apply eq_zero_of_horner alpha_roots_injOn
      intro j hj
      have happ := horner_append_symbols (c.toList.take K) (c.toList.drop K) (alpha ^ (FCR + j))
      rw [List.take_append_drop, hK, hlen] at happ
      rw [horner_add, horner_foldl_divide (horner_generator hj), hK, ← happ]
      exact h j hj
    conv_rhs => rw [← List.take_append_drop K c.toList]
    congr 1
    apply List.ext_getElem
    · rw [hlen, Vector.length_toList]
    · intro i hi hi'
      have hsum := hzero i (by rwa [Vector.length_toList] at hi)
      rw [← sub_eq, sub_eq_zero, symbols, symbols, List.getD_eq_getElem _ _ hi,
        List.getD_eq_getElem _ _ hi'] at hsum
      exact congrArg byte hsum

end ReedSolomon
end Coding
end Leodos
