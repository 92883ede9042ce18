/-
The choice of a coding option for a block and the bits each option writes.

The cost of an option is the number of its bits.  The option chosen costs no more than the
block without compression, so none of its unary codes is long.
-/
import Leodos.Compression.Rice.Coding

namespace Leodos
namespace Compression
namespace Rice

open BitStream

inductive CodingOption where
  | zeroBlock
  | secondExtension
  | split (k : Nat)
  | noCompression
  deriving DecidableEq, Repr

/-! ## Costs -/

def costSplit (data : List Nat) (k : Nat) : Nat :=
  data.foldl (fun total d => total + ((d >>> k) + 1)) 0 + k * data.length

def gamma (d1 d2 : Nat) : Nat := (d1 + d2) * (d1 + d2 + 1) / 2 + d2

/-- The product and the total are what may leave 64 bits. -/
def costPairs : List Nat → Nat → Except Stop Nat
  | d1 :: d2 :: rest, total =>
    if 18446744073709551616 ≤ (d1 + d2) * (d1 + d2 + 1) then .error .panic
    else if 18446744073709551616 ≤ total + (gamma d1 d2 + 1) then .error .panic
    else costPairs rest (total + (gamma d1 d2 + 1))
  | _, total => .ok total

def costSecondExt (data : List Nat) : Except Stop (Option Nat) :=
  if data.length % 2 ≠ 0 then .ok none else do
    let total ← costPairs data 0
    .ok (some total)

def costNoComp (dataLen n : Nat) : Nat := dataLen * n

def bestSplit (data : List Nat) (idLen : Nat) (ks : List Nat) (best : Nat × CodingOption) :
    Nat × CodingOption :=
  ks.foldl (fun best k =>
    if costSplit data k + idLen < best.1 then (costSplit data k + idLen, .split k) else best) best

def bestPairs (seCost : Option Nat) (idLen : Nat) (best : Nat × CodingOption) :
    Nat × CodingOption :=
  match seCost with
  | some cost =>
    if cost + (idLen + 1) < best.1 then (cost + (idLen + 1), .secondExtension) else best
  | none => best

/-- The cheapest option, the first of equals. -/
def pickOption (seCost : Option Nat) (data : List Nat) (n idLen maxK : Nat) : CodingOption :=
  (bestSplit data idLen (List.range (maxK + 1))
    (bestPairs seCost idLen (costNoComp data.length n + idLen, .noCompression))).2

def selectOption (data : List Nat) (n idLen maxK : Nat) : Except Stop CodingOption :=
  if data.all (· == 0) then .ok .zeroBlock else do
    let seCost ← costSecondExt data
    match seCost with
    | some cost =>
      if 18446744073709551616 ≤ cost + (idLen + 1) then .error .panic
      else .ok (pickOption (some cost) data n idLen maxK)
    | none => .ok (pickOption none data n idLen maxK)

/-! ### The cost of the second extension -/

def pairTotal : List Nat → Nat
  | d1 :: d2 :: rest => gamma d1 d2 + 1 + pairTotal rest
  | _ => 0

def smallPairs : List Nat → Bool
  | d1 :: d2 :: rest => decide ((d1 + d2) * (d1 + d2 + 1) < 18446744073709551616) && smallPairs rest
  | _ => true

/-- The cost of the second extension is a 64-bit word all along. -/
def PairsFit (idLen : Nat) (data : List Nat) : Prop :=
  data.length % 2 = 0 →
    smallPairs data = true ∧ pairTotal data + (idLen + 1) < 18446744073709551616

instance (idLen : Nat) (data : List Nat) : Decidable (PairsFit idLen data) :=
  inferInstanceAs (Decidable (_ → _))

theorem costPairs_eq {data : List Nat} {total : Nat} (h : total < 18446744073709551616) :
    costPairs data total =
      if smallPairs data = true ∧ total + pairTotal data < 18446744073709551616 then
        .ok (total + pairTotal data)
      else .error .panic := by
  induction data, total using costPairs.induct with
  | case1 d1 d2 rest total hbig =>
    have hsmall : ¬ (smallPairs (d1 :: d2 :: rest) = true ∧
        total + pairTotal (d1 :: d2 :: rest) < 18446744073709551616) := by
      intro hfit
      have hprod := hfit.1
      rw [smallPairs, Bool.and_eq_true, decide_eq_true_iff] at hprod
      omega
    rw [costPairs, if_pos hbig, if_neg hsmall]
  | case2 d1 d2 rest total hprod hbig =>
    have hsmall : ¬ (smallPairs (d1 :: d2 :: rest) = true ∧
        total + pairTotal (d1 :: d2 :: rest) < 18446744073709551616) := by
      intro hfit
      have htotal := hfit.2
      rw [pairTotal] at htotal
      omega
    rw [costPairs, if_neg hprod, if_pos hbig, if_neg hsmall]
  | case3 d1 d2 rest total hprod hfit ih =>
    rw [costPairs, if_neg hprod, if_neg hfit, ih (by omega), smallPairs, pairTotal,
      decide_eq_true (by omega), Bool.true_and, Nat.add_assoc total]
  | case4 data total hshort =>
    have hend : smallPairs data = true ∧ pairTotal data = 0 := by
      rcases data with _ | ⟨d1, _ | ⟨d2, rest⟩⟩
      · exact ⟨rfl, rfl⟩
      · exact ⟨rfl, rfl⟩
      · exact absurd rfl (hshort d1 d2 rest)
    have hcost : costPairs data total = .ok total := by
      rcases data with _ | ⟨d1, _ | ⟨d2, rest⟩⟩
      · rfl
      · rfl
      · exact absurd rfl (hshort d1 d2 rest)
    rw [hcost, hend.2, Nat.add_zero, if_pos ⟨hend.1, h⟩]

def pairCost (data : List Nat) : Option Nat :=
  if data.length % 2 ≠ 0 then none else some (pairTotal data)

def bestOption (data : List Nat) (n idLen maxK : Nat) : CodingOption :=
  if data.all (· == 0) then .zeroBlock else pickOption (pairCost data) data n idLen maxK

theorem pairTotal_zeros {data : List Nat} (h : ∀ d ∈ data, d = 0) :
    smallPairs data = true ∧ pairTotal data ≤ data.length := by
  induction data using pairTotal.induct with
  | case1 d1 d2 rest ih =>
    obtain rfl := h d1 List.mem_cons_self
    obtain rfl := h d2 (List.mem_cons_of_mem _ List.mem_cons_self)
    have hrest := ih (fun d hd => h d (List.mem_cons_of_mem _ (List.mem_cons_of_mem _ hd)))
    have hgamma : gamma 0 0 = 0 := rfl
    rw [smallPairs, pairTotal, hgamma, List.length_cons, List.length_cons]
    exact ⟨hrest.1, by omega⟩
  | case2 data hshort =>
    rcases data with _ | ⟨d1, _ | ⟨d2, rest⟩⟩
    · exact ⟨rfl, Nat.le_refl 0⟩
    · exact ⟨rfl, Nat.zero_le _⟩
    · exact absurd rfl (hshort d1 d2 rest)

theorem all_zero_iff {data : List Nat} : data.all (· == 0) = true ↔ ∀ d ∈ data, d = 0 := by
  rw [List.all_eq_true]
  constructor
  · intro h d hd
    exact eq_of_beq (h d hd)
  · intro h d hd
    rw [h d hd]
    rfl

theorem selectOption_eq {data : List Nat} {idLen : Nat} (n maxK : Nat) (hlen : data.length ≤ 64)
    (hid : idLen ≤ 5) : selectOption data n idLen maxK =
      if PairsFit idLen data then .ok (bestOption data n idLen maxK) else .error .panic := by
  unfold selectOption bestOption
  by_cases hzero : data.all (· == 0) = true
  · have htotal := pairTotal_zeros (all_zero_iff.1 hzero)
    have hfits : PairsFit idLen data := fun _ => ⟨htotal.1, by omega⟩
    rw [if_pos hzero, if_pos hzero, if_pos hfits]
  · rw [if_neg hzero, if_neg hzero]
    unfold costSecondExt pairCost
    by_cases hodd : data.length % 2 ≠ 0
    · have hfits : PairsFit idLen data := fun heven => absurd heven hodd
      rw [if_pos hodd, if_pos hodd, if_pos hfits]
      rfl
    · have heven : data.length % 2 = 0 := by omega
      rw [if_neg hodd, if_neg hodd, costPairs_eq (by decide), Nat.zero_add]
      by_cases hfits : PairsFit idLen data
      · have hboth := hfits heven
        rw [if_pos hfits, if_pos ⟨hboth.1, by omega⟩]
        show (if 18446744073709551616 ≤ pairTotal data + (idLen + 1) then _ else _) = _
        rw [if_neg (by omega)]
      · rw [if_neg hfits]
        by_cases hcost : smallPairs data = true ∧ pairTotal data < 18446744073709551616
        · rw [if_pos hcost]
          show (if 18446744073709551616 ≤ pairTotal data + (idLen + 1) then _ else _) = _
          rw [if_pos]
          exact Nat.le_of_not_lt (fun hlt => hfits (fun _ => ⟨hcost.1, hlt⟩))
        · rw [if_neg hcost]
          rfl

/-! ### What the chosen option costs -/

/-- An option for data that are not all zero, with a cost up to the bound. -/
def Affordable (data : List Nat) (bound maxK : Nat) : CodingOption → Prop
  | .zeroBlock => False
  | .noCompression => True
  | .secondExtension => data.length % 2 = 0 ∧ pairTotal data ≤ bound
  | .split k => k ≤ maxK ∧ costSplit data k ≤ bound

/-- The best option so far, with its cost. -/
def Within (data : List Nat) (bound maxK : Nat) (best : Nat × CodingOption) : Prop :=
  best.1 ≤ bound ∧ Affordable data bound maxK best.2

theorem bestSplit_within {data : List Nat} {bound idLen maxK : Nat} {ks : List Nat}
    (hks : ∀ k ∈ ks, k ≤ maxK) {best : Nat × CodingOption} (h : Within data bound maxK best) :
    Within data bound maxK (bestSplit data idLen ks best) := by
  induction ks generalizing best with
  | nil => exact h
  | cons k ks ih =>
    have hcost := h.1
    have htail := fun k hk => hks k (List.mem_cons_of_mem _ hk)
    rw [bestSplit, List.foldl_cons]
    by_cases hless : costSplit data k + idLen < best.1
    · rw [if_pos hless]
      have hk := hks k List.mem_cons_self
      exact ih htail ⟨by omega, hk, by omega⟩
    · rw [if_neg hless]
      exact ih htail h

theorem bestPairs_within {data : List Nat} {bound idLen maxK : Nat} {best : Nat × CodingOption}
    (h : Within data bound maxK best) :
    Within data bound maxK (bestPairs (pairCost data) idLen best) := by
  have hcost := h.1
  unfold pairCost
  by_cases hodd : data.length % 2 ≠ 0
  · rw [if_pos hodd]
    exact h
  · rw [if_neg hodd, bestPairs]
    by_cases hless : pairTotal data + (idLen + 1) < best.1
    · rw [if_pos hless]
      exact ⟨by omega, by omega, by omega⟩
    · rw [if_neg hless]
      exact h

theorem pickOption_affordable (data : List Nat) (n idLen maxK : Nat) :
    Affordable data (data.length * n + idLen) maxK
      (pickOption (pairCost data) data n idLen maxK) := by
  have hks : ∀ k ∈ List.range (maxK + 1), k ≤ maxK := by
    intro k hk
    rw [List.mem_range] at hk
    omega
  have hstart : Within data (data.length * n + idLen) maxK
      (costNoComp data.length n + idLen, .noCompression) := ⟨Nat.le_refl _, trivial⟩
  exact (bestSplit_within hks (bestPairs_within hstart)).2

theorem foldl_add_ge (f : Nat → Nat) (data : List Nat) (total : Nat) :
    total ≤ data.foldl (fun total d => total + f d) total ∧
      ∀ d ∈ data, f d ≤ data.foldl (fun total d => total + f d) total := by
  induction data generalizing total with
  | nil => exact ⟨Nat.le_refl _, fun d hd => absurd hd List.not_mem_nil⟩
  | cons x data ih =>
    obtain ⟨htotal, hall⟩ := ih (total + f x)
    rw [List.foldl_cons]
    refine ⟨by omega, fun d hd => ?_⟩
    rcases List.mem_cons.1 hd with hd | hd
    · rw [hd]
      omega
    · exact hall d hd

theorem shift_le_costSplit {data : List Nat} {d : Nat} (hd : d ∈ data) (k : Nat) :
    d >>> k < costSplit data k := by
  have hall := (foldl_add_ge (fun d => (d >>> k) + 1) data 0).2 d hd
  unfold costSplit
  omega

end Rice
end Compression
end Leodos

/-
The code of a list of samples.

The samples are cut into blocks.  A block whose mapped errors are all zero joins the run of such
blocks before it, up to the end of a segment; any other block is coded with its best option.
The code is what comes out of these parts, one after the other.
-/

namespace Leodos
namespace Compression
namespace Rice

open BitStream

def segSize (c : Config) (blockIdx : Nat) : Nat :=
  if c.refInterval = 0 then 64
  else min (c.refInterval - blockIdx % 4294967296 % c.refInterval) 64

/-- The blocks that the segment of a block has left. -/
def segAt (c : Config) : Nat → Nat
  | 0 => segSize c 0
  | blk + 1 => if segAt c blk - 1 = 0 then segSize c (blk + 1) else segAt c blk - 1

theorem segSize_bounds (c : Config) (blk : Nat) : 1 ≤ segSize c blk ∧ segSize c blk ≤ 64 := by
  unfold segSize
  by_cases hzero : c.refInterval = 0
  · rw [if_pos hzero]
    decide
  · rw [if_neg hzero]
    have hmod := Nat.mod_lt (blk % 4294967296) (Nat.pos_of_ne_zero hzero)
    omega

theorem segAt_bounds (c : Config) (blk : Nat) : 1 ≤ segAt c blk ∧ segAt c blk ≤ 64 := by
  induction blk with
  | zero => exact segSize_bounds c 0
  | succ blk ih =>
    rw [segAt]
    by_cases hend : segAt c blk - 1 = 0
    · rw [if_pos hend]
      exact segSize_bounds c (blk + 1)
    · rw [if_neg hend]
      omega

theorem segAt_succ_of_lt {c : Config} {blk : Nat} (h : 1 < segAt c blk) :
    segAt c (blk + 1) + 1 = segAt c blk := by
  rw [segAt, if_neg (by omega)]
  omega

theorem segAt_le_interval {c : Config} (hr : 0 < c.refInterval) {blk : Nat}
    (h : blk < 4294967296) : segAt c blk ≤ c.refInterval - blk % c.refInterval := by
  have hsize : ∀ b, b < 4294967296 → segSize c b ≤ c.refInterval - b % c.refInterval := by
    intro b hb
    rw [segSize, if_neg (by omega), Nat.mod_eq_of_lt hb]
    exact Nat.min_le_left ..
  induction blk with
  | zero => exact hsize 0 h
  | succ blk ih =>
    have hbefore := ih (by omega)
    rw [segAt]
    by_cases hend : segAt c blk - 1 = 0
    · rw [if_pos hend]
      exact hsize _ h
    · rw [if_neg hend]
      have hlt : blk % c.refInterval + 1 < c.refInterval := by omega
      have hmod : (blk + 1) % c.refInterval = blk % c.refInterval + 1 := by
        rw [Nat.add_mod, Nat.mod_eq_of_lt (show 1 < c.refInterval by omega), Nat.mod_eq_of_lt hlt]
      omega

section
variable (c : Config) (samples : List Nat)

/-! ## Blocks -/

def blockAt (blk : Nat) : List Nat := (samples.drop (blk * c.blockSize)).take c.blockSize

def firstAt (blk : Nat) : Nat := (blockAt c samples blk).getD 0 0

/-- The last sample before a block. -/
def prevAt : Nat → Nat
  | 0 => 0
  | blk + 1 => (blockAt c samples blk).getD (c.blockSize - 1) 0

def refAt (blk : Nat) : Option Nat := if c.isRef blk then some (firstAt c samples blk) else none

/-- The data of a block: without its reference sample, and mapped when the preprocessor is on. -/
def dataAt (blk : Nat) : List Nat :=
  if c.preprocessor then
    if c.isRef blk then residuals c.xMax (firstAt c samples blk) ((blockAt c samples blk).drop 1)
    else residuals c.xMax (prevAt c samples blk) (blockAt c samples blk)
  else blockAt c samples blk

def maxK : Nat := min ((1 <<< c.idLen) - 3) (c.bitsPerSample - 2)

def optionAt (blk : Nat) : CodingOption :=
  bestOption (dataAt c samples blk) c.bitsPerSample c.idLen (maxK c)

def zeroAt (blk : Nat) : Bool := (dataAt c samples blk).all (· == 0)

/-! ## Parts -/

inductive Part where
  | zeros (start count : Nat) (ros : Bool)
  | coded (blk : Nat)
  deriving DecidableEq, Repr

/-- The number that stands for the length of a run; 4 is for the rest of the segment. -/
def runCode (count : Nat) (ros : Bool) : Nat :=
  if ros = true ∧ 5 ≤ count then 4 else if count ≤ 4 then count - 1 else count

def idBits (idLen : Nat) : CodingOption → List Bool
  | .zeroBlock => bitsOf (idLen + 1) 0
  | .secondExtension => bitsOf (idLen + 1) 1
  | .split k => bitsOf idLen (k + 1)
  | .noCompression => bitsOf idLen ((1 <<< idLen) - 1)

def refBits (n : Nat) : Option Nat → List Bool
  | some r => bitsOf n r
  | none => []

def pairBits : List Nat → List Bool
  | d1 :: d2 :: rest => unary (gamma d1 d2) ++ pairBits rest
  | _ => []

def dataBits (n : Nat) (data : List Nat) : CodingOption → List Bool
  | .zeroBlock => []
  | .secondExtension => pairBits data
  | .split k => (data.flatMap fun d => unary (d >>> k)) ++ data.flatMap (bitsOf k)
  | .noCompression => data.flatMap (bitsOf n)

def Part.bits : Part → List Bool
  | .zeros start count ros =>
    idBits c.idLen .zeroBlock ++ (refBits c.bitsPerSample (refAt c samples start) ++
      unary (runCode count ros))
  | .coded blk =>
    idBits c.idLen (optionAt c samples blk) ++ (refBits c.bitsPerSample (refAt c samples blk) ++
      dataBits c.bitsPerSample (dataAt c samples blk) (optionAt c samples blk))

/-- A run of zero blocks ends with its segment and with the samples. -/
def runEnds (total blk : Nat) : Prop := segAt c blk = 1 ∨ blk + 1 = total

instance (total blk : Nat) : Decidable (runEnds c total blk) := inferInstanceAs (Decidable (_ ∨ _))

/-- The parts that are complete with a block, after a run of zero blocks. -/
def partsAt (total blk run : Nat) : List Part :=
  if zeroAt c samples blk = true then
    if runEnds c total blk then [.zeros (blk - run) (run + 1) (decide (segAt c blk = 1))] else []
  else (if run = 0 then [] else [.zeros (blk - run) run false]) ++ [.coded blk]

def runAfter (total blk run : Nat) : Nat :=
  if zeroAt c samples blk = true ∧ ¬ runEnds c total blk then run + 1 else 0

def parts (total : Nat) : Nat → Nat → Nat → List Part
  | 0, _, _ => []
  | m + 1, blk, run =>
    partsAt c samples total blk run ++ parts total m (blk + 1) (runAfter c samples total blk run)

def numBlocks : Nat := samples.length / c.blockSize

def codeFrom (m blk run : Nat) : List Bool :=
  (parts c samples (numBlocks c samples) m blk run).flatMap (Part.bits c samples)

def code : List Bool := codeFrom c samples (numBlocks c samples) 0 0

/-- Whole blocks of samples in the range of the parameters. -/
structure Fitting : Prop where
  whole : samples.length % c.blockSize = 0
  range : ∀ x ∈ samples, x < 1 <<< c.bitsPerSample

end

section
variable {c : Config} {samples : List Nat}

theorem optionAt_zero_iff {blk : Nat} :
    optionAt c samples blk = .zeroBlock ↔ zeroAt c samples blk = true := by
  unfold optionAt bestOption zeroAt
  by_cases hzero : (dataAt c samples blk).all (· == 0) = true
  · rw [if_pos hzero]
    exact iff_of_true rfl hzero
  · rw [if_neg hzero]
    refine iff_of_false (fun hopt => ?_) hzero
    have haff := pickOption_affordable (dataAt c samples blk) c.bitsPerSample c.idLen (maxK c)
    rw [hopt] at haff
    exact haff

theorem optionAt_affordable {blk : Nat} (h : ¬ zeroAt c samples blk = true) :
    Affordable (dataAt c samples blk)
      ((dataAt c samples blk).length * c.bitsPerSample + c.idLen) (maxK c)
      (optionAt c samples blk) := by
  unfold zeroAt at h
  rw [optionAt, bestOption, if_neg h]
  exact pickOption_affordable _ _ _ _

theorem codeFrom_succ (m blk run : Nat) : codeFrom c samples (m + 1) blk run =
    (partsAt c samples (numBlocks c samples) blk run).flatMap (Part.bits c samples) ++
      codeFrom c samples m (blk + 1) (runAfter c samples (numBlocks c samples) blk run) := by
  rw [codeFrom, parts, List.flatMap_append]
  rfl

theorem length_blockAt {blk : Nat} (h : blk < numBlocks c samples) :
    (blockAt c samples blk).length = c.blockSize := by
  have hmul : (blk + 1) * c.blockSize ≤ samples.length / c.blockSize * c.blockSize :=
    Nat.mul_le_mul_right _ h
  have hdiv := Nat.div_mul_le_self samples.length c.blockSize
  rw [Nat.add_mul] at hmul
  rw [blockAt, List.length_take, List.length_drop]
  omega

theorem blockAt_le (hs : Fitting c samples) (blk : Nat) :
    ∀ x ∈ blockAt c samples blk, x ≤ c.xMax := by
  intro x hx
  have hlt := hs.range x (List.mem_of_mem_drop (List.mem_of_mem_take hx))
  have hmax := c.xMax_add_one
  rw [Nat.one_shiftLeft] at hlt
  omega

theorem getD_blockAt_le (hs : Fitting c samples) (blk i : Nat) :
    (blockAt c samples blk).getD i 0 ≤ c.xMax := by
  rw [List.getD_eq_getElem?_getD]
  cases hi : (blockAt c samples blk)[i]? with
  | none => exact Nat.zero_le _
  | some x => exact blockAt_le hs blk x (List.mem_of_getElem? hi)

theorem firstAt_le (hs : Fitting c samples) (blk : Nat) : firstAt c samples blk ≤ c.xMax :=
  getD_blockAt_le hs blk 0

theorem prevAt_le (hs : Fitting c samples) (blk : Nat) : prevAt c samples blk ≤ c.xMax := by
  cases blk with
  | zero => exact Nat.zero_le _
  | succ blk => exact getD_blockAt_le hs blk _

theorem blockAt_eq_cons (hv : c.Valid) {blk : Nat} (h : blk < numBlocks c samples) :
    blockAt c samples blk = firstAt c samples blk :: (blockAt c samples blk).drop 1 := by
  have hlen := length_blockAt h
  have hsize := hv.block_bounds
  unfold firstAt
  cases hb : blockAt c samples blk with
  | nil =>
    rw [hb, List.length_nil] at hlen
    omega
  | cons x xs => rfl

theorem isRef_preprocessor {blk : Nat} (h : c.isRef blk = true) : c.preprocessor = true := by
  unfold Config.isRef at h
  rw [Bool.and_eq_true, Bool.and_eq_true] at h
  exact h.1.1

theorem length_dataAt {blk : Nat} (h : blk < numBlocks c samples) :
    (dataAt c samples blk).length =
      if c.isRef blk = true then c.blockSize - 1 else c.blockSize := by
  have hlen := length_blockAt h
  unfold dataAt
  by_cases hpre : c.preprocessor = true
  · rw [if_pos hpre]
    by_cases href : c.isRef blk = true
    · rw [if_pos href, if_pos href, length_residuals, List.length_drop, hlen]
    · rw [if_neg href, if_neg href, length_residuals, hlen]
  · have href : ¬ c.isRef blk = true := fun href => hpre (isRef_preprocessor href)
    rw [if_neg hpre, if_neg href, hlen]

theorem dataAt_le (hs : Fitting c samples) (blk : Nat) :
    ∀ d ∈ dataAt c samples blk, d ≤ c.xMax := by
  unfold dataAt
  by_cases hpre : c.preprocessor = true
  · rw [if_pos hpre]
    by_cases href : c.isRef blk = true
    · rw [if_pos href]
      exact residuals_le (firstAt_le hs blk)
        (fun x hx => blockAt_le hs blk x (List.mem_of_mem_drop hx))
    · rw [if_neg href]
      exact residuals_le (prevAt_le hs blk) (blockAt_le hs blk)
  · rw [if_neg hpre]
    exact blockAt_le hs blk

end

end Rice
end Compression
end Leodos
