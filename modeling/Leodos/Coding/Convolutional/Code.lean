/-
The convolutional code of rate one half and its decoder, `coding/fec/convolutional.rs`.

`none` stands for a panic.  Path metrics are integers of 32 bits: a sum saturates, and a
difference out of range panics.
-/
import Leodos.Assignment.Loop
import Leodos.Bits.Stream
import Leodos.Coding.Trellis
import Leodos.Spp.Sequence
import Mathlib.Algebra.Group.Int.Defs
import Mathlib.Data.Finset.Max
import Mathlib.Data.Fintype.Basic
import Mathlib.Data.List.GetD
import Mathlib.Tactic.IntervalCases
import Mathlib.Tactic.Linarith

namespace Leodos
namespace Coding
namespace Convolutional

open Spp

def K : Nat := 7

def MEMORY : Nat := K - 1

def NUM_STATES : Nat := 1 <<< MEMORY

def G1 : Nat := 0x79

def G2 : Nat := 0x5b

def TRACEBACK_DEPTH : Nat := 5 * K

def NEGINF : Int := -2 ^ 31 / 2

inductive ConvError where
  | bufferTooSmall (required provided : Nat)
  | oddLlrCount
  | frameTooShort
  deriving DecidableEq, Repr

def countOnes (x : Nat) : Nat := (List.range 8).countP fun i => x.testBit i

/-- The entry of the table for a state and an input. -/
def BRANCH (s b : Nat) : Nat × Nat :=
  let reg := (b <<< 6) ||| s
  (countOnes (reg &&& G1) &&& 1, countOnes (reg &&& G2) &&& 1)

def encodedLen (dataLen : Nat) : Nat :=
  let codedBits := (dataLen * 8 + MEMORY) * 2
  (codedBits + 7) / 8

/-! ## Encoding -/

/-- `output[i / 8] |= g << (7 - i % 8)`. -/
def orBit (output : Bytes) (i g : Nat) : Option Bytes :=
  if i / 8 < output.length then
    some (output.set (i / 8) (output.getD (i / 8) 0 ||| UInt8.ofNat (g <<< (7 - i % 8))))
  else none

structure Encoder where
  output : Bytes
  oi : Nat
  state : Nat

/-- The two symbols for an input, and the next state. -/
def Encoder.put (e : Encoder) (b : Nat) : Option Encoder := do
  let (g1, g2) := BRANCH e.state b
  let output ← orBit e.output e.oi g1
  let output ← orBit output (e.oi + 1) g2
  return ⟨output, e.oi + 2, (e.state >>> 1) ||| (b <<< 5)⟩

def Encoder.byte (e : Encoder) (byte : UInt8) : Option Encoder :=
  (List.range 8).reverse.foldlM (fun e bitPos => e.put ((byte.toNat >>> bitPos) &&& 1)) e

def encode (data output : Bytes) : Option (Except ConvError Nat × Bytes) :=
  let outLen := encodedLen data.length
  if output.length < outLen then
    some (.error (.bufferTooSmall outLen output.length), output)
  else do
    let start : Encoder := ⟨List.replicate outLen 0 ++ output.drop outLen, 0, 0⟩
    let e ← data.foldlM Encoder.byte start
    let e ← (List.range MEMORY).foldlM (fun e _ => e.put 0) e
    return (.ok outLen, e.output)

/-- One entry of `hard_to_llr`. -/
def hardStep (bits : Bytes) (magnitude : Int16) (llrs : List Int16) (i : Nat) :
    Option (List Int16) := do
  let byte ← bits[i / 8]?
  let bit := (byte.toNat >>> (7 - i % 8)) &&& 1
  return llrs.set i (if bit = 0 then magnitude else -magnitude)

def hardToLlr (bits : Bytes) (numBits : Nat) (magnitude : Int16) (llrs : List Int16) :
    Option (List Int16) :=
  (List.range (min numBits llrs.length)).foldlM (hardStep bits magnitude) llrs

/-! ## One step of the decoder -/

def InRange (a : Int) : Prop := -2 ^ 31 ≤ a ∧ a < 2 ^ 31

instance (a : Int) : Decidable (InRange a) := inferInstanceAs (Decidable (_ ∧ _))

def saturatingAdd (a b : Int) : Int := max (-2 ^ 31) (min (a + b) (2 ^ 31 - 1))

/-- `bm[g1][g2]`. -/
def branchMetric (l1 l2 : Int) (g : Nat × Nat) : Int :=
  if g.1 = 0 then if g.2 = 0 then l1 + l2 else l1 - l2
  else if g.2 = 0 then -l1 + l2 else -l1 - l2

abbrev State := Fin NUM_STATES

abbrev Metrics := Vector Int NUM_STATES

/-- `((s << 1) | d) & (NUM_STATES - 1)`, the state before `s`. -/
def before (s : State) (d : Bool) : State :=
  ⟨((s.1 <<< 1) ||| d.toNat) &&& (NUM_STATES - 1),
    Nat.lt_of_le_of_lt Nat.and_le_right (by decide)⟩

def input (s : State) : Nat := (s.1 >>> 5) &&& 1

def candidate (l1 l2 : Int) (pm : Metrics) (ns : State) (d : Bool) : Int :=
  saturatingAdd pm[before ns d] (branchMetric l1 l2 (BRANCH (before ns d) (input ns)))

def chooses (l1 l2 : Int) (pm : Metrics) (ns : State) : Bool :=
  candidate l1 l2 pm ns true > candidate l1 l2 pm ns false

def select (l1 l2 : Int) (pm : Metrics) : Metrics :=
  Vector.ofFn fun ns => candidate l1 l2 pm ns (chooses l1 l2 pm ns)

def decisionWord (l1 l2 : Int) (pm : Metrics) : Nat :=
  (List.finRange NUM_STATES).foldl
    (fun dword ns => if chooses l1 l2 pm ns then dword ||| (1 <<< ns.1) else dword) 0

def minMetric (pm : Metrics) : Int :=
  pm.toList.tail.foldl (fun minVal m => if m < minVal then m else minVal) (pm.toList.headD 0)

/-- The metrics less the smallest one, every 256 steps. -/
def normalize (step : Nat) (pm : Metrics) : Option Metrics :=
  if step &&& 0xff = 0xff then
    if pm.toList.all fun m => InRange (m - minMetric pm) then some (pm.map (· - minMetric pm))
    else none
  else some pm

def bestState (pm : Metrics) : State :=
  (List.finRange NUM_STATES).tail.foldl (fun best s => if pm[s] > pm[best] then s else best)
    ⟨0, by decide⟩

/-! ## Tracing back -/

abbrev Decisions := Vector Nat TRACEBACK_DEPTH

abbrev Slot := Fin TRACEBACK_DEPTH

def prevSlot (slot : Slot) : Slot :=
  if slot.1 = 0 then ⟨TRACEBACK_DEPTH - 1, by decide⟩ else ⟨slot.1 - 1, by omega⟩

def traceStep (decisions : Decisions) (p : State × Slot) : State × Slot :=
  (before p.1 (decisions[p.2].testBit p.1.1), prevSlot p.2)

def trace (decisions : Decisions) (p : State × Slot) : Nat → State × Slot
  | 0 => p
  | n + 1 => traceStep decisions (trace decisions p n)

def slotOf (step : Nat) : Slot := ⟨step % TRACEBACK_DEPTH, Nat.mod_lt _ (by decide)⟩

/-! ## Decoding -/

structure Decoder where
  pm : Metrics
  decisions : Decisions
  decoded : Nat
  output : Bytes

def Decoder.emit (d : Decoder) (bit : Nat) : Option Decoder := do
  let output ← if bit = 1 then orBit d.output d.decoded 1 else some d.output
  return { d with output := output, decoded := d.decoded + 1 }

/-- One trellis step, and a bit once the window is full. -/
def Decoder.step (llrs : List Int16) (infoBits : Nat) (d : Decoder) (step : Nat) :
    Option Decoder := do
  let l1 := (← llrs[2 * step]?).toInt
  let l2 := (← llrs[2 * step + 1]?).toInt
  let pm ← normalize step (select l1 l2 d.pm)
  let decisions := d.decisions.set (slotOf step) (decisionWord l1 l2 d.pm)
  let d : Decoder := { d with pm := pm, decisions := decisions }
  if step ≥ TRACEBACK_DEPTH - 1 ∧ d.decoded < infoBits then
    d.emit (input (trace decisions (bestState pm, slotOf step) (TRACEBACK_DEPTH - 1)).1)
  else return d

/-- `bits[i]`, the input of the step that is `i` steps before the last one. -/
def tailBit (decisions : Decisions) (numSteps i : Nat) : Nat :=
  input (trace decisions (⟨0, by decide⟩, slotOf (numSteps - 1)) i).1

def finalStep (numSteps : Nat) (d : Decoder) (decoded : Nat) : Option Decoder :=
  let revIdx := numSteps - 1 - decoded
  let available := min numSteps TRACEBACK_DEPTH
  d.emit (if revIdx < available then tailBit d.decisions numSteps revIdx else 0)

def Decoder.final (numSteps infoBits : Nat) (d : Decoder) : Option Decoder :=
  (List.range' d.decoded (infoBits - d.decoded)).foldlM (finalStep numSteps) d

def startMetrics : Metrics := Vector.ofFn fun s => if s.1 = 0 then 0 else NEGINF

def initial (output : Bytes) : Decoder := ⟨startMetrics, Vector.replicate _ 0, 0, output⟩

/-- The decoder after `t` steps. -/
def run (llrs : List Int16) (infoBits : Nat) (output : Bytes) (t : Nat) : Option Decoder :=
  let outBytes := (infoBits + 7) / 8
  (List.range t).foldlM (Decoder.step llrs infoBits)
    (initial (List.replicate outBytes 0 ++ output.drop outBytes))

def decode (llrs : List Int16) (output : Bytes) : Option (Except ConvError Nat × Bytes) :=
  if llrs.length % 2 ≠ 0 then some (.error .oddLlrCount, output)
  else
    let numSteps := llrs.length / 2
    if numSteps < MEMORY then some (.error .frameTooShort, output)
    else
      let infoBits := numSteps - MEMORY
      let outBytes := (infoBits + 7) / 8
      if output.length < outBytes then
        some (.error (.bufferTooSmall outBytes output.length), output)
      else do
        let d ← run llrs infoBits output numSteps
        let d ← d.final numSteps infoBits
        return (.ok outBytes, d.output)

end Convolutional
end Coding
end Leodos

/-
The encoder walks along one path of the trellis.
-/

namespace Leodos
namespace Coding
namespace Convolutional

open Assignment BitStream Spp

theorem testBit_shiftLeft_octet {g i j : Nat} (hg : g < 2) :
    (UInt8.ofNat (g <<< (7 - i % 8))).toNat.testBit (7 - j % 8) =
      (decide (g = 1) && decide (j % 8 = i % 8)) := by
  have h : ∀ g < 2, ∀ a < 8, ∀ b < 8, (UInt8.ofNat (g <<< (7 - a))).toNat.testBit (7 - b) =
      (decide (g = 1) && decide (b = a)) := by decide
  exact h g hg _ (Nat.mod_lt i (by decide)) _ (Nat.mod_lt j (by decide))

theorem orBit_eq (output : Bytes) {i g : Nat} (hi : i / 8 < output.length) (hg : g < 2) :
    ∃ output', orBit output i g = some output' ∧ output'.length = output.length ∧
      ∀ j, bitAt output' j = (bitAt output j || (decide (j = i) && decide (g = 1))) := by
  refine ⟨_, if_pos hi, List.length_set, ?_⟩
  intro j
  rw [bitAt_set hi]
  split
  · next hj =>
    have hij : decide (j % 8 = i % 8) = decide (j = i) := by
      rw [decide_eq_decide]
      omega
    rw [UInt8.toNat_or, Nat.testBit_or, testBit_shiftLeft_octet hg, hij, Bool.and_comm, bitAt, hj]
  · next hj =>
    have hne : j ≠ i := fun h => hj (congrArg (· / 8) h)
    rw [decide_eq_false hne, Bool.false_and, Bool.or_false]

/-! ## The path -/

def next (s : State) (b : Bool) : State :=
  ⟨(s.1 >>> 1) ||| (b.toNat <<< 5), by revert s b; decide⟩

theorem before_next (s : State) (b : Bool) : before (next s b) (s.1 % 2 == 1) = s := by
  revert s b
  decide

theorem input_next (s : State) (b : Bool) : input (next s b) = b.toNat := by
  revert s b
  decide

theorem next_before (s : State) (d : Bool) : next (before s d) (input s == 1) = s := by
  revert s d
  decide

def pathAt (bits : Nat → Bool) : Nat → State
  | 0 => ⟨0, by decide⟩
  | t + 1 => next (pathAt bits t) (bits t)

/-- The code symbol with index `i`. -/
def symbolAt (bits : Nat → Bool) (i : Nat) : Nat :=
  let g := BRANCH (pathAt bits (i / 2)) (bits (i / 2)).toNat
  if i % 2 = 0 then g.1 else g.2

theorem branch_lt (s b : Nat) : (BRANCH s b).1 < 2 ∧ (BRANCH s b).2 < 2 :=
  ⟨Nat.lt_succ_of_le Nat.and_le_right, Nat.lt_succ_of_le Nat.and_le_right⟩

/-- The inputs for some data; behind it they are zero. -/
def bitsOfData (data : Bytes) (t : Nat) : Bool := (octetBits data).getD t false

def inputs (data : Bytes) : List Bool := octetBits data ++ List.replicate MEMORY false

theorem length_inputs (data : Bytes) : (inputs data).length = 8 * data.length + MEMORY := by
  rw [inputs, List.length_append, length_octetBits, List.length_replicate]

theorem getD_inputs (data : Bytes) (t : Nat) : (inputs data).getD t false = bitsOfData data t := by
  rw [inputs, bitsOfData, List.getD_eq_getElem?_getD, List.getD_eq_getElem?_getD,
    List.getElem?_append]
  split
  · rfl
  · next h =>
    rw [List.getElem?_eq_none (Nat.le_of_not_lt h), List.getElem?_replicate]
    split <;> rfl

/-! ## Encoding -/

theorem byte_eq (e : Encoder) (byte : UInt8) :
    e.byte byte = (bitsOf 8 byte.toNat).foldlM (fun e b => e.put b.toNat) e := by
  have hbit : ∀ p, (byte.toNat >>> p) &&& 1 = (byte.toNat.testBit p).toNat := by
    intro p
    rw [Nat.toNat_testBit, Nat.and_one_is_mod, Nat.shiftRight_eq_div_pow]
  rw [Encoder.byte]
  simp only [hbit]
  rfl

theorem foldlM_byte (data : Bytes) (e : Encoder) :
    data.foldlM Encoder.byte e = (octetBits data).foldlM (fun e b => e.put b.toNat) e := by
  induction data generalizing e with
  | nil => rfl
  | cons byte data ih =>
    rw [octetBits_cons, List.foldlM_append, List.foldlM_cons, byte_eq]
    congr 1
    funext e
    exact ih e

theorem foldlM_tail (n : Nat) (e : Encoder) :
    (List.range n).foldlM (fun e _ => e.put 0) e =
      (List.replicate n false).foldlM (fun e b => e.put b.toNat) e := by
  have h : ∀ xs : List Nat, xs.foldlM (fun e _ => e.put 0) e =
      (List.replicate xs.length false).foldlM (fun e b => e.put b.toNat) e := by
    intro xs
    induction xs generalizing e with
    | nil => rfl
    | cons x xs ih =>
      rw [List.length_cons, List.replicate_succ, List.foldlM_cons, List.foldlM_cons]
      congr 1
      funext e
      exact ih e
  rw [h, List.length_range]

/-- The encoder after `t` inputs. -/
structure Encoded (bits : Nat → Bool) (outLen size t : Nat) (e : Encoder) : Prop where
  oi : e.oi = 2 * t
  state : e.state = pathAt bits t
  size : e.output.length = size
  done : ∀ i < 2 * t, bitAt e.output i = decide (symbolAt bits i = 1)
  rest : ∀ i, 2 * t ≤ i → i < 8 * outLen → bitAt e.output i = false

theorem Encoded.put {bits : Nat → Bool} {outLen size t : Nat} {e : Encoder}
    (h : Encoded bits outLen size t e) (ht : 2 * t + 2 ≤ 8 * outLen) (hsize : outLen ≤ size) :
    ∃ e', e.put (bits t).toNat = some e' ∧ Encoded bits outLen size (t + 1) e' := by
  obtain ⟨h1, h2⟩ := branch_lt (pathAt bits t) (bits t).toNat
  have hlen := h.size
  obtain ⟨out1, horb1, hlen1, hbit1⟩ := orBit_eq e.output (i := 2 * t) (by omega) h1
  obtain ⟨out2, horb2, hlen2, hbit2⟩ := orBit_eq out1 (i := 2 * t + 1) (by omega) h2
  refine ⟨⟨out2, 2 * t + 2, (e.state >>> 1) ||| ((bits t).toNat <<< 5)⟩, ?_, rfl, ?_, ?_, ?_, ?_⟩
  · rw [Encoder.put, h.oi, h.state]
    simp only [Option.bind_eq_bind, horb1, Option.bind_some, horb2]
    rfl
  · rw [h.state]
    rfl
  · rw [hlen2, hlen1, hlen]
  · intro i hi
    rw [hbit2, hbit1]
    by_cases h0 : i = 2 * t
    · subst h0
      rw [h.rest _ (Nat.le_refl _) (by omega), symbolAt, Nat.mul_div_cancel_left t (by decide),
        Nat.mul_mod_right]
      simp
    · by_cases h1 : i = 2 * t + 1
      · subst h1
        rw [h.rest _ (by omega) (by omega), symbolAt, show (2 * t + 1) / 2 = t by omega,
          show (2 * t + 1) % 2 = 1 by omega]
        simp
      · rw [h.done i (by omega)]
        simp [h0, h1]
  · intro i hi hlt
    rw [hbit2, hbit1, h.rest i (by omega) hlt]
    simp [show ¬i = 2 * t by omega, show ¬i = 2 * t + 1 by omega]

theorem encode_eq (data : Bytes) {output : Bytes}
    (houtput : encodedLen data.length ≤ output.length) :
    ∃ coded, encode data output = some (.ok (encodedLen data.length), coded) ∧
      coded.length = output.length ∧ ∀ i < 2 * (8 * data.length + MEMORY),
        bitAt coded i = decide (symbolAt (bitsOfData data) i = 1) := by
  have hroom : 2 * (8 * data.length + MEMORY) ≤ 8 * encodedLen data.length := by
    rw [encodedLen]
    omega
  have hsize : (List.replicate (encodedLen data.length) (0 : UInt8) ++
      output.drop (encodedLen data.length)).length = output.length := by
    rw [List.length_append, List.length_replicate, List.length_drop]
    omega
  obtain ⟨e, hfold, henc⟩ := foldlM_of_inv (fun e (b : Bool) => Encoder.put e b.toNat)
    (fun done e => Encoded (bitsOfData data) (encodedLen data.length) output.length done.length e)
    (inputs data)
    ⟨List.replicate (encodedLen data.length) 0 ++ output.drop (encodedLen data.length), 0, 0⟩
    ⟨rfl, rfl, hsize, fun i hi => absurd hi (Nat.not_lt_zero i), by
      intro i _ hi
      rw [bitAt, List.getD_eq_getElem?_getD, List.getElem?_append_left
        (by rw [List.length_replicate]; omega), List.getElem?_replicate,
        if_pos (show i / 8 < encodedLen data.length by omega)]
      exact Nat.zero_testBit _⟩
    (by
      intro done b rest e hxs h
      have hb : bitsOfData data done.length = b := by
        rw [← getD_inputs, hxs, List.getD_eq_getElem?_getD,
          List.getElem?_append_right (Nat.le_refl _), Nat.sub_self]
        rfl
      have hlen := length_inputs data
      rw [hxs, List.length_append, List.length_cons] at hlen
      obtain ⟨e', hput, h'⟩ := h.put (by omega) houtput
      rw [hb] at hput
      exact ⟨e', hput, by rwa [List.length_append, List.length_singleton]⟩)
  refine ⟨e.output, ?_, henc.size, ?_⟩
  · rw [inputs, List.foldlM_append] at hfold
    obtain ⟨e₁, hdata, htail⟩ := Option.bind_eq_some_iff.1 hfold
    rw [encode]
    simp only [if_neg (Nat.not_lt.2 houtput), foldlM_byte, foldlM_tail, hdata, htail,
      Option.bind_eq_bind, Option.bind_some]
    rfl
  · intro i hi
    apply henc.done
    rwa [length_inputs]

end Convolutional
end Coding
end Leodos

/-
Path metrics stay within 32 bits.

Every state is six steps away from every other one, so the metrics lie close together, and the
subtraction every 256 steps keeps them near zero.
-/

namespace Leodos
namespace Coding
namespace Convolutional

/-- The most that a branch adds or takes away. -/
def STEP : Int := 2 ^ 16

theorem before_val (s : State) (d : Bool) : (before s d).1 = (2 * s.1 + d.toNat) % 64 := by
  revert s d
  decide

def Pair (l1 l2 : Int) : Prop := -2 ^ 15 ≤ l1 ∧ l1 < 2 ^ 15 ∧ -2 ^ 15 ≤ l2 ∧ l2 < 2 ^ 15

theorem branchMetric_bounds {l1 l2 : Int} (h : Pair l1 l2) (g : Nat × Nat) :
    -STEP ≤ branchMetric l1 l2 g ∧ branchMetric l1 l2 g ≤ STEP := by
  obtain ⟨h1, h1', h2, h2'⟩ := h
  unfold branchMetric STEP
  split <;> split <;> omega

def Within (lo hi : Int) (pm : Metrics) : Prop := ∀ s : State, lo ≤ pm[s] ∧ pm[s] ≤ hi

/-- The sum that a candidate stands for, before it saturates. -/
def sum (l1 l2 : Int) (pm : Metrics) (ns : State) (d : Bool) : Int :=
  pm[before ns d] + branchMetric l1 l2 (BRANCH (before ns d) (input ns))

theorem candidate_eq {l1 l2 : Int} {pm : Metrics} {ns : State} {d : Bool}
    (h : InRange (sum l1 l2 pm ns d)) : candidate l1 l2 pm ns d = sum l1 l2 pm ns d := by
  obtain ⟨hlo, hhi⟩ := h
  rw [candidate, saturatingAdd]
  unfold sum at hlo hhi ⊢
  omega

section Step

variable {l1 l2 lo hi : Int} {pm : Metrics}

theorem sum_bounds (hpair : Pair l1 l2) (h : Within lo hi pm) (ns : State) (d : Bool) :
    lo - STEP ≤ sum l1 l2 pm ns d ∧ sum l1 l2 pm ns d ≤ hi + STEP := by
  obtain ⟨hblo, hbhi⟩ := branchMetric_bounds hpair (BRANCH (before ns d) (input ns))
  obtain ⟨hlo, hhi⟩ := h (before ns d)
  unfold sum
  omega

/-- No sum leaves the range. -/
def Exact (l1 l2 : Int) (pm : Metrics) : Prop := ∀ ns d, InRange (sum l1 l2 pm ns d)

theorem exact_of_within (hpair : Pair l1 l2) (h : Within lo hi pm) (hlo : -2 ^ 31 + STEP ≤ lo)
    (hhi : hi + STEP < 2 ^ 31) : Exact l1 l2 pm := by
  intro ns d
  obtain ⟨h1, h2⟩ := sum_bounds hpair h ns d
  exact ⟨by omega, by omega⟩

theorem getElem_select (l1 l2 : Int) (pm : Metrics) (ns : State) :
    (select l1 l2 pm)[ns] = candidate l1 l2 pm ns (chooses l1 l2 pm ns) := by
  rw [select, Fin.getElem_fin, Vector.getElem_ofFn]

theorem select_eq (h : Exact l1 l2 pm) (ns : State) :
    (select l1 l2 pm)[ns] = sum l1 l2 pm ns (chooses l1 l2 pm ns) := by
  rw [getElem_select, candidate_eq (h ns _)]

theorem le_select (h : Exact l1 l2 pm) (ns : State) (d : Bool) :
    sum l1 l2 pm ns d ≤ (select l1 l2 pm)[ns] := by
  have hle : candidate l1 l2 pm ns d ≤ candidate l1 l2 pm ns (chooses l1 l2 pm ns) := by
    cases hc : chooses l1 l2 pm ns with
    | true =>
      have hgt := of_decide_eq_true hc
      cases d with
      | true => exact le_rfl
      | false => exact le_of_lt hgt
    | false =>
      have hle := not_lt.1 (of_decide_eq_false hc)
      cases d with
      | true => exact hle
      | false => exact le_rfl
  rw [getElem_select, ← candidate_eq (h ns d)]
  exact hle

theorem within_select (hpair : Pair l1 l2) (h : Within lo hi pm) (hexact : Exact l1 l2 pm) :
    Within (lo - STEP) (hi + STEP) (select l1 l2 pm) := by
  intro ns
  rw [select_eq hexact]
  exact sum_bounds hpair h ns _

/-! ## The spread -/

/-- After `k` steps from a best state `p`: nothing is far above it, and nothing that `p` leads to
is far below it. -/
def Spread (k : Nat) (pm : Metrics) : Prop :=
  ∃ (best : Int) (p : State), (∀ s : State, pm[s] ≤ best + k * STEP) ∧
    ∀ s : State, s.1 % 2 ^ (6 - k) = p.1 / 2 ^ k → best - k * STEP ≤ pm[s]

theorem spread_zero (pm : Metrics) : Spread 0 pm := by
  obtain ⟨p, _, hp⟩ := Finset.exists_max_image Finset.univ (fun s : State => pm[s])
    ⟨⟨0, by decide⟩, Finset.mem_univ _⟩
  refine ⟨pm[p], p, ?_, ?_⟩
  · intro s
    have hle := hp s (Finset.mem_univ s)
    omega
  · intro s hs
    have hlt : s.1 < 64 := s.2
    have hsp : s = p := Fin.ext (by omega)
    rw [hsp]
    omega

theorem Spread.step {k : Nat} (h : Spread k pm) (hk : k < 6) (hpair : Pair l1 l2)
    (hexact : Exact l1 l2 pm) : Spread (k + 1) (select l1 l2 pm) := by
  obtain ⟨best, p, hhi, hlo⟩ := h
  refine ⟨best, p, ?_, ?_⟩
  · intro s
    have hb := (branchMetric_bounds hpair (BRANCH (before s (chooses l1 l2 pm s)) (input s))).2
    have hp := hhi (before s (chooses l1 l2 pm s))
    rw [select_eq hexact, sum]
    push_cast
    linarith
  · intro s hs
    -- the bit of `p` that falls out leads back towards it
    have hback : (before s (p.1 / 2 ^ k % 2 == 1)).1 % 2 ^ (6 - k) = p.1 / 2 ^ k := by
      have hp64 : p.1 < 64 := p.2
      have hs64 : s.1 < 64 := s.2
      have hd : (p.1 / 2 ^ k % 2 == 1).toNat = p.1 / 2 ^ k % 2 := by
        rcases Nat.mod_two_eq_zero_or_one (p.1 / 2 ^ k) with h | h <;> rw [h] <;> rfl
      rw [before_val, hd]
      interval_cases k <;> simp only [Nat.reduceAdd, Nat.reduceSub, Nat.reducePow] at hs ⊢ <;> omega
    have hp := hlo _ hback
    have hb := (branchMetric_bounds hpair
      (BRANCH (before s (p.1 / 2 ^ k % 2 == 1)) (input s))).1
    have hle := le_select hexact s (p.1 / 2 ^ k % 2 == 1)
    rw [sum] at hle
    push_cast
    linarith

theorem Spread.diff (h : Spread 6 pm) (s s' : State) : pm[s] - pm[s'] ≤ 12 * STEP := by
  obtain ⟨best, p, hhi, hlo⟩ := h
  have hs := hhi s
  have hs' := hlo s' (by
    have hp : p.1 < 64 := p.2
    omega)
  push_cast at hs hs'
  linarith

end Step

/-! ## The metrics over time -/

theorem foldl_min (xs : List Int) (a : Int) :
    let m := xs.foldl (fun minVal m => if m < minVal then m else minVal) a
    m ≤ a ∧ (∀ x ∈ xs, m ≤ x) ∧ (m = a ∨ m ∈ xs) := by
  induction xs generalizing a with
  | nil => exact ⟨le_rfl, fun x hx => absurd hx List.not_mem_nil, .inl rfl⟩
  | cons x xs ih =>
    obtain ⟨hle, hall, hmem⟩ := ih (if x < a then x else a)
    rw [List.foldl_cons]
    refine ⟨hle.trans (by split <;> omega), ?_, ?_⟩
    · intro y hy
      rcases List.mem_cons.1 hy with rfl | hy
      · exact hle.trans (by split <;> omega)
      · exact hall y hy
    · rcases hmem with hmem | hmem
      · rw [hmem]
        split
        · exact .inr List.mem_cons_self
        · exact .inl rfl
      · exact .inr (List.mem_cons_of_mem _ hmem)

theorem minMetric_spec (pm : Metrics) :
    (∀ s : State, minMetric pm ≤ pm[s]) ∧ ∃ s : State, minMetric pm = pm[s] := by
  have hne : pm.toList ≠ [] := by
    intro h
    have hlen := congrArg List.length h
    rw [Vector.length_toList] at hlen
    exact absurd hlen (by decide)
  obtain ⟨a, xs, hxs⟩ := List.exists_cons_of_ne_nil hne
  obtain ⟨hle, hall, hmem⟩ := foldl_min xs a
  have hmin : minMetric pm = xs.foldl (fun minVal m => if m < minVal then m else minVal) a := by
    rw [minMetric, hxs]
    rfl
  have hin : ∀ m, m ∈ pm.toList ↔ ∃ s : State, m = pm[s] := by
    intro m
    rw [List.mem_iff_getElem]
    constructor
    · intro h
      obtain ⟨i, hi, rfl⟩ := h
      exact ⟨⟨i, by rwa [Vector.length_toList] at hi⟩, Vector.getElem_toList _⟩
    · intro h
      obtain ⟨s, rfl⟩ := h
      exact ⟨s.1, by rw [Vector.length_toList]; exact s.2, Vector.getElem_toList _⟩
  rw [hmin]
  constructor
  · intro s
    have hs := (hin pm[s]).2 ⟨s, rfl⟩
    rw [hxs] at hs
    rcases List.mem_cons.1 hs with hs | hs
    · rw [hs]
      exact hle
    · exact hall _ hs
  · rw [← hin, hxs]
    rcases hmem with hmem | hmem
    · rw [hmem]
      exact List.mem_cons_self
    · exact List.mem_cons_of_mem _ hmem

/-- `normalize`, for metrics that lie close together. -/
def normalized (step : Nat) (pm : Metrics) : Metrics :=
  if step &&& 0xff = 0xff then pm.map (· - minMetric pm) else pm

def shiftOf (step : Nat) (pm : Metrics) : Int := if step &&& 0xff = 0xff then minMetric pm else 0

theorem getElem_normalized (step : Nat) (pm : Metrics) (s : State) :
    (normalized step pm)[s] + shiftOf step pm = pm[s] := by
  rw [normalized, shiftOf]
  split
  · rw [Fin.getElem_fin, Vector.getElem_map, Int.sub_add_cancel]
    rfl
  · exact Int.add_zero _

theorem normalize_eq {step : Nat} {pm : Metrics} (h : step &&& 0xff = 0xff → Spread 6 pm) :
    normalize step pm = some (normalized step pm) := by
  rw [normalize, normalized]
  split
  · next hstep =>
    apply if_pos
    rw [List.all_eq_true]
    intro m hm
    obtain ⟨i, hi, rfl⟩ := List.getElem_of_mem hm
    rw [Vector.length_toList] at hi
    obtain ⟨hmin, s, hs⟩ := minMetric_spec pm
    have hlo : minMetric pm ≤ pm[i] := hmin ⟨i, hi⟩
    have hdiff : pm[i] - pm[s] ≤ 12 * STEP := (h hstep).diff ⟨i, hi⟩ s
    rw [← hs] at hdiff
    unfold STEP at hdiff
    rw [Vector.getElem_toList, decide_eq_true_eq]
    exact ⟨by omega, by omega⟩
  · rfl

theorem and_255 (n : Nat) : n &&& 0xff = n % 256 := Nat.and_two_pow_sub_one_eq_mod n 8

/-- The metrics after `t` steps on the pairs `l`. -/
def metricsAt (l : Nat → Int × Int) : Nat → Metrics
  | 0 => startMetrics
  | t + 1 => normalized t (select (l t).1 (l t).2 (metricsAt l t))

/-- What holds of the metrics after `t` steps. -/
structure Tame (t : Nat) (pm : Metrics) : Prop where
  within : Within (NEGINF - (t % 256 : Nat) * STEP) (12 * STEP + (t % 256 : Nat) * STEP) pm
  spread : ∀ k ≤ 6, k ≤ t % 256 → Spread k pm

theorem tame_start : Tame 0 startMetrics where
  within := by
    intro s
    rw [startMetrics, Fin.getElem_fin, Vector.getElem_ofFn]
    split <;> decide
  spread := fun k _ hk => Nat.le_zero.1 hk ▸ spread_zero _

section Tame

variable {l1 l2 : Int} {t : Nat} {pm : Metrics}

theorem Tame.exact (h : Tame t pm) (hpair : Pair l1 l2) : Exact l1 l2 pm := by
  have hlt : ((t % 256 : Nat) : Int) ≤ 255 := by omega
  apply exact_of_within hpair h.within
  · unfold STEP NEGINF
    omega
  · unfold STEP
    omega

theorem Tame.spread_select (h : Tame t pm) (hpair : Pair l1 l2) (ht : t &&& 0xff = 0xff) :
    Spread 6 (select l1 l2 pm) := by
  rw [and_255] at ht
  exact (h.spread 5 (by decide) (by omega)).step (by decide) hpair (h.exact hpair)

theorem Tame.step (h : Tame t pm) (hpair : Pair l1 l2) :
    Tame (t + 1) (normalized t (select l1 l2 pm)) := by
  have hexact := h.exact hpair
  have hwithin := within_select hpair h.within hexact
  by_cases ht : t &&& 0xff = 0xff
  · have hspread := h.spread_select hpair ht
    have hzero : (t + 1) % 256 = 0 := by rw [and_255] at ht; omega
    constructor
    · intro s
      obtain ⟨hmin, s', hs'⟩ := minMetric_spec (select l1 l2 pm)
      have hdiff := hspread.diff s s'
      have hlo := hmin s
      have hnorm := getElem_normalized t (select l1 l2 pm) s
      rw [shiftOf, if_pos ht] at hnorm
      rw [← hs'] at hdiff
      rw [hzero]
      unfold NEGINF
      omega
    · intro k _ hk
      rw [hzero] at hk
      exact Nat.le_zero.1 hk ▸ spread_zero _
  · have hsame : normalized t (select l1 l2 pm) = select l1 l2 pm := if_neg ht
    have hnext : (t + 1) % 256 = t % 256 + 1 := by rw [and_255] at ht; omega
    rw [hsame]
    constructor
    · intro s
      obtain ⟨hlo, hhi⟩ := hwithin s
      rw [hnext, Nat.cast_succ, add_mul, one_mul]
      exact ⟨by linarith, by linarith⟩
    · intro k hk6 hk
      cases k with
      | zero => exact spread_zero _
      | succ k => exact (h.spread k (by omega) (by omega)).step (by omega) hpair hexact

end Tame

theorem tame {l : Nat → Int × Int} (hl : ∀ t, Pair (l t).1 (l t).2) (t : Nat) :
    Tame t (metricsAt l t) := by
  induction t with
  | zero => exact tame_start
  | succ t ih => exact ih.step (hl t)

end Convolutional
end Coding
end Leodos

/-
The decoder searches the trellis, and reads its bits off survivors.
-/

namespace Leodos
namespace Coding
namespace Convolutional

open Assignment BitStream Spp Trellis

/-! ## Survivors -/

def Edge (p s : State) : Prop := ∃ d, p = before s d

def branchWeight (l : Nat → Int × Int) (t : Nat) (p s : State) : Int :=
  branchMetric (l t).1 (l t).2 (BRANCH p (input s))

/-- The decision for a state after step `t`. -/
def decisionAt (l : Nat → Int × Int) (t : Nat) (s : State) : Bool :=
  chooses (l t).1 (l t).2 (metricsAt l t) s

def parentAt (l : Nat → Int × Int) (t : Nat) (s : State) : State := before s (decisionAt l t s)

def shiftAt (l : Nat → Int × Int) (t : Nat) : Int :=
  shiftOf t (select (l t).1 (l t).2 (metricsAt l t))

section Search

variable {l : Nat → Int × Int}

theorem metricsAt_succ (t : Nat) (s : State) :
    (metricsAt l (t + 1))[s] + shiftAt l t = (select (l t).1 (l t).2 (metricsAt l t))[s] :=
  getElem_normalized t _ s

theorem survivors (hl : ∀ t, Pair (l t).1 (l t).2) (n : Nat) :
    Survivors Edge (branchWeight l) (fun t s => (metricsAt l t)[s]) (shiftAt l) (parentAt l) n where
  edge := fun t _ s => ⟨decisionAt l t s, rfl⟩
  value := by
    intro t _ s
    rw [metricsAt_succ, select_eq ((tame hl t).exact (hl t))]
    rfl
  best := by
    intro t _ p s hedge
    obtain ⟨d, rfl⟩ := hedge
    rw [metricsAt_succ]
    exact le_select ((tame hl t).exact (hl t)) s d

theorem foldl_best (pm : Metrics) (xs : List State) (a : State) :
    let b := xs.foldl (fun best s => if pm[s] > pm[best] then s else best) a
    pm[a] ≤ pm[b] ∧ ∀ s ∈ xs, pm[s] ≤ pm[b] := by
  induction xs generalizing a with
  | nil => exact ⟨le_rfl, fun s hs => absurd hs List.not_mem_nil⟩
  | cons x xs ih =>
    obtain ⟨hle, hall⟩ := ih (if pm[x] > pm[a] then x else a)
    have hboth : pm[a] ≤ pm[if pm[x] > pm[a] then x else a] ∧
        pm[x] ≤ pm[if pm[x] > pm[a] then x else a] := by
      split
      · next h => exact ⟨le_of_lt h, le_rfl⟩
      · next h => exact ⟨le_rfl, not_lt.1 h⟩
    refine ⟨hboth.1.trans hle, ?_⟩
    intro s hs
    rcases List.mem_cons.1 hs with rfl | hs
    · exact hboth.2.trans hle
    · exact hall s hs

theorem le_bestState (pm : Metrics) (s : State) : pm[s] ≤ pm[bestState pm] := by
  obtain ⟨hle, hall⟩ := foldl_best pm (List.finRange NUM_STATES).tail ⟨0, by decide⟩
  have hs : s ∈ (⟨0, by decide⟩ : State) :: (List.finRange NUM_STATES).tail :=
    List.mem_finRange s
  rcases List.mem_cons.1 hs with rfl | hs
  · exact hle
  · exact hall s hs

/-! ## The ring of decisions -/

theorem testBit_foldl (f : State → Bool) (xs : List State) (word : Nat) (s : State) :
    (xs.foldl (fun dword ns => if f ns then dword ||| (1 <<< ns.1) else dword) word).testBit s.1 =
      (word.testBit s.1 || (decide (s ∈ xs) && f s)) := by
  induction xs generalizing word with
  | nil => simp
  | cons x xs ih =>
    rw [List.foldl_cons, ih]
    by_cases hx : s = x
    · subst hx
      cases f s <;> simp [Nat.testBit_or, Nat.one_shiftLeft, Nat.testBit_two_pow_self]
    · have hne : x.1 ≠ s.1 := fun h => hx (Fin.ext h.symm)
      cases f x <;>
        simp [hx, Nat.testBit_or, Nat.one_shiftLeft, Nat.testBit_two_pow_of_ne hne]

theorem testBit_decisionWord (l1 l2 : Int) (pm : Metrics) (s : State) :
    (decisionWord l1 l2 pm).testBit s.1 = chooses l1 l2 pm s := by
  rw [decisionWord, testBit_foldl, Nat.zero_testBit, decide_eq_true (List.mem_finRange s),
    Bool.true_and, Bool.false_or]

/-- The ring holds the last words of the first `t` steps. -/
def Holds (l : Nat → Int × Int) (t : Nat) (decisions : Decisions) : Prop :=
  ∀ u < t, t ≤ u + TRACEBACK_DEPTH →
    decisions[slotOf u] = decisionWord (l u).1 (l u).2 (metricsAt l u)

theorem Holds.step {t : Nat} {decisions : Decisions} (h : Holds l t decisions) :
    Holds l (t + 1) (decisions.set (slotOf t) (decisionWord (l t).1 (l t).2 (metricsAt l t))) := by
  intro u hu hring
  by_cases hut : u = t
  · subst hut
    rw [Fin.getElem_fin, Vector.getElem_set_self]
  · have hne : (slotOf t).1 ≠ (slotOf u).1 := by
      have hD : TRACEBACK_DEPTH = 35 := rfl
      change t % TRACEBACK_DEPTH ≠ u % TRACEBACK_DEPTH
      rw [hD] at hring ⊢
      omega
    rw [Fin.getElem_fin, Vector.getElem_set_ne _ _ hne]
    exact h u (by omega) (by omega)

theorem prevSlot_slotOf {n : Nat} (hn : 0 < n) : prevSlot (slotOf n) = slotOf (n - 1) := by
  apply Fin.ext
  have hD : TRACEBACK_DEPTH = 35 := rfl
  rw [prevSlot]
  split
  · next h =>
    change n % TRACEBACK_DEPTH = 0 at h
    change TRACEBACK_DEPTH - 1 = (n - 1) % TRACEBACK_DEPTH
    rw [hD] at h ⊢
    omega
  · next h =>
    change ¬n % TRACEBACK_DEPTH = 0 at h
    change n % TRACEBACK_DEPTH - 1 = (n - 1) % TRACEBACK_DEPTH
    rw [hD] at h ⊢
    omega

theorem trace_eq {t : Nat} {decisions : Decisions} (h : Holds l (t + 1) decisions) (s : State)
    {k : Nat} (hk : k < TRACEBACK_DEPTH) (hkt : k ≤ t) :
    trace decisions (s, slotOf t) k = (backwards (parentAt l) (t + 1) s k, slotOf (t - k)) := by
  induction k with
  | zero => rfl
  | succ k ih =>
    have hword := h (t - k) (by omega) (by omega)
    rw [trace, ih (by omega) (by omega), traceStep, backwards, parentAt, decisionAt]
    simp only
    rw [hword, testBit_decisionWord, prevSlot_slotOf (by omega), Nat.sub_sub,
      show t + 1 - (k + 1) = t - k by omega]

end Search

/-! ## The run of the decoder -/

/-- The bit that the window gives for step `i`. -/
def windowBit (l : Nat → Int × Int) (i : Nat) : Nat :=
  input (backwards (parentAt l) (i + TRACEBACK_DEPTH)
    (bestState (metricsAt l (i + TRACEBACK_DEPTH))) (TRACEBACK_DEPTH - 1))

/-- The bit that the last trace gives for step `i`. -/
def lastBit (l : Nat → Int × Int) (numSteps i : Nat) : Nat :=
  input (backwards (parentAt l) numSteps ⟨0, by decide⟩ (numSteps - 1 - i))

def bitFor (l : Nat → Int × Int) (numSteps i : Nat) : Nat :=
  if i + TRACEBACK_DEPTH ≤ numSteps then windowBit l i else lastBit l numSteps i

/-- The bits of the output that are written, over a buffer that is zero there. -/
def Written (out0 output : Bytes) (n : Nat) (bit : Nat → Nat) : Prop :=
  output.length = out0.length ∧
    ∀ i, bitAt output i = if i < n then decide (bit i = 1) else bitAt out0 i

theorem Written.emit {out0 : Bytes} {d : Decoder} {bit : Nat → Nat}
    (h : Written out0 d.output d.decoded bit) (hroom : d.decoded / 8 < out0.length)
    (hzero : bitAt out0 d.decoded = false) :
    ∃ output, d.emit (bit d.decoded) = some { d with output := output, decoded := d.decoded + 1 } ∧
      Written out0 output (d.decoded + 1) bit := by
  obtain ⟨hlen, hbits⟩ := h
  have hcell : bitAt d.output d.decoded = false := by
    rw [hbits, if_neg (Nat.lt_irrefl _), hzero]
  have hother : ∀ (b : Bool) i, (if i = d.decoded then b else bitAt d.output i) =
      if i < d.decoded + 1 then (if i = d.decoded then b else decide (bit i = 1))
        else bitAt out0 i := by
    intro b i
    by_cases hi : i = d.decoded
    · rw [if_pos hi, if_pos (by omega), if_pos hi]
    · rw [if_neg hi, if_neg hi, hbits]
      exact if_congr (by omega) rfl rfl
  by_cases h1 : bit d.decoded = 1
  · obtain ⟨output, horb, hlen', hbits'⟩ :=
      orBit_eq d.output (i := d.decoded) (g := 1) (by rw [hlen]; exact hroom) (by decide)
    refine ⟨output, ?_, hlen'.trans hlen, ?_⟩
    · rw [Decoder.emit, if_pos h1, horb]
      rfl
    · intro i
      have hi := hother true i
      rw [hbits']
      by_cases heq : i = d.decoded
      · subst heq
        simp [h1]
      · simp only [if_neg heq] at hi
        simp [heq, hi]
  · refine ⟨d.output, ?_, hlen, ?_⟩
    · rw [Decoder.emit, if_neg h1]
      rfl
    · intro i
      have hi := hother false i
      by_cases heq : i = d.decoded
      · subst heq
        rw [hcell, if_pos (Nat.lt_succ_self _), decide_eq_false h1]
      · simpa only [if_neg heq] using hi

/-- The decoder after `t` steps. -/
structure Running (l : Nat → Int × Int) (infoBits : Nat) (out0 : Bytes) (t : Nat) (d : Decoder) :
    Prop where
  pm : d.pm = metricsAt l t
  ring : Holds l t d.decisions
  decoded : d.decoded = min infoBits (t + 1 - TRACEBACK_DEPTH)
  written : Written out0 d.output d.decoded (windowBit l)

def pairs (llrs : List Int16) (t : Nat) : Int × Int :=
  ((llrs.getD (2 * t) 0).toInt, (llrs.getD (2 * t + 1) 0).toInt)

theorem pair_pairs (llrs : List Int16) (t : Nat) : Pair (pairs llrs t).1 (pairs llrs t).2 :=
  ⟨Int16.le_toInt _, Int16.toInt_lt _, Int16.le_toInt _, Int16.toInt_lt _⟩

theorem running_start (l : Nat → Int × Int) (infoBits : Nat) (out0 : Bytes) :
    Running l infoBits out0 0 (initial out0) where
  pm := rfl
  ring := fun u hu => absurd hu (Nat.not_lt_zero u)
  decoded := (Nat.min_zero infoBits).symm
  written := ⟨rfl, fun i => (if_neg (Nat.not_lt_zero i)).symm⟩

/-- A buffer with room for the bits, zero where they go. -/
def Room (out0 : Bytes) (infoBits : Nat) : Prop :=
  ∀ i < infoBits, i / 8 < out0.length ∧ bitAt out0 i = false

/-- The decoder with the metrics and the decisions of step `t`. -/
def record (l : Nat → Int × Int) (d : Decoder) (t : Nat) : Decoder :=
  { d with
    pm := metricsAt l (t + 1)
    decisions := d.decisions.set (slotOf t) (decisionWord (l t).1 (l t).2 (metricsAt l t)) }

theorem step_eq {llrs : List Int16} {t : Nat} {d : Decoder} (infoBits : Nat)
    (hpm : d.pm = metricsAt (pairs llrs) t) (ht : 2 * t + 1 < llrs.length) :
    Decoder.step llrs infoBits d t =
      if t ≥ TRACEBACK_DEPTH - 1 ∧ d.decoded < infoBits then
        (record (pairs llrs) d t).emit (input (trace (record (pairs llrs) d t).decisions
          (bestState (metricsAt (pairs llrs) (t + 1)), slotOf t) (TRACEBACK_DEPTH - 1)).1)
      else some (record (pairs llrs) d t) := by
  have h1 : llrs[2 * t]? = some (llrs.getD (2 * t) 0) := by
    rw [List.getD_eq_getElem _ _ (by omega), List.getElem?_eq_getElem]
  have h2 : llrs[2 * t + 1]? = some (llrs.getD (2 * t + 1) 0) := by
    rw [List.getD_eq_getElem _ _ ht, List.getElem?_eq_getElem]
  have hnorm : normalize t (select (llrs.getD (2 * t) 0).toInt (llrs.getD (2 * t + 1) 0).toInt
      (metricsAt (pairs llrs) t)) = some (metricsAt (pairs llrs) (t + 1)) :=
    normalize_eq ((tame (pair_pairs llrs) t).spread_select (pair_pairs llrs t))
  rw [Decoder.step, h1, h2, hpm]
  simp only [Option.bind_eq_bind, Option.bind_some]
  rw [hnorm]
  rfl

theorem Running.step {llrs : List Int16} {infoBits t : Nat} {out0 : Bytes} {d : Decoder}
    (h : Running (pairs llrs) infoBits out0 t d) (ht : 2 * t + 1 < llrs.length)
    (hroom : Room out0 infoBits) :
    ∃ d', Decoder.step llrs infoBits d t = some d' ∧
      Running (pairs llrs) infoBits out0 (t + 1) d' := by
  have hD : TRACEBACK_DEPTH = 35 := rfl
  have hring : Holds (pairs llrs) (t + 1) (record (pairs llrs) d t).decisions := h.ring.step
  have hdecoded := h.decoded
  rw [step_eq infoBits h.pm ht]
  by_cases hemit : t ≥ TRACEBACK_DEPTH - 1 ∧ d.decoded < infoBits
  · have hbit : input (trace (record (pairs llrs) d t).decisions
        (bestState (metricsAt (pairs llrs) (t + 1)), slotOf t) (TRACEBACK_DEPTH - 1)).1 =
        windowBit (pairs llrs) d.decoded := by
      rw [trace_eq hring _ (by decide) hemit.1, windowBit,
        show d.decoded + TRACEBACK_DEPTH = t + 1 by omega]
    obtain ⟨hcell, hzero⟩ := hroom _ hemit.2
    obtain ⟨output, hout, hwritten⟩ :=
      Written.emit (d := record (pairs llrs) d t) h.written hcell hzero
    rw [if_pos hemit, hbit]
    refine ⟨_, hout, rfl, hring, ?_, hwritten⟩
    change d.decoded + 1 = _
    omega
  · rw [if_neg hemit]
    refine ⟨_, rfl, rfl, hring, ?_, h.written⟩
    change d.decoded = _
    omega

theorem exists_running (llrs : List Int16) {infoBits n : Nat} {out0 : Bytes}
    (hn : 2 * n ≤ llrs.length) (hroom : Room out0 infoBits) :
    ∃ d, (List.range n).foldlM (Decoder.step llrs infoBits) (initial out0) = some d ∧
      Running (pairs llrs) infoBits out0 n d :=
  foldlM_range_of_inv _ (Running (pairs llrs) infoBits out0) n _ (running_start _ _ _)
    fun _ hk _ h => h.step (by omega) hroom

/-! ## The last bits -/

theorem tailBit_eq {l : Nat → Int × Int} {numSteps : Nat} {decisions : Decisions}
    (h : Holds l numSteps decisions) (hpos : 0 < numSteps) {i : Nat} (hi : i < numSteps)
    (hlast : numSteps < i + 1 + TRACEBACK_DEPTH) :
    tailBit decisions numSteps (numSteps - 1 - i) = lastBit l numSteps i := by
  have hsucc : numSteps - 1 + 1 = numSteps := Nat.sub_add_cancel hpos
  rw [tailBit, lastBit, trace_eq (hsucc.symm ▸ h) _ (by omega) (by omega), hsucc]

theorem written_congr {out0 output : Bytes} {n : Nat} {bit bit' : Nat → Nat}
    (h : Written out0 output n bit) (hbit : ∀ i < n, bit i = bit' i) :
    Written out0 output n bit' := by
  refine ⟨h.1, fun i => ?_⟩
  rw [h.2]
  split
  · next hi => rw [hbit i hi]
  · rfl

theorem room_cleared (output : Bytes) (infoBits : Nat) :
    Room (List.replicate ((infoBits + 7) / 8) 0 ++ output.drop ((infoBits + 7) / 8)) infoBits := by
  intro i hi
  constructor
  · rw [List.length_append, List.length_replicate]
    omega
  · rw [bitAt, List.getD_eq_getElem?_getD, List.getElem?_append_left
      (by rw [List.length_replicate]; omega), List.getElem?_replicate, if_pos (by omega)]
    exact Nat.zero_testBit _

theorem exists_run (llrs : List Int16) (infoBits : Nat) (output : Bytes) {n : Nat}
    (hn : 2 * n ≤ llrs.length) :
    ∃ d, run llrs infoBits output n = some d ∧ Running (pairs llrs) infoBits
      (List.replicate ((infoBits + 7) / 8) 0 ++ output.drop ((infoBits + 7) / 8)) n d :=
  exists_running llrs hn (room_cleared output infoBits)

theorem decode_eq {llrs : List Int16} (output : Bytes) {numSteps : Nat}
    (hlen : llrs.length = 2 * numSteps) (hsteps : MEMORY ≤ numSteps)
    (houtput : (numSteps - MEMORY + 7) / 8 ≤ output.length) :
    ∃ out, decode llrs output = some (.ok ((numSteps - MEMORY + 7) / 8), out) ∧
      Written (List.replicate ((numSteps - MEMORY + 7) / 8) 0 ++
          output.drop ((numSteps - MEMORY + 7) / 8)) out (numSteps - MEMORY)
        (bitFor (pairs llrs) numSteps) := by
  have hD : TRACEBACK_DEPTH = 35 := rfl
  have hM : MEMORY = 6 := rfl
  obtain ⟨d, hrunEq, hrun⟩ := exists_run llrs (numSteps - MEMORY) output
    (show 2 * numSteps ≤ llrs.length by omega)
  have hroom : Room _ (numSteps - MEMORY) := room_cleared output _
  generalize List.replicate ((numSteps - MEMORY + 7) / 8) (0 : UInt8) ++
    output.drop ((numSteps - MEMORY + 7) / 8) = out0 at hrun hroom ⊢
  have hdecoded := hrun.decoded
  -- behind the window every step is traced from the end
  obtain ⟨d', hfinal, hring', hdecoded', hwritten'⟩ := foldlM_of_inv (finalStep numSteps)
    (fun done d' => d'.decisions = d.decisions ∧ d'.decoded = d.decoded + done.length ∧
      Written out0 d'.output d'.decoded (bitFor (pairs llrs) numSteps))
    (List.range' d.decoded (numSteps - MEMORY - d.decoded)) d
    ⟨rfl, rfl, written_congr hrun.written fun i hi => (if_pos (by omega)).symm⟩
    (by
      intro done i rest d' hxs hinv
      obtain ⟨hring', hdecoded', hwritten'⟩ := hinv
      have hcount := congrArg List.length hxs
      rw [List.length_range', List.length_append, List.length_cons] at hcount
      have hi : i = d'.decoded := by
        have hget := congrArg (fun xs => xs[done.length]?) hxs
        simp only [List.getElem?_append_right (Nat.le_refl _), Nat.sub_self,
          List.getElem?_cons_zero] at hget
        rw [List.getElem?_range' (by omega), Option.some.injEq] at hget
        omega
      have hbit : (if numSteps - 1 - i < min numSteps TRACEBACK_DEPTH then
          tailBit d'.decisions numSteps (numSteps - 1 - i) else 0) =
          bitFor (pairs llrs) numSteps d'.decoded := by
        rw [if_pos (by omega), hring', tailBit_eq hrun.ring (by omega) (by omega) (by omega),
          bitFor, if_neg (by omega), hi]
      obtain ⟨hcell, hzero⟩ := hroom d'.decoded (by omega)
      obtain ⟨output', hemit, hwritten''⟩ := hwritten'.emit hcell hzero
      refine ⟨⟨d'.pm, d'.decisions, d'.decoded + 1, output'⟩, ?_, hring', ?_, hwritten''⟩
      · rw [finalStep, hbit]
        exact hemit
      · rw [List.length_append, List.length_singleton]
        change d'.decoded + 1 = _
        omega)
  refine ⟨d'.output, ?_, ?_⟩
  · rw [decode, if_neg (by omega)]
    simp only [hlen, Nat.mul_div_cancel_left numSteps (show 0 < 2 by decide),
      if_neg (Nat.not_lt.2 hsteps), if_neg (Nat.not_lt.2 houtput), hrunEq,
      Option.bind_eq_bind, Option.bind_some, Decoder.final, hfinal]
    rfl
  · have hall : d'.decoded = numSteps - MEMORY := by
      rw [hdecoded', List.length_range']
      omega
    rwa [hall] at hwritten'

end Convolutional
end Coding
end Leodos
