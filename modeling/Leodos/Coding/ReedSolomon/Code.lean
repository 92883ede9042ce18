/-
Reed-Solomon codewords of 255 octets, `coding/fec/reed_solomon.rs`.

`none` stands for a panic: an index or a difference out of range.
-/
import Leodos.Coding.Gf

namespace Leodos
namespace Coding
namespace ReedSolomon

open Spp

def N : Nat := 255

def K : Nat := 223

def PARITY : Nat := N - K

def T : Nat := PARITY / 2

def FCR : Nat := 112

inductive RsError where
  | bufferTooShort (required provided : Nat)
  | tooManyErrors
  | invalidInterleaveDepth (depth : UInt8)
  deriving DecidableEq, Repr

/-! ## Encoding -/

/-- The inner loop of the table of the generator, which goes down from `j` to one. -/
def mulRoot (root : UInt8) : Nat → Bytes → Bytes
  | 0, g => g
  | j + 1, g =>
    mulRoot root j <|
      if g.getD j 0 ≠ 0 then
        g.set (j + 1) (g.getD (j + 1) 0 ^^^
          Gf.EXP.getD (((Gf.log (g.getD j 0)).toNat + (Gf.log root).toNat) % 255) 0)
      else g

def generatorStep (s : Bytes × Nat) (i : Nat) : Bytes × Nat :=
  (mulRoot (Gf.EXP.getD ((FCR + i) % 255) 0) s.2 s.1, s.2 + 1)

def GENERATOR : Bytes :=
  ((List.range PARITY).foldl generatorStep ((List.replicate (PARITY + 1) 0).set 0 1, 1)).1

def divide (remainder : Vector UInt8 PARITY) (symbol : UInt8) : Vector UInt8 PARITY :=
  have hpos : 0 < PARITY := by decide
  let feedback := Gf.add symbol remainder[0]
  if feedback ≠ 0 then
    Vector.ofFn fun j =>
      if h : j.1 + 1 < PARITY then
        Gf.add remainder[j.1 + 1] (Gf.mul feedback (GENERATOR.getD (j.1 + 1) 0))
      else Gf.mul feedback (GENERATOR.getD PARITY 0)
  else Vector.ofFn fun j => if h : j.1 + 1 < PARITY then remainder[j.1 + 1] else 0

/-- The data behind each other and filled up with zeros. -/
def padded (data : Bytes) : Bytes := data ++ List.replicate (K - data.length) 0

def encode (data output : Bytes) : Except RsError Nat × Bytes :=
  if data.length > K then (.error (.bufferTooShort K data.length), output)
  else if output.length < N then (.error (.bufferTooShort N output.length), output)
  else
    let remainder := (padded data).foldl divide (Vector.replicate PARITY 0)
    (.ok N, padded data ++ remainder.toList ++ output.drop N)

/-! ## Decoding -/

def syndromes (codeword : Vector UInt8 N) : Vector UInt8 PARITY :=
  Vector.ofFn fun j => Gf.polyEval codeword.toList (Gf.exp (FCR + j.1))

/-- The polynomials of the synthesis, and the length of the register. -/
structure Registers where
  sigma : Vector UInt8 (PARITY + 1)
  oldSigma : Vector UInt8 (PARITY + 1)
  l : Nat

def discrepancyStep (syn : Vector UInt8 PARITY) (sigma : Vector UInt8 (PARITY + 1)) (n : Nat)
    (delta : UInt8) (i : Nat) : Option UInt8 := do
  let s ← sigma[i]?
  let y ← if i ≤ n then syn[n - i]? else none
  return Gf.add delta (Gf.mul s y)

def discrepancy (syn : Vector UInt8 PARITY) (sigma : Vector UInt8 (PARITY + 1)) (l n : Nat) :
    Option UInt8 := do
  let first ← syn[n]?
  (List.range' 1 l).foldlM (discrepancyStep syn sigma n) first

def shifted (oldSigma : Vector UInt8 (PARITY + 1)) : Vector UInt8 (PARITY + 1) :=
  Vector.ofFn fun i => if i.1 = 0 then 0 else oldSigma[i.1 - 1]

/-- One round of `berlekamp_massey`. -/
def Registers.round (syn : Vector UInt8 PARITY) (r : Registers) (n : Nat) : Option Registers := do
  let delta ← discrepancy syn r.sigma r.l n
  let oldSigma := shifted r.oldSigma
  if delta ≠ 0 then
    let scaled := oldSigma.map (Gf.mul delta)
    let sigma := Vector.zipWith Gf.add r.sigma scaled
    if 2 * r.l ≤ n then
      return ⟨sigma, r.sigma.map fun s => Gf.mul s (Gf.inv delta), n + 1 - r.l⟩
    else return ⟨sigma, oldSigma, r.l⟩
  else return ⟨r.sigma, oldSigma, r.l⟩

def one : Vector UInt8 (PARITY + 1) := Vector.ofFn fun i => if i.1 = 0 then 1 else 0

def berlekampMassey (syn : Vector UInt8 PARITY) :
    Option (Except RsError (Vector UInt8 (PARITY + 1) × Nat)) := do
  let r ← (List.range PARITY).foldlM (Registers.round syn) ⟨one, one, 0⟩
  if r.l > T then return .error .tooManyErrors
  else return .ok (r.sigma, r.l)

/-- A slice up to `len`. -/
def upTo (len : Nat) {n : Nat} (v : Vector UInt8 n) : Option Bytes :=
  if len ≤ n then some (v.toList.take len) else none

def chienLoop (sigma : Bytes) (numErrors : Nat) :
    List Nat → Vector UInt8 T → Nat → Option (Vector UInt8 T × Nat)
  | [], positions, found => some (positions, found)
  | m :: ms, positions, found =>
    if Gf.polyEvalAsc sigma (Gf.exp m) = 0 then
      if h : found < T then
        let positions := positions.set found (UInt8.ofNat ((m + N - 1) % N))
        if found + 1 = numErrors then some (positions, found + 1)
        else chienLoop sigma numErrors ms positions (found + 1)
      else none
    else chienLoop sigma numErrors ms positions found

def chienSearch (sigma : Vector UInt8 (PARITY + 1)) (numErrors : Nat) :
    Option (Except RsError (Vector UInt8 T)) := do
  let slice ← upTo (numErrors + 1) sigma
  let (positions, found) ← chienLoop slice numErrors (List.range N) (Vector.replicate T 0) 0
  if found ≠ numErrors then return .error .tooManyErrors
  else return .ok positions

/-- `S(x) σ(x)` up to `x ^ 32`. -/
def omega (syn : Vector UInt8 PARITY) (sigma : Vector UInt8 (PARITY + 1)) (numErrors : Nat) :
    Vector UInt8 PARITY :=
  Vector.ofFn fun i =>
    (List.range (min i.1 numErrors + 1)).foldl
      (fun val j => Gf.add val (Gf.mul (sigma.toList.getD j 0) (syn.toList.getD (i.1 - j) 0))) 0

/-- The odd terms, one place down. -/
def sigmaDeriv (sigma : Vector UInt8 (PARITY + 1)) (numErrors : Nat) : Vector UInt8 PARITY :=
  Vector.ofFn fun i => if i.1 % 2 = 0 ∧ i.1 + 1 ≤ numErrors then sigma[i.1 + 1] else 0

def magnitude (omega deriv : Bytes) (pos : Nat) : Option UInt8 :=
  if pos ≤ N - 1 then
    let xkLog := (N - 1 - pos) % N
    let xkInv := Gf.exp ((N - xkLog) % N)
    let omegaVal := Gf.polyEvalAsc omega xkInv
    let derivVal := Gf.polyEvalAsc deriv xkInv
    let power := Gf.exp ((xkLog * (1 + N - FCR)) % N)
    some (Gf.mul power (Gf.div omegaVal derivVal))
  else none

def forneyStep (syn : Vector UInt8 PARITY) (sigma : Vector UInt8 (PARITY + 1))
    (positions : Vector UInt8 T) (numErrors : Nat) (magnitudes : Vector UInt8 T) (k : Nat) :
    Option (Vector UInt8 T) := do
  let deriv ← upTo numErrors (sigmaDeriv sigma numErrors)
  let pos ← positions[k]?
  let val ← magnitude (omega syn sigma numErrors).toList deriv pos.toNat
  if h : k < T then return magnitudes.set k val else none

def forney (syn : Vector UInt8 PARITY) (sigma : Vector UInt8 (PARITY + 1))
    (positions : Vector UInt8 T) (numErrors : Nat) : Option (Vector UInt8 T) :=
  (List.range numErrors).foldlM (forneyStep syn sigma positions numErrors) (Vector.replicate T 0)

def correctStep (positions magnitudes : Vector UInt8 T) (codeword : Vector UInt8 N) (i : Nat) :
    Option (Vector UInt8 N) := do
  let pos ← positions[i]?
  let val ← magnitudes[i]?
  if h : pos.toNat < N then return codeword.set pos.toNat (Gf.add codeword[pos.toNat] val)
  else none

def correct (positions magnitudes : Vector UInt8 T) (numErrors : Nat) (codeword : Vector UInt8 N) :
    Option (Vector UInt8 N) :=
  (List.range numErrors).foldlM (correctStep positions magnitudes) codeword

/-- The stages of `decode` behind the synthesis. -/
def finish (codeword : Vector UInt8 N) (sigma : Vector UInt8 (PARITY + 1)) (numErrors : Nat) :
    Option (Except RsError Nat × Vector UInt8 N) := do
  match ← chienSearch sigma numErrors with
  | .error e => return (.error e, codeword)
  | .ok positions =>
    let magnitudes ← forney (syndromes codeword) sigma positions numErrors
    let codeword ← correct positions magnitudes numErrors codeword
    if (syndromes codeword).toList.all (· == 0) then return (.ok numErrors, codeword)
    else return (.error .tooManyErrors, codeword)

/-- The outcome, and what is left in the buffer. -/
def decode (codeword : Vector UInt8 N) : Option (Except RsError Nat × Vector UInt8 N) :=
  let syn := syndromes codeword
  if syn.toList.all (· == 0) then some (.ok 0, codeword)
  else
    match berlekampMassey syn with
    | none => none
    | some (.error e) => some (.error e, codeword)
    | some (.ok (sigma, numErrors)) => finish codeword sigma numErrors

/-! ## Interleaving -/

/-- Every `d`-th symbol from `i` on; the last index is the highest. -/
def column (n : Nat) (data : Bytes) (d i : Nat) : Option (Vector UInt8 n) :=
  if (n - 1) * d + i < data.length then some (Vector.ofFn fun j => data.getD (j.1 * d + i) 0)
  else none

def interleaveStep (d i : Nat) (codeword data : Bytes) (j : Nat) : Option Bytes := do
  let symbol ← codeword[j]?
  if j * d + i < data.length then return data.set (j * d + i) symbol else none

/-- The symbols of a codeword to every `d`-th place from `i` on. -/
def interleave (d i : Nat) (codeword data : Bytes) : Option Bytes :=
  (List.range N).foldlM (interleaveStep d i codeword) data

/-- One codeword; an error leaves the loop. -/
def encodeColumn (data : Bytes) (d : Nat) (s : Except RsError Unit × Bytes) (i : Nat) :
    Option (Except RsError Unit × Bytes) :=
  match s with
  | (.error e, output) => some (.error e, output)
  | (.ok _, output) => do
    let block ← column K data d i
    match encode block.toList (List.replicate N 0) with
    | (.error e, _) => return (.error e, output)
    | (.ok _, codeword) => return (.ok (), ← interleave d i codeword output)

def encodeInterleaved (data : Bytes) (depth : UInt8) (output : Bytes) :
    Option (Except RsError Nat × Bytes) :=
  if depth = 0 ∨ depth > 5 then some (.error (.invalidInterleaveDepth depth), output)
  else
    let d := depth.toNat
    if data.length < d * K then some (.error (.bufferTooShort (d * K) data.length), output)
    else if output.length < d * N then
      some (.error (.bufferTooShort (d * N) output.length), output)
    else do
      let (outcome, output) ← (List.range d).foldlM (encodeColumn data d) (.ok (), output)
      return (outcome.map fun _ => d * N, output)

def decodeColumn (d : Nat) (s : Except RsError Nat × Bytes) (i : Nat) :
    Option (Except RsError Nat × Bytes) :=
  match s with
  | (.error e, data) => some (.error e, data)
  | (.ok total, data) => do
    let codeword ← column N data d i
    match ← decode codeword with
    | (.error e, _) => return (.error e, data)
    | (.ok corrected, codeword) =>
      return (.ok (total + corrected), ← interleave d i codeword.toList data)

def decodeInterleaved (data : Bytes) (depth : UInt8) : Option (Except RsError Nat × Bytes) :=
  if depth = 0 ∨ depth > 5 then some (.error (.invalidInterleaveDepth depth), data)
  else
    let d := depth.toNat
    if data.length < d * N then some (.error (.bufferTooShort (d * N) data.length), data)
    else (List.range d).foldlM (decodeColumn d) (.ok 0, data)

end ReedSolomon
end Coding
end Leodos
