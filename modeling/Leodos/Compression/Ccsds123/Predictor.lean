/-
The predictor of `ccsds123.rs`.

`compress` and `decompress` run the same predictor over the samples so far.  Words of 64 bits are
numbers here; where a sum or a product can leave their range, the model panics as the source
does.  Over samples of 17 bits none does.
-/
import Leodos.Compression.Ccsds123.Config

namespace Leodos
namespace Compression
namespace Ccsds123

def maxCz : Nat := 18

/-- The value is a signed word of 64 bits. -/
def inI64 (v : Int) : Bool :=
  decide (-9223372036854775808 ≤ v) && decide (v < 9223372036854775808)

def asI64 (d : Nat) : Int :=
  if d < 9223372036854775808 then (d : Int) else (d : Int) - 18446744073709551616

def asU64 (v : Int) : Nat := (v % 18446744073709551616).toNat

def wrapI64 (v : Int) : Int := asI64 (asU64 v)

def pow2 (n : Nat) : Int := ((1 <<< n : Nat) : Int)

def fetch {α : Type} (xs : List α) (i : Nat) : Except Stop α :=
  match xs[i]? with
  | some v => .ok v
  | none => .error .panic

/-- The last two rows of every band, and the weights of every band. -/
structure Predictor where
  srBuf : List Int
  weights : List Int
  deriving DecidableEq, Repr

def spectralWeight (c : Config) : Nat → Int
  | 0 => 7 * pow2 c.omega / 8
  | i + 1 => spectralWeight c i / 8

/-- Directional weights are zero; the spectral ones go down by an eighth each. -/
def initWeightsDefault (c : Config) (z : Nat) : List Int :=
  let dirOffset := match c.mode with
    | .full => 3
    | .reduced => 0
  (List.range maxCz).map fun j =>
    if dirOffset ≤ j ∧ j < dirOffset + min z c.p then spectralWeight c (j - dirOffset) else 0

def initPredictor (c : Config) : Predictor where
  srBuf := List.replicate (c.nz.toNat * 2 * c.nx.toNat) 0
  weights := (List.range c.nz.toNat).flatMap (initWeightsDefault c)

def clip (x xMin xMax : Int) : Int := if x < xMin then xMin else if xMax < x then xMax else x

def sgnPlus (x : Int) : Int := if 0 ≤ x then 1 else -1

/-- Rust's division goes towards zero. -/
def predictedSample (sTilde : Int) : Int :=
  if 0 ≤ sTilde then sTilde.tdiv 2 else (sTilde - 1).tdiv 2

def scalingExponent (c : Config) (t : Nat) : Int :=
  clip (c.vMin + ((t : Int) - c.nx.toNat).tdiv c.tInc) c.vMin c.vMax + c.d - c.omega

/-- A left shift drops the bits that leave the word. -/
def shiftRight (x shift : Int) : Int :=
  if 0 ≤ shift then x >>> shift.toNat else wrapI64 (x * pow2 (-shift).toNat)

/-! ## Local sums and differences -/

/-- The place of a sample in the buffer of the last two rows. -/
def slot (c : Config) (z row x : Nat) : Nat := z * 2 * c.nx.toNat + row * c.nx.toNat + x

/-- The neighbours of a local sum with their factors; without neighbours it is the middle of the
range. -/
def localTaps (c : Config) (z y x : Nat) : Option (List (Nat × Int)) :=
  let cur := fun xx => slot c z (y % 2) xx
  let prev := fun xx => slot c z ((y + 1) % 2) xx
  let prevBand := fun xx => slot c (z - 1) ((c.ny.toNat - 1) % 2) xx
  match c.localSumType with
  | .wideNeighbor =>
    if 0 < y ∧ 0 < x ∧ x < c.nx.toNat - 1 then
      some [(cur (x - 1), 1), (prev (x - 1), 1), (prev x, 1), (prev (x + 1), 1)]
    else if 0 < y ∧ x = 0 then some [(prev x, 2), (prev (x + 1), 2)]
    else if 0 < y ∧ x = c.nx.toNat - 1 then
      some [(cur (x - 1), 1), (prev (x - 1), 1), (prev x, 2)]
    else some [(cur (x - 1), 4)]
  | .narrowNeighbor =>
    if 0 < y ∧ 0 < x ∧ x < c.nx.toNat - 1 then
      some [(prev (x - 1), 1), (prev x, 2), (prev (x + 1), 1)]
    else if y = 0 ∧ 0 < x ∧ 0 < z then some [(prevBand (x - 1), 4)]
    else if 0 < y ∧ x = 0 then some [(prev x, 2), (prev (x + 1), 2)]
    else if 0 < y ∧ x = c.nx.toNat - 1 then some [(prev (x - 1), 2), (prev x, 2)]
    else none
  | .wideColumn => if 0 < y then some [(prev x, 4)] else some [(cur (x - 1), 4)]
  | .narrowColumn =>
    if 0 < y then some [(prev x, 4)]
    else if y = 0 ∧ 0 < x ∧ 0 < z then some [(prevBand (x - 1), 4)]
    else none

def sumTaps (sr : List Int) : List (Nat × Int) → Except Stop Int
  | [] => .ok 0
  | (i, factor) :: taps => do
    let v ← fetch sr i
    let rest ← sumTaps sr taps
    .ok (factor * v + rest)

def localSumWithBuf (c : Config) (sr : List Int) (z y x : Nat) : Except Stop Int :=
  match localTaps c z y x with
  | some taps => sumTaps sr taps
  | none => .ok (4 * c.sMid)

def directionalDiff (sr : List Int) (sigma : Int) (y slot : Nat) : Except Stop Int :=
  if 0 < y then do
    let v ← fetch sr slot
    .ok (4 * v - sigma)
  else .ok 0

/-- The differences to the north, the west and the north west. -/
def directionalDiffs (c : Config) (sr : List Int) (sigma : Int) (z y x : Nat) :
    Except Stop (List Int) := do
  let cur := fun xx => slot c z (y % 2) xx
  let prev := fun xx => slot c z ((y + 1) % 2) xx
  let dN ← directionalDiff sr sigma y (prev x)
  let dW ← directionalDiff sr sigma y (if 0 < x then cur (x - 1) else prev x)
  let dNW ← directionalDiff sr sigma y (if 0 < x then prev (x - 1) else prev x)
  .ok [dN, dW, dNW]

/-- The central differences of the bands before. -/
def spectralDiffs (c : Config) (sr : List Int) (z y x : Nat) : List Nat → Except Stop (List Int)
  | [] => .ok []
  | i :: is => do
    let sigma ← localSumWithBuf c sr (z - i) y x
    let v ← fetch sr (slot c (z - i) (y % 2) x)
    let rest ← spectralDiffs c sr z y x is
    .ok ((4 * v - sigma) :: rest)

def buildUWithBuf (c : Config) (sr : List Int) (sigma : Int) (z y x : Nat) :
    Except Stop (List Int) :=
  match c.mode with
  | .full => do
    let us ← directionalDiffs c sr sigma z y x
    let vs ← spectralDiffs c sr z y x (List.range' 1 (min z c.p))
    .ok (us ++ vs)
  | .reduced => spectralDiffs c sr z y x (List.range' 1 (min z c.p))

/-! ## Prediction -/

def dHatLoop (weights : List Int) : Nat → Int → List Int → Except Stop Int
  | _, dHat, [] => .ok dHat
  | j, dHat, u :: us => do
    let w ← fetch weights j
    if inI64 (w * u) && inI64 (dHat + w * u) then dHatLoop weights (j + 1) (dHat + w * u) us
    else .error .panic

/-- With a register of 63 bits the divisor `1i64 << 63` is the least word, and the remainder is
the one modulo 2^63 all the same. -/
def modStar (x : Int) (r : Nat) : Except Stop Int :=
  if 64 ≤ r then .error .panic
  else if inI64 (x + pow2 (r - 1)) then .ok ((x + pow2 (r - 1)) % pow2 r - pow2 (r - 1))
  else .error .panic

def highResPredictedBuf (c : Config) (dHat sigma : Int) (t z : Nat) (sr : List Int) :
    Except Stop Int :=
  if 0 < t then
    let s1 := dHat + pow2 c.omega * (sigma - 4 * c.sMid)
    let s2 := s1 + pow2 (c.omega + 2) * c.sMid
    let inner := s2 + pow2 (c.omega + 1)
    if inI64 s1 && inI64 s2 && inI64 inner then do
      let m ← modStar inner c.registerSize
      .ok (clip m (pow2 (c.omega + 2) * c.sMin + pow2 (c.omega + 1))
        (pow2 (c.omega + 2) * c.sMax + pow2 (c.omega + 1)))
    else .error .panic
  else if 0 < c.p ∧ 0 < z then do
    let v ← fetch sr ((z - 1) * 2 * c.nx.toNat)
    .ok (2 * v)
  else .ok (2 * c.sMid)

structure Prediction where
  u : List Int
  sTilde : Int
  deriving DecidableEq, Repr

/-- What both sides do for a sample before they code it. -/
def predict (c : Config) (m : Predictor) (z y x : Nat) : Except Stop Prediction := do
  let sigma ← localSumWithBuf c m.srBuf z y x
  let u ← buildUWithBuf c m.srBuf sigma z y x
  let dHat ← dHatLoop m.weights (z * maxCz) 0 u
  let sTilde ← highResPredictedBuf c dHat sigma (y * c.nx.toNat + x) z m.srBuf
  .ok ⟨u, sTilde⟩

/-! ## Update -/

def weightInc (e u rho : Int) : Int := (sgnPlus e * shiftRight u rho + 1).tdiv 2

def updateLoop (c : Config) (e rho : Int) : Nat → List Int → List Int → Except Stop (List Int)
  | _, weights, [] => .ok weights
  | j, weights, u :: us => do
    let w ← fetch weights j
    if inI64 (sgnPlus e * shiftRight u rho) && inI64 (sgnPlus e * shiftRight u rho + 1) &&
        inI64 (w + weightInc e u rho) then
      updateLoop c e rho (j + 1) (weights.set j (clip (w + weightInc e u rho)
        (-pow2 (c.omega + 2)) (pow2 (c.omega + 2) - 1))) us
    else .error .panic

def Predictor.store (c : Config) (m : Predictor) (z y x : Nat) (s : Int) : Predictor :=
  { m with srBuf := m.srBuf.set (slot c z (y % 2) x) s }

/-- What both sides do when they have the sample. -/
def update (c : Config) (m : Predictor) (z y x : Nat) (pred : Prediction) (s : Int) :
    Except Stop Predictor := do
  let weights ← updateLoop c (2 * s - pred.sTilde) (scalingExponent c (y * c.nx.toNat + x))
    (z * maxCz) m.weights pred.u
  .ok ({ m with weights := weights }.store c z y x s)

end Ccsds123
end Compression
end Leodos
