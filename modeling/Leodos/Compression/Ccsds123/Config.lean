/-
The parameters of `ccsds123.rs` and the header that carries them.

The header is a sequence of fields of some bits each; most of the ranges are moved or taken
modulo the width of their field.
-/
import Leodos.Compression.Ccsds123.BitIo

namespace Leodos
namespace Compression
namespace Ccsds123

open BitStream Emission

inductive PredictionMode where
  | full
  | reduced
  deriving DecidableEq, Repr

inductive LocalSumType where
  | wideNeighbor
  | narrowNeighbor
  | wideColumn
  | narrowColumn
  deriving DecidableEq, Repr

structure Config where
  nx : UInt16
  ny : UInt16
  nz : UInt16
  dynamicRange : Nat
  signedSamples : Bool
  p : Nat
  mode : PredictionMode
  localSumType : LocalSumType
  omega : Nat
  registerSize : Nat
  tInc : Nat
  vMin : Int
  vMax : Int
  uMax : Nat
  gamma0 : Nat
  gammaStar : Nat
  accumInitK : Option Nat
  deriving DecidableEq, Repr

namespace Config

def isPowerOfTwo (n : Nat) : Prop := n = 1 <<< n.log2

instance (n : Nat) : Decidable (isPowerOfTwo n) := inferInstanceAs (Decidable (_ = _))

structure Valid (c : Config) : Prop where
  nx : c.nx ≠ 0
  ny : c.ny ≠ 0
  nz : c.nz ≠ 0
  range : 2 ≤ c.dynamicRange ∧ c.dynamicRange ≤ 16
  p : c.p ≤ 15
  omega : 4 ≤ c.omega ∧ c.omega ≤ 19
  register : max 32 (c.dynamicRange + c.omega + 2) ≤ c.registerSize ∧ c.registerSize ≤ 64
  tInc : isPowerOfTwo c.tInc ∧ 16 ≤ c.tInc ∧ c.tInc ≤ 2048
  vMin : -6 ≤ c.vMin ∧ c.vMin ≤ 9
  vMax : c.vMin ≤ c.vMax ∧ c.vMax ≤ 9
  uMax : 8 ≤ c.uMax ∧ c.uMax ≤ 32
  gamma0 : 1 ≤ c.gamma0 ∧ c.gamma0 ≤ 8
  gammaStar : max 4 (c.gamma0 + 1) ≤ c.gammaStar ∧ c.gammaStar ≤ 11
  full : ¬ (c.nx = 1 ∧ c.mode = .full)
  neighbor : ¬ (c.nx = 1 ∧ (c.localSumType = .wideNeighbor ∨ c.localSumType = .narrowNeighbor))

def validate (c : Config) : Except Stop Unit :=
  if c.nx = 0 ∨ c.ny = 0 ∨ c.nz = 0 then .error (.error .invalidConfig)
  else if c.dynamicRange < 2 ∨ 16 < c.dynamicRange then .error (.error .invalidConfig)
  else if 15 < c.p then .error (.error .invalidConfig)
  else if c.omega < 4 ∨ 19 < c.omega then .error (.error .invalidConfig)
  else if c.registerSize < max 32 (c.dynamicRange + c.omega + 2) ∨ 64 < c.registerSize then
    .error (.error .invalidConfig)
  else if ¬ isPowerOfTwo c.tInc ∨ c.tInc < 16 ∨ 2048 < c.tInc then .error (.error .invalidConfig)
  else if c.vMin < -6 ∨ 9 < c.vMin then .error (.error .invalidConfig)
  else if c.vMax < c.vMin ∨ 9 < c.vMax then .error (.error .invalidConfig)
  else if c.uMax < 8 ∨ 32 < c.uMax then .error (.error .invalidConfig)
  else if c.gamma0 < 1 ∨ 8 < c.gamma0 then .error (.error .invalidConfig)
  else if c.gammaStar < max 4 (c.gamma0 + 1) ∨ 11 < c.gammaStar then
    .error (.error .invalidConfig)
  else if c.nx = 1 ∧ c.mode = .full then .error (.error .invalidConfig)
  else if c.nx = 1 ∧ (c.localSumType = .wideNeighbor ∨ c.localSumType = .narrowNeighbor) then
    .error (.error .invalidConfig)
  else .ok ()

theorem valid_of_validate {c : Config} (h : c.validate = .ok ()) : c.Valid := by
  have hstep : ∀ {P : Prop} [Decidable P] {x : Except Stop Unit},
      (if P then .error (.error .invalidConfig) else x) = .ok () → ¬ P ∧ x = .ok () := by
    intro P _ x hx
    by_cases hP : P
    · rw [if_pos hP] at hx
      cases hx
    · rw [if_neg hP] at hx
      exact ⟨hP, hx⟩
  unfold validate at h
  obtain ⟨hsize, h⟩ := hstep h
  obtain ⟨hrange, h⟩ := hstep h
  obtain ⟨hp, h⟩ := hstep h
  obtain ⟨homega, h⟩ := hstep h
  obtain ⟨hregister, h⟩ := hstep h
  obtain ⟨htInc, h⟩ := hstep h
  obtain ⟨hvMin, h⟩ := hstep h
  obtain ⟨hvMax, h⟩ := hstep h
  obtain ⟨huMax, h⟩ := hstep h
  obtain ⟨hgamma0, h⟩ := hstep h
  obtain ⟨hgammaStar, h⟩ := hstep h
  obtain ⟨hfull, h⟩ := hstep h
  obtain ⟨hneighbor, -⟩ := hstep h
  exact {
    nx := fun hz => hsize (Or.inl hz)
    ny := fun hz => hsize (Or.inr (Or.inl hz))
    nz := fun hz => hsize (Or.inr (Or.inr hz))
    range := by omega
    p := by omega
    omega := by omega
    register := by omega
    tInc := ⟨Decidable.of_not_not fun hpow => htInc (Or.inl hpow), by omega, by omega⟩
    vMin := by omega
    vMax := by omega
    uMax := by omega
    gamma0 := by omega
    gammaStar := by omega
    full := hfull
    neighbor := hneighbor }

def d (c : Config) : Nat := c.dynamicRange

def sMin (c : Config) : Int := if c.signedSamples then -((1 <<< (c.d - 1) : Nat) : Int) else 0

def sMax (c : Config) : Int :=
  if c.signedSamples then ((1 <<< (c.d - 1) : Nat) : Int) - 1 else ((1 <<< c.d : Nat) : Int) - 1

def sMid (c : Config) : Int := if c.signedSamples then 0 else ((1 <<< (c.d - 1) : Nat) : Int)

/-- The number of local differences used for prediction in band `z`. -/
def cZ (c : Config) (z : Nat) : Nat :=
  match c.mode with
  | .reduced => min z c.p
  | .full => min z c.p + 3

end Config

/-! ## Header -/

def imageFields (c : Config) : List (Nat × Nat) :=
  [(0, 8), (c.nx.toNat, 16), (c.ny.toNat, 16), (c.nz.toNat, 16),
    (if c.signedSamples then 1 else 0, 1), (0, 1), (if 16 < c.d then 1 else 0, 1), (c.d % 16, 4),
    (0, 1), (0, 16), (0, 2), (1, 3), (0, 2)]

def quantizerFields : List (Nat × Nat) := [(0, 1), (0, 2)]

def modeCode : PredictionMode → Nat
  | .full => 0
  | .reduced => 1

def localSumCode : LocalSumType → Nat
  | .wideNeighbor => 0
  | .narrowNeighbor => 1
  | .wideColumn => 2
  | .narrowColumn => 3

def predictorFields (c : Config) : List (Nat × Nat) :=
  [(0, 2), (0, 4), (0, 1), (0, 1), (c.p, 4), (modeCode c.mode, 1), (0, 1),
    (localSumCode c.localSumType, 2), (c.registerSize % 64, 6), (c.omega - 4, 4),
    (c.tInc.log2 - 4, 4)]

def coderFields (c : Config) : List (Nat × Nat) :=
  [((c.vMin + 6).toNat, 4), ((c.vMax + 6).toNat, 4), (0, 1), (0, 1), (0, 1), (0, 5),
    (c.uMax % 32, 5), (c.gammaStar - 4, 3), (c.gamma0 % 8, 3), (c.accumInitK.getD 15, 4), (0, 1)]

def headerFields (c : Config) : List (Nat × Nat) :=
  imageFields c ++ (quantizerFields ++ (predictorFields c ++ coderFields c))

def writeHeader (c : Config) (w : BitWriter) : Except Stop BitWriter :=
  (headerFields c).foldlM (fun w f => w.writeBits f.1 f.2) w

def readFields : List Nat → BitReader → Except Stop (List Nat × BitReader)
  | [], r => .ok ([], r)
  | n :: widths, r => do
    let (v, r) ← r.readBits n
    let (vs, r) ← readFields widths r
    .ok (v :: vs, r)

def readCoder (c : Config) (r : BitReader) : Except Stop (Config × BitReader) := do
  let (vs, r) ← readFields [4, 4, 1, 1, 1, 5, 5, 3, 3, 4, 1] r
  match vs with
  | [vMin, vMax, _, _, _, _, uMax, gammaStar, gamma0, k, _] =>
    .ok ({ c with
      vMin := (vMin : Int) - 6, vMax := (vMax : Int) - 6
      uMax := if uMax = 0 then 32 else uMax
      gammaStar := gammaStar + 4
      gamma0 := if gamma0 = 0 then 8 else gamma0
      accumInitK := if k = 15 then none else some k }, r)
  | _ => .error .panic

/-- `1u16 << (t_inc_enc + 4)` has to stay in 16 bits. -/
def readPredictor (c : Config) (r : BitReader) : Except Stop (Config × BitReader) := do
  let (vs, r) ← readFields [2, 4, 1, 1, 4, 1, 1, 2, 6, 4, 4] r
  match vs with
  | [_, _, _, _, p, mode, _, ls, register, omega, tInc] =>
    if 16 ≤ tInc + 4 then .error .panic
    else readCoder { c with
      p := p
      mode := if mode = 0 then .full else .reduced
      localSumType := if ls = 0 then .wideNeighbor else if ls = 1 then .narrowNeighbor
        else if ls = 2 then .wideColumn else .narrowColumn
      registerSize := if register = 0 then 64 else register
      omega := omega + 4
      tInc := 1 <<< (tInc + 4) } r
  | _ => .error .panic

def readQuantizer (c : Config) (r : BitReader) : Except Stop (Config × BitReader) := do
  let (vs, r) ← readFields [1, 2] r
  match vs with
  | [_, fidelity] =>
    if fidelity ≠ 0 then .error (.error .invalidConfig) else readPredictor c r
  | _ => .error .panic

/-- What the first part of the header gives; the other parameters come behind it. -/
def imageConfig (nx ny nz signed large d : Nat) : Config where
  nx := UInt16.ofNat nx
  ny := UInt16.ofNat ny
  nz := UInt16.ofNat nz
  dynamicRange := if large = 1 then d + 16 else if d = 0 then 16 else d
  signedSamples := signed == 1
  p := 0
  mode := .full
  localSumType := .wideNeighbor
  omega := 0
  registerSize := 0
  tInc := 0
  vMin := 0
  vMax := 0
  uMax := 0
  gamma0 := 0
  gammaStar := 0
  accumInitK := none

def readHeader (r : BitReader) : Except Stop (Config × BitReader) := do
  let (vs, r) ← readFields [8, 16, 16, 16, 1, 1, 1, 4, 1, 16, 2, 3, 2] r
  match vs with
  | [_, nx, ny, nz, signed, _, large, d, _, _, _, _, entropy] =>
    if entropy ≠ 0 then .error (.error .invalidConfig)
    else readQuantizer (imageConfig nx ny nz signed large d) r
  | _ => .error .panic

/-! ### The header comes back -/

def fieldBits (fs : List (Nat × Nat)) : List Bool := fs.flatMap fun f => bitsOf f.2 f.1

theorem puts_writeHeader (c : Config) (size : Nat) :
    Puts (BitWriter.medium size) (fieldBits (headerFields c)) (writeHeader c) :=
  puts_foldlM fun f _ => BitWriter.puts_writeBits size f.1 f.2

theorem length_fieldBits (fs : List (Nat × Nat)) :
    (fieldBits fs).length = (fs.map Prod.snd).foldr (· + ·) 0 := by
  induction fs with
  | nil => rfl
  | cons f fs ih =>
    have hcons : fieldBits (f :: fs) = bitsOf f.2 f.1 ++ fieldBits fs := List.flatMap_cons
    rw [hcons, List.length_append, length_bitsOf, ih]
    rfl

theorem length_fieldBits_header (c : Config) : (fieldBits (headerFields c)).length = 152 := by
  have hwidths : (headerFields c).map Prod.snd = [8, 16, 16, 16, 1, 1, 1, 4, 1, 16, 2, 3, 2, 1, 2,
      2, 4, 1, 1, 4, 1, 1, 2, 6, 4, 4, 4, 4, 1, 1, 1, 5, 5, 3, 3, 4, 1] := rfl
  rw [length_fieldBits, hwidths]
  decide

section
variable {buf : Bytes} {off : Nat}

open BitReader

theorem readFields_eq {fs : List (Nat × Nat)} (hwidth : ∀ n ∈ fs.map Prod.snd, n ≤ 64)
    (h : Stands buf off (fieldBits fs)) : readFields (fs.map Prod.snd) (behind buf off) =
      .ok (fs.map (fun f => f.1 % 2 ^ f.2), behind buf (off + (fieldBits fs).length)) := by
  induction fs generalizing off with
  | nil => rfl
  | cons f fs ih =>
    have hcons : fieldBits (f :: fs) = bitsOf f.2 f.1 ++ fieldBits fs := List.flatMap_cons
    rw [hcons, stands_append, length_bitsOf] at h
    rw [List.map_cons, List.forall_mem_cons] at hwidth
    have hread := readBits_eq h.1 (length_bitsOf f.2 f.1) hwidth.1
    have hrest := ih hwidth.2 h.2
    rw [value_bitsOf] at hread
    rw [List.map_cons, readFields, hread]
    show (readFields (fs.map Prod.snd) (behind buf (off + f.2)) >>= _) = _
    rw [hrest, hcons, List.length_append, length_bitsOf, Nat.add_assoc off]
    rfl

/-- What the header keeps of the initial value of the accumulators: four bits, all ones standing
for none. -/
def storedK : Option Nat → Option Nat
  | none => none
  | some k => if k % 16 = 15 then none else some (k % 16)

theorem storedK_eq_iff {k : Option Nat} : storedK k = k ↔ ∀ n, k = some n → n ≤ 14 := by
  cases k with
  | none => exact iff_of_true rfl (fun n h => by cases h)
  | some n =>
    show (if n % 16 = 15 then none else some (n % 16)) = some n ↔ _
    constructor
    · intro h m hm
      cases hm
      by_cases hones : n % 16 = 15
      · rw [if_pos hones] at h
        cases h
      · rw [if_neg hones] at h
        have hn := Option.some.inj h
        omega
    · intro h
      have hn := h n rfl
      rw [if_neg (by omega), Nat.mod_eq_of_lt (by omega)]

theorem fieldBits_append (fs gs : List (Nat × Nat)) :
    fieldBits (fs ++ gs) = fieldBits fs ++ fieldBits gs := List.flatMap_append

theorem readCoder_eq {c : Config} (c₀ : Config) (hv : c.Valid)
    (h : Stands buf off (fieldBits (coderFields c))) :
    readCoder c₀ (behind buf off) = .ok ({ c₀ with
      vMin := c.vMin, vMax := c.vMax, uMax := c.uMax, gammaStar := c.gammaStar
      gamma0 := c.gamma0, accumInitK := storedK c.accumInitK },
      behind buf (off + (fieldBits (coderFields c)).length)) := by
  have hread := readFields_eq
    (show ∀ n ∈ (coderFields c).map Prod.snd, n ≤ 64 from
      (by decide : ∀ n ∈ [4, 4, 1, 1, 1, 5, 5, 3, 3, 4, 1], n ≤ 64)) h
  have hvMin := hv.vMin
  have hvMax := hv.vMax
  have huMax := hv.uMax
  have hgamma0 := hv.gamma0
  have hgammaStar := hv.gammaStar
  have hvMinRead : ((((c.vMin + 6).toNat % 2 ^ 4 : Nat) : Int)) - 6 = c.vMin := by omega
  have hvMaxRead : ((((c.vMax + 6).toNat % 2 ^ 4 : Nat) : Int)) - 6 = c.vMax := by omega
  have huMaxRead : (if c.uMax % 32 % 2 ^ 5 = 0 then 32 else c.uMax % 32 % 2 ^ 5) = c.uMax := by
    split
    · omega
    · omega
  have hgammaRead : (c.gammaStar - 4) % 2 ^ 3 + 4 = c.gammaStar := by omega
  have hgamma0Read : (if c.gamma0 % 8 % 2 ^ 3 = 0 then 8 else c.gamma0 % 8 % 2 ^ 3) = c.gamma0 := by
    split
    · omega
    · omega
  have hkRead : (if c.accumInitK.getD 15 % 2 ^ 4 = 15 then none
      else some (c.accumInitK.getD 15 % 2 ^ 4)) = storedK c.accumInitK := by
    cases c.accumInitK with
    | none => rfl
    | some k => rfl
  have hfields : readCoder c₀ (behind buf off) = .ok ({ c₀ with
      vMin := (((c.vMin + 6).toNat % 2 ^ 4 : Nat) : Int) - 6
      vMax := (((c.vMax + 6).toNat % 2 ^ 4 : Nat) : Int) - 6
      uMax := if c.uMax % 32 % 2 ^ 5 = 0 then 32 else c.uMax % 32 % 2 ^ 5
      gammaStar := (c.gammaStar - 4) % 2 ^ 3 + 4
      gamma0 := if c.gamma0 % 8 % 2 ^ 3 = 0 then 8 else c.gamma0 % 8 % 2 ^ 3
      accumInitK := if c.accumInitK.getD 15 % 2 ^ 4 = 15 then none
        else some (c.accumInitK.getD 15 % 2 ^ 4) },
      behind buf (off + (fieldBits (coderFields c)).length)) := by
    unfold readCoder
    exact congrArg (· >>= _) hread
  rw [hfields, hvMinRead, hvMaxRead, huMaxRead, hgammaRead, hgamma0Read, hkRead]

theorem two_pow_log2_tInc {c : Config} (hv : c.Valid) :
    (1 : Nat) <<< (c.tInc.log2 - 4 + 4) = c.tInc ∧ c.tInc.log2 < 12 := by
  obtain ⟨hpow, hlow, hhigh⟩ := hv.tInc
  have hpos : c.tInc ≠ 0 := by omega
  have hfour : 4 ≤ c.tInc.log2 := (Nat.le_log2 hpos).2 hlow
  refine ⟨?_, (Nat.log2_lt hpos).2 (by omega)⟩
  rw [Nat.sub_add_cancel hfour]
  exact hpow.symm

theorem readPredictor_eq {c : Config} (c₀ : Config) (hv : c.Valid)
    (h : Stands buf off (fieldBits (predictorFields c ++ coderFields c))) :
    readPredictor c₀ (behind buf off) = .ok ({ c₀ with
      p := c.p, mode := c.mode, localSumType := c.localSumType, registerSize := c.registerSize
      omega := c.omega, tInc := c.tInc, vMin := c.vMin, vMax := c.vMax, uMax := c.uMax
      gammaStar := c.gammaStar, gamma0 := c.gamma0, accumInitK := storedK c.accumInitK },
      behind buf (off + (fieldBits (predictorFields c ++ coderFields c)).length)) := by
  rw [fieldBits_append, stands_append] at h
  have hread := readFields_eq
    (show ∀ n ∈ (predictorFields c).map Prod.snd, n ≤ 64 from
      (by decide : ∀ n ∈ [2, 4, 1, 1, 4, 1, 1, 2, 6, 4, 4], n ≤ 64)) h.1
  obtain ⟨htInc, hlog⟩ := two_pow_log2_tInc hv
  have hp := hv.p
  have hregister := hv.register
  have homega := hv.omega
  have hpRead : c.p % 2 ^ 4 = c.p := by omega
  have hmodeRead : (if modeCode c.mode % 2 ^ 1 = 0 then PredictionMode.full else .reduced) =
      c.mode := by
    cases c.mode with
    | full => rfl
    | reduced => rfl
  have hlsRead : (if localSumCode c.localSumType % 2 ^ 2 = 0 then LocalSumType.wideNeighbor
      else if localSumCode c.localSumType % 2 ^ 2 = 1 then .narrowNeighbor
      else if localSumCode c.localSumType % 2 ^ 2 = 2 then .wideColumn else .narrowColumn) =
      c.localSumType := by
    cases c.localSumType with
    | wideNeighbor => rfl
    | narrowNeighbor => rfl
    | wideColumn => rfl
    | narrowColumn => rfl
  have hregisterRead : (if c.registerSize % 64 % 2 ^ 6 = 0 then 64
      else c.registerSize % 64 % 2 ^ 6) = c.registerSize := by
    split
    · omega
    · omega
  have homegaRead : (c.omega - 4) % 2 ^ 4 + 4 = c.omega := by omega
  have htIncRead : (c.tInc.log2 - 4) % 2 ^ 4 = c.tInc.log2 - 4 := by omega
  have hrest := fun c₀ => readCoder_eq c₀ hv h.2
  unfold readPredictor
  rw [show [2, 4, 1, 1, 4, 1, 1, 2, 6, 4, 4] = (predictorFields c).map Prod.snd from rfl, hread]
  show (if 16 ≤ (c.tInc.log2 - 4) % 2 ^ 4 + 4 then _ else readCoder { c₀ with
    p := c.p % 2 ^ 4
    mode := if modeCode c.mode % 2 ^ 1 = 0 then PredictionMode.full else .reduced
    localSumType := if localSumCode c.localSumType % 2 ^ 2 = 0 then LocalSumType.wideNeighbor
      else if localSumCode c.localSumType % 2 ^ 2 = 1 then .narrowNeighbor
      else if localSumCode c.localSumType % 2 ^ 2 = 2 then .wideColumn else .narrowColumn
    registerSize := if c.registerSize % 64 % 2 ^ 6 = 0 then 64 else c.registerSize % 64 % 2 ^ 6
    omega := (c.omega - 4) % 2 ^ 4 + 4
    tInc := 1 <<< ((c.tInc.log2 - 4) % 2 ^ 4 + 4) } _) = _
  rw [htIncRead, if_neg (by omega), hpRead, hmodeRead, hlsRead, hregisterRead, homegaRead, htInc,
    hrest, fieldBits_append, List.length_append, Nat.add_assoc off]

theorem readQuantizer_eq {c : Config} (c₀ : Config) (hv : c.Valid)
    (h : Stands buf off (fieldBits (quantizerFields ++ (predictorFields c ++ coderFields c)))) :
    readQuantizer c₀ (behind buf off) = .ok ({ c₀ with
      p := c.p, mode := c.mode, localSumType := c.localSumType, registerSize := c.registerSize
      omega := c.omega, tInc := c.tInc, vMin := c.vMin, vMax := c.vMax, uMax := c.uMax
      gammaStar := c.gammaStar, gamma0 := c.gamma0, accumInitK := storedK c.accumInitK },
      behind buf (off +
        (fieldBits (quantizerFields ++ (predictorFields c ++ coderFields c))).length)) := by
  rw [fieldBits_append, stands_append] at h
  have hread := readFields_eq (by decide : ∀ n ∈ quantizerFields.map Prod.snd, n ≤ 64) h.1
  have hrest := readPredictor_eq c₀ hv h.2
  unfold readQuantizer
  rw [show [1, 2] = quantizerFields.map Prod.snd from rfl, hread]
  refine Eq.trans ?_ (hrest.trans ?_)
  · rfl
  · rw [fieldBits_append quantizerFields, List.length_append, Nat.add_assoc off]

theorem readHeader_eq {c : Config} (hv : c.Valid)
    (h : Stands buf off (fieldBits (headerFields c))) :
    readHeader (behind buf off) = .ok ({ c with accumInitK := storedK c.accumInitK },
      behind buf (off + (fieldBits (headerFields c)).length)) := by
  rw [headerFields, fieldBits_append, stands_append] at h
  have hread := readFields_eq
    (show ∀ n ∈ (imageFields c).map Prod.snd, n ≤ 64 from
      (by decide : ∀ n ∈ [8, 16, 16, 16, 1, 1, 1, 4, 1, 16, 2, 3, 2], n ≤ 64)) h.1
  have hrange := hv.range
  have hword : ∀ v : UInt16, UInt16.ofNat (v.toNat % 2 ^ 16) = v := by
    intro v
    rw [Nat.mod_eq_of_lt v.toNat_lt, UInt16.ofNat_toNat]
  have hlarge : (if 16 < c.d then 1 else 0) % 2 ^ 1 = 0 := by
    have hsmall : ¬ 16 < c.d := by
      show ¬ 16 < c.dynamicRange
      omega
    rw [if_neg hsmall, Nat.zero_mod]
  have hd : (if (0 : Nat) = 1 then c.d % 16 % 2 ^ 4 + 16
      else if c.d % 16 % 2 ^ 4 = 0 then 16 else c.d % 16 % 2 ^ 4) = c.dynamicRange := by
    rw [if_neg (by decide), Config.d]
    split
    · omega
    · omega
  have hsigned : ((if c.signedSamples = true then 1 else 0) % 2 ^ 1 == 1) = c.signedSamples := by
    cases c.signedSamples with
    | true => rfl
    | false => rfl
  have hrest := fun c₀ => readQuantizer_eq c₀ hv h.2
  unfold readHeader
  rw [show [8, 16, 16, 16, 1, 1, 1, 4, 1, 16, 2, 3, 2] = (imageFields c).map Prod.snd from rfl,
    hread]
  show readQuantizer (imageConfig (c.nx.toNat % 2 ^ 16) (c.ny.toNat % 2 ^ 16)
    (c.nz.toNat % 2 ^ 16) ((if c.signedSamples = true then 1 else 0) % 2 ^ 1)
    ((if 16 < c.d then 1 else 0) % 2 ^ 1) (c.d % 16 % 2 ^ 4)) _ = _
  rw [hrest, headerFields, fieldBits_append (imageFields c), List.length_append,
    Nat.add_assoc off, imageConfig, hword, hword, hword, hlarge, hd, hsigned]

end

end Ccsds123
end Compression
end Leodos
