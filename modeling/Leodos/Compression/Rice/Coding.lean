/-
The parameters, the mapper and the coding options of `rice.rs`.

Words of 64 bits are numbers here.  The source works with overflow checks, and a sum or a
difference that can leave its range ends in a panic; the others stay below 2^40 for samples of
32 bits.
-/
import Leodos.Compression.Rice.BitIo

namespace Leodos
namespace Compression
namespace Rice

structure Config where
  bitsPerSample : Nat
  blockSize : Nat
  refInterval : Nat
  preprocessor : Bool
  deriving DecidableEq, Repr

namespace Config

def idLen (c : Config) : Nat :=
  if 1 ≤ c.bitsPerSample ∧ c.bitsPerSample ≤ 2 then 1
  else if 3 ≤ c.bitsPerSample ∧ c.bitsPerSample ≤ 4 then 2
  else if 5 ≤ c.bitsPerSample ∧ c.bitsPerSample ≤ 8 then 3
  else if 9 ≤ c.bitsPerSample ∧ c.bitsPerSample ≤ 16 then 4
  else if 17 ≤ c.bitsPerSample ∧ c.bitsPerSample ≤ 32 then 5
  else 0

def validate (c : Config) : Except Stop Unit :=
  if c.bitsPerSample = 0 ∨ 32 < c.bitsPerSample then .error (.error .invalidConfig)
  else if ¬ (c.blockSize = 8 ∨ c.blockSize = 16 ∨ c.blockSize = 32 ∨ c.blockSize = 64) then
    .error (.error .invalidConfig)
  else if 4096 < c.refInterval then .error (.error .invalidConfig)
  else .ok ()

def xMax (c : Config) : Nat := (1 <<< c.bitsPerSample) - 1

/-- Reference samples come at regular intervals of blocks. -/
def isRef (c : Config) (blk : Nat) : Bool :=
  c.preprocessor && decide (0 < c.refInterval) && decide (blk % c.refInterval = 0)

structure Valid (c : Config) : Prop where
  bits : 1 ≤ c.bitsPerSample ∧ c.bitsPerSample ≤ 32
  block : c.blockSize = 8 ∨ c.blockSize = 16 ∨ c.blockSize = 32 ∨ c.blockSize = 64
  interval : c.refInterval ≤ 4096

theorem validate_ok_iff {c : Config} : c.validate = .ok () ↔ c.Valid := by
  unfold validate
  constructor
  · intro h
    split at h
    · cases h
    · split at h
      · cases h
      · split at h
        · cases h
        · exact ⟨by omega, Decidable.of_not_not ‹_›, by omega⟩
  · intro h
    have hbits := h.bits
    have hinterval := h.interval
    rw [if_neg (by omega), if_neg (not_not_intro h.block), if_neg (by omega)]

theorem Valid.block_bounds {c : Config} (h : c.Valid) : 8 ≤ c.blockSize ∧ c.blockSize ≤ 64 := by
  have hblock := h.block
  omega

theorem Valid.block_even {c : Config} (h : c.Valid) : c.blockSize % 2 = 0 := by
  have hblock := h.block
  omega

theorem idLen_le (c : Config) : c.idLen ≤ 5 := by
  unfold idLen
  split
  · decide
  · split
    · decide
    · split
      · decide
      · split
        · decide
        · split
          · decide
          · decide

theorem Valid.idLen_eq_one {c : Config} (h : c.Valid) (hn : c.bitsPerSample ≤ 2) : c.idLen = 1 := by
  have hbits := h.bits
  rw [idLen, if_pos ⟨hbits.1, hn⟩]

theorem Valid.two_le_idLen {c : Config} (h : c.Valid) (hn : 3 ≤ c.bitsPerSample) :
    2 ≤ c.idLen := by
  have hbits := h.bits
  unfold idLen
  rw [if_neg (by omega)]
  split
  · omega
  · split
    · omega
    · split
      · omega
      · rw [if_pos (by omega)]
        omega

theorem xMax_add_one (c : Config) : c.xMax + 1 = 2 ^ c.bitsPerSample := by
  have hpos := Nat.two_pow_pos c.bitsPerSample
  rw [xMax, Nat.one_shiftLeft]
  omega

theorem Valid.xMax_lt {c : Config} (h : c.Valid) : c.xMax < 4294967296 := by
  have hpow : 2 ^ c.bitsPerSample ≤ 2 ^ 32 := Nat.pow_le_pow_right (by decide) h.bits.2
  have hmax := c.xMax_add_one
  omega

end Config

/-! ## Mapper -/

def theta (xHat xMax : Nat) : Nat := min xHat (xMax - xHat)

/-- The prediction error as an unsigned number. -/
def mapDelta (delta : Int) (theta : Nat) : Nat :=
  if 0 ≤ delta ∧ delta ≤ theta then (2 * delta).toNat
  else if delta < 0 ∧ -delta ≤ theta then (2 * -delta).toNat - 1
  else theta + delta.natAbs

def mapError (delta : Int) (xHat xMax : Nat) : Except Stop Nat :=
  if xMax < xHat then .error .panic else .ok (mapDelta delta (theta xHat xMax))

/-- A 64-bit word read as a signed number. -/
def asI64 (d : Nat) : Int :=
  if d < 9223372036854775808 then (d : Int) else (d : Int) - 18446744073709551616

def unmapError (d xHat xMax : Nat) : Except Stop Int :=
  if xMax < xHat then .error .panic
  else if asI64 d ≤ 2 * theta xHat xMax then
    if d % 2 = 0 then .ok ((d / 2 : Nat) : Int)
    else if 18446744073709551616 ≤ d + 1 then .error .panic
    else .ok (-(((d + 1) / 2 : Nat) : Int))
  else if xHat ≤ xMax - xHat then .ok (asI64 d - theta xHat xMax)
  else .ok (theta xHat xMax - asI64 d)

theorem mapDelta_eq_zero {delta : Int} {theta : Nat} (h : mapDelta delta theta = 0) :
    delta = 0 := by
  unfold mapDelta at h
  split at h
  · omega
  · split at h
    · omega
    · omega

@[simp] theorem mapDelta_zero (theta : Nat) : mapDelta 0 theta = 0 := by
  rw [mapDelta, if_pos ⟨by omega, by omega⟩]
  rfl

theorem mapDelta_le {x xHat xMax : Nat} (hx : x ≤ xMax) (hhat : xHat ≤ xMax) :
    mapDelta ((x : Int) - xHat) (theta xHat xMax) ≤ xMax := by
  unfold mapDelta theta
  split
  · omega
  · split
    · omega
    · omega

theorem unmapError_mapDelta {x xHat xMax : Nat} (hx : x ≤ xMax) (hhat : xHat ≤ xMax)
    (hmax : xMax < 4294967296) :
    unmapError (mapDelta ((x : Int) - xHat) (theta xHat xMax)) xHat xMax =
      .ok ((x : Int) - xHat) := by
  have hle := mapDelta_le hx hhat
  have hsigned : asI64 (mapDelta ((x : Int) - xHat) (theta xHat xMax)) =
      (mapDelta ((x : Int) - xHat) (theta xHat xMax) : Int) := by
    rw [asI64, if_pos (by omega)]
  rw [unmapError, if_neg (by omega), hsigned]
  unfold mapDelta theta at *
  split
  · rw [if_pos (by omega), if_pos (by omega)]
    congr 1
    omega
  · split
    · rw [if_pos (by omega), if_neg (by omega), if_neg (by omega)]
      congr 1
      omega
    · rw [if_neg (by omega)]
      split
      · congr 1
        omega
      · congr 1
        omega

/-! ## Preprocessor -/

def preprocessLoop (xMax : Nat) : Nat → List Nat → Except Stop (List Nat)
  | _, [] => .ok []
  | prev, x :: xs => do
    let d ← mapError ((x : Int) - prev) prev xMax
    let ds ← preprocessLoop xMax x xs
    .ok (d :: ds)

def preprocessBlock (samples : List Nat) (isRef : Bool) (prev xMax : Nat) :
    Except Stop (List Nat) :=
  if isRef then
    match samples with
    | [] => .error .panic
    | x :: xs => preprocessLoop xMax x xs
  else preprocessLoop xMax prev samples

/-- The mapped prediction errors, each sample being predicted by the one before it. -/
def residuals (xMax : Nat) : Nat → List Nat → List Nat
  | _, [] => []
  | prev, x :: xs => mapDelta ((x : Int) - prev) (theta prev xMax) :: residuals xMax x xs

@[simp] theorem length_residuals (xMax prev : Nat) (xs : List Nat) :
    (residuals xMax prev xs).length = xs.length := by
  induction xs generalizing prev with
  | nil => rfl
  | cons x xs ih => rw [residuals, List.length_cons, List.length_cons, ih]

theorem preprocessLoop_eq {xMax prev : Nat} {xs : List Nat} (hprev : prev ≤ xMax)
    (hxs : ∀ x ∈ xs, x ≤ xMax) : preprocessLoop xMax prev xs = .ok (residuals xMax prev xs) := by
  induction xs generalizing prev with
  | nil => rfl
  | cons x xs ih =>
    have hrest := ih (hxs x List.mem_cons_self) (fun y hy => hxs y (List.mem_cons_of_mem _ hy))
    rw [preprocessLoop, mapError, if_neg (by omega), hrest]
    rfl

theorem residuals_le {xMax prev : Nat} {xs : List Nat} (hprev : prev ≤ xMax)
    (hxs : ∀ x ∈ xs, x ≤ xMax) : ∀ d ∈ residuals xMax prev xs, d ≤ xMax := by
  induction xs generalizing prev with
  | nil => exact fun d hd => absurd hd List.not_mem_nil
  | cons x xs ih =>
    have hx := hxs x List.mem_cons_self
    have hrest := ih hx (fun y hy => hxs y (List.mem_cons_of_mem _ hy))
    intro d hd
    rcases List.mem_cons.1 hd with hd | hd
    · rw [hd]
      exact mapDelta_le hx hprev
    · exact hrest d hd

theorem residuals_eq_zero_iff {xMax prev : Nat} {xs : List Nat} :
    (∀ d ∈ residuals xMax prev xs, d = 0) ↔ xs = List.replicate xs.length prev := by
  induction xs generalizing prev with
  | nil => exact iff_of_true (fun d hd => absurd hd List.not_mem_nil) rfl
  | cons x xs ih =>
    rw [residuals, List.forall_mem_cons, ih, List.length_cons, List.replicate_succ,
      List.cons.injEq]
    constructor
    · intro h
      have hx := mapDelta_eq_zero h.1
      obtain rfl : x = prev := by omega
      exact ⟨rfl, h.2⟩
    · intro h
      obtain ⟨rfl, hxs⟩ := h
      rw [Int.sub_self]
      exact ⟨mapDelta_zero _, hxs⟩

def reconstructLoop (xMax : Nat) : Nat → List Nat → Except Stop (List Nat)
  | _, [] => .ok []
  | prev, d :: ds => do
    let delta ← unmapError d prev xMax
    if 9223372036854775808 ≤ (prev : Int) + delta then .error .panic
    else do
      let sample := (((prev : Int) + delta) % 4294967296).toNat
      let samples ← reconstructLoop xMax sample ds
      .ok (sample :: samples)

theorem reconstructLoop_residuals {xMax prev : Nat} {xs : List Nat} (hprev : prev ≤ xMax)
    (hxs : ∀ x ∈ xs, x ≤ xMax) (hmax : xMax < 4294967296) :
    reconstructLoop xMax prev (residuals xMax prev xs) = .ok xs := by
  induction xs generalizing prev with
  | nil => rfl
  | cons x xs ih =>
    have hx := hxs x List.mem_cons_self
    have hrest := ih hx (fun y hy => hxs y (List.mem_cons_of_mem _ hy))
    have hsum : (prev : Int) + ((x : Int) - prev) = x := by omega
    have hsample : ((x : Int) % 4294967296).toNat = x := by omega
    rw [residuals, reconstructLoop, unmapError_mapDelta hx hprev hmax]
    show (if 9223372036854775808 ≤ (prev : Int) + ((x : Int) - prev) then _ else _) = _
    rw [if_neg (by omega), hsum, hsample, hrest]
    rfl

end Rice
end Compression
end Leodos
