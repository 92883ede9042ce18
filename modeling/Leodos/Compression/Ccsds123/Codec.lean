/-
The mapping of prediction errors and the adaptive coder of `ccsds123.rs`.

A band keeps the sum of its mapped errors, and all bands share one counter; both sides move them
in the same way.
-/
import Leodos.Compression.Ccsds123.Bounds

namespace Leodos
namespace Compression
namespace Ccsds123

open Emission

/-! ## Mapping -/

def quantizerTheta (c : Config) (sHat : Int) : Int := min (sHat - c.sMin) (c.sMax - sHat)

def mappedQuantizerIndex (c : Config) (delta sHat : Int) : Nat :=
  if quantizerTheta c sHat < (delta.natAbs : Int) then
    asU64 ((delta.natAbs : Int) + quantizerTheta c sHat)
  else if 0 ≤ delta then (2 * delta).toNat
  else (2 * -delta).toNat - 1

def unmapQuantizerIndex (c : Config) (mapped : Nat) (sHat : Int) : Int :=
  if 2 * quantizerTheta c sHat < asI64 mapped then
    if sHat - c.sMin ≤ c.sMax - sHat then asI64 mapped - quantizerTheta c sHat
    else -(asI64 mapped - quantizerTheta c sHat)
  else if mapped % 2 = 0 then ((mapped / 2 : Nat) : Int)
  else -(((mapped + 1) / 2 : Nat) : Int)

theorem range_width {c : Config} (hv : c.Valid) :
    c.sMax - c.sMin + 1 = ((2 ^ c.d : Nat) : Int) := by
  have hrange := hv.range
  have hd : c.d = (c.d - 1) + 1 := by
    show c.dynamicRange = (c.dynamicRange - 1) + 1
    omega
  have hdouble : 2 ^ c.d = 2 * 2 ^ (c.d - 1) := by
    rw [Nat.mul_comm, ← Nat.pow_succ]
    exact congrArg (2 ^ ·) hd
  unfold Config.sMax Config.sMin
  rw [Nat.one_shiftLeft, Nat.one_shiftLeft]
  split
  · omega
  · omega

theorem asU64_of_nonneg {v : Int} (h0 : 0 ≤ v) (h1 : v < 9223372036854775808) :
    asU64 v = v.toNat ∧ asI64 v.toNat = v := by
  unfold asU64 asI64
  rw [Int.emod_eq_of_lt h0 (by omega), if_pos (by omega)]
  exact ⟨rfl, Int.toNat_of_nonneg h0⟩

theorem asI64_of_lt {n : Nat} (h : n < 9223372036854775808) : asI64 n = n := if_pos h

/-- A sample in the range is coded in `d` bits and comes back, wherever the prediction is. -/
theorem mapped_spec {c : Config} (hv : c.Valid) {s : Int} (hs : c.sMin ≤ s ∧ s ≤ c.sMax)
    (sHat : Int) :
    mappedQuantizerIndex c (s - sHat) sHat < 2 ^ c.d ∧
      unmapQuantizerIndex c (mappedQuantizerIndex c (s - sHat) sHat) sHat = s - sHat := by
  have hwidth := range_width hv
  have hbound := natAbs_range_le hv
  have hmin : quantizerTheta c sHat ≤ sHat - c.sMin := Int.min_le_left _ _
  have hmax : quantizerTheta c sHat ≤ c.sMax - sHat := Int.min_le_right _ _
  have htheta : quantizerTheta c sHat = sHat - c.sMin ∨ quantizerTheta c sHat = c.sMax - sHat := by
    rcases Int.le_total (sHat - c.sMin) (c.sMax - sHat) with h | h
    · exact Or.inl (Int.min_eq_left h)
    · exact Or.inr (Int.min_eq_right h)
  unfold mappedQuantizerIndex unmapQuantizerIndex
  generalize quantizerTheta c sHat = theta at hmin hmax htheta ⊢
  by_cases hfar : theta < ((s - sHat).natAbs : Int)
  · -- the error is outside the part of the range that both signs share
    have hnonneg : 0 ≤ ((s - sHat).natAbs : Int) + theta := by omega
    have hlt : ((s - sHat).natAbs : Int) + theta < ((2 ^ c.d : Nat) : Int) := by omega
    have hsmall := asU64_of_nonneg hnonneg (by omega)
    rw [if_pos hfar, hsmall.1, hsmall.2, if_pos (by omega)]
    refine ⟨by omega, ?_⟩
    split
    · omega
    · omega
  · rw [if_neg hfar]
    by_cases hsign : 0 ≤ s - sHat
    · have hlt : (2 * (s - sHat)).toNat < 2 ^ c.d := by omega
      rw [if_pos hsign, asI64_of_lt (by omega), if_neg (by omega), if_pos (by omega)]
      exact ⟨hlt, by omega⟩
    · have hlt : (2 * -(s - sHat)).toNat - 1 < 2 ^ c.d := by omega
      rw [if_neg hsign, asI64_of_lt (by omega), if_neg (by omega), if_neg (by omega)]
      exact ⟨hlt, by omega⟩

/-! ## Adaptation -/

/-- The largest shift that keeps the counter below the threshold. -/
def kLoop (counter threshold : Nat) : Nat → Nat → Nat
  | 0, k => k
  | m + 1, k =>
      if threshold < counter * (1 <<< (k + 1)) then k else kLoop counter threshold m (k + 1)

def selectK (c : Config) (acc counter : Nat) : Except Stop Nat :=
  let threshold := acc + (49 * counter) >>> 7
  if 18446744073709551616 ≤ threshold then .error .panic
  else if threshold < 2 * counter then .ok 0
  else if c.d < 2 then .error .panic
  else .ok (kLoop counter threshold (c.d - 2) 0)

def adapt (c : Config) (mapped acc counter : Nat) : Except Stop (Nat × Nat) :=
  if counter < (1 <<< c.gammaStar) - 1 then
    if 18446744073709551616 ≤ acc + mapped then .error .panic
    else .ok (acc + mapped, counter + 1)
  else if 18446744073709551616 ≤ acc + mapped + 1 then .error .panic
  else .ok ((acc + mapped + 1) / 2, (counter + 1) / 2)

def initAcc (c : Config) (counter : Nat) : Except Stop Nat :=
  if 30 < c.d then .error .panic
  else
    let kpp := c.accumInitK.getD 0
    let kp := if kpp ≤ 30 - c.d then kpp else 2 * kpp + c.d - 30
    if 64 ≤ kp + 6 then .error .panic
    else if 18446744073709551616 ≤ 3 * (1 <<< (kp + 6)) then .error .panic
    else if 18446744073709551616 ≤ (3 * (1 <<< (kp + 6)) - 49) * counter then .error .panic
    else .ok (asU64 (asI64 ((3 * (1 <<< (kp + 6)) - 49) * counter) >>> (7 : Nat)))

def initAccs (c : Config) (counter : Nat) : Nat → Except Stop (List Nat)
  | 0 => .ok []
  | n + 1 => do
    let acc ← initAcc c counter
    let accs ← initAccs c counter n
    .ok (acc :: accs)

theorem kLoop_le (counter threshold m k : Nat) : kLoop counter threshold m k ≤ k + m := by
  induction m generalizing k with
  | zero => exact Nat.le_refl k
  | succ m ih =>
    have hrest := ih (k + 1)
    rw [kLoop]
    split
    · omega
    · omega

theorem selectK_ok {c : Config} (hv : c.Valid) {acc counter : Nat}
    (hacc : acc ≤ 18446744073709000000) (hcounter : counter ≤ 2048) :
    ∃ k, selectK c acc counter = .ok k ∧ k ≤ c.d := by
  have hd : 2 ≤ c.d := hv.range.1
  have hshift : (49 * counter) >>> 7 ≤ 784 := by
    rw [Nat.shiftRight_eq_div_pow]
    omega
  unfold selectK
  dsimp only
  rw [if_neg (by omega)]
  split
  · exact ⟨0, rfl, Nat.zero_le _⟩
  · have hle := kLoop_le counter (acc + (49 * counter) >>> 7) (c.d - 2) 0
    rw [if_neg (by omega)]
    exact ⟨_, rfl, by omega⟩

theorem adapt_ok {c : Config} (hv : c.Valid) {mapped acc counter : Nat}
    (hmapped : mapped ≤ 65535) (hacc : acc ≤ 18446744073709000000) (hcounter : counter ≤ 2048) :
    ∃ acc' counter', adapt c mapped acc counter = .ok (acc', counter') ∧ acc' ≤ acc + mapped ∧
      counter' ≤ 2048 := by
  have hstar := hv.gammaStar.2
  have hpow : 2 ^ c.gammaStar ≤ 2 ^ 11 := Nat.pow_le_pow_right (by decide) hstar
  unfold adapt
  rw [Nat.one_shiftLeft]
  split
  · rw [if_neg (by omega)]
    exact ⟨_, _, rfl, Nat.le_refl _, by omega⟩
  · rw [if_neg (by omega)]
    exact ⟨_, _, rfl, by omega, by omega⟩

theorem initAcc_ok {c : Config} (hv : c.Valid) (hk : ∀ k, c.accumInitK = some k → k ≤ 14) :
    ∃ acc, initAcc c (1 <<< c.gamma0) = .ok acc ∧ acc ≤ 8388608 := by
  have hd : c.d ≤ 16 := hv.range.2
  have hgamma : 1 <<< c.gamma0 ≤ 256 := by
    rw [Nat.one_shiftLeft]
    exact Nat.pow_le_pow_right (by decide) (show c.gamma0 ≤ 8 from hv.gamma0.2)
  have hkpp : c.accumInitK.getD 0 ≤ 14 := by
    cases hinit : c.accumInitK with
    | none => exact Nat.zero_le _
    | some k => exact hk k hinit
  have hpow : 1 <<< (c.accumInitK.getD 0 + 6) ≤ 1048576 := by
    rw [Nat.one_shiftLeft]
    exact Nat.pow_le_pow_right (by decide) (show c.accumInitK.getD 0 + 6 ≤ 20 by omega)
  have hprod : (3 * (1 <<< (c.accumInitK.getD 0 + 6)) - 49) * (1 <<< c.gamma0) ≤
      3145728 * 256 := Nat.mul_le_mul (by omega) hgamma
  have hkp : (if c.accumInitK.getD 0 ≤ 30 - c.d then c.accumInitK.getD 0
      else 2 * c.accumInitK.getD 0 + c.d - 30) = c.accumInitK.getD 0 := if_pos (by omega)
  unfold initAcc
  dsimp only
  rw [hkp, if_neg (by omega), if_neg (by omega), if_neg (by omega), if_neg (by omega)]
  refine ⟨_, rfl, ?_⟩
  rw [asI64, if_pos (by omega), Int.shiftRight_eq_div_pow, asU64]
  omega

theorem initAccs_ok {c : Config} (hv : c.Valid) (hk : ∀ k, c.accumInitK = some k → k ≤ 14)
    (n : Nat) : ∃ accs, initAccs c (1 <<< c.gamma0) n = .ok accs ∧ accs.length = n ∧
      ∀ acc ∈ accs, acc ≤ 8388608 := by
  obtain ⟨acc, hacc, hle⟩ := initAcc_ok hv hk
  induction n with
  | zero => exact ⟨[], rfl, rfl, fun acc h => absurd h List.not_mem_nil⟩
  | succ n ih =>
    obtain ⟨accs, haccs, hlen, hbounds⟩ := ih
    refine ⟨acc :: accs, ?_, by rw [List.length_cons, hlen], List.forall_mem_cons.2 ⟨hle, hbounds⟩⟩
    simp only [initAccs, hacc, haccs, ok_bind]

end Ccsds123
end Compression
end Leodos

/-
The two directions of `ccsds123.rs`.

`compress` and `decompress` go over the samples band by band and row by row.  Each has a state of
its own, made of the predictor, a sum for every band, and the counter.
-/

namespace Leodos
namespace Compression
namespace Ccsds123

structure Pos where
  z : Nat
  y : Nat
  x : Nat
  deriving DecidableEq, Repr

/-- The order of both loops. -/
def positions (c : Config) : List Pos :=
  (List.range c.nz.toNat).flatMap fun z => (List.range c.ny.toNat).flatMap fun y =>
    (List.range c.nx.toNat).map fun x => ⟨z, y, x⟩

/-- The place of a sample in the image. -/
def index (c : Config) (p : Pos) : Nat :=
  p.z * c.ny.toNat * c.nx.toNat + p.y * c.nx.toNat + p.x

def size (c : Config) : Nat := c.nx.toNat * c.ny.toNat * c.nz.toNat

def time (c : Config) (p : Pos) : Nat := p.y * c.nx.toNat + p.x

def scratchLen (c : Config) : Nat :=
  c.nz.toNat * 2 * c.nx.toNat + c.nz.toNat * maxCz + c.nz.toNat

structure Model where
  predictor : Predictor
  acc : List Nat
  counter : Nat
  deriving DecidableEq, Repr

def initModel (c : Config) : Except Stop Model := do
  let accs ← initAccs c (1 <<< c.gamma0) c.nz.toNat
  .ok ⟨initPredictor c, accs, 1 <<< c.gamma0⟩

/-! ## Compression -/

/-- The bits of a negative sample are taken as they are. -/
def getSample (c : Config) (image : List UInt16) (p : Pos) : Except Stop Int := do
  let v ← fetch image (index c p)
  .ok v.toNat

def encodeSample (c : Config) (w : BitWriter) (mapped acc counter : Nat) :
    Except Stop ((Nat × Nat) × BitWriter) := do
  let k ← selectK c acc counter
  let w ← w.writeGpo2 mapped k c.uMax c.d
  let sums ← adapt c mapped acc counter
  .ok (sums, w)

def encodeAt (c : Config) (image : List UInt16) (p : Pos) (m : Model) (w : BitWriter) :
    Except Stop (Model × BitWriter) := do
  let s ← getSample c image p
  if time c p = 0 then do
    let w ← w.writeBits (asU64 (if c.signedSamples then s - c.sMin else s)) c.d
    .ok ({ m with predictor := m.predictor.store c p.z p.y p.x s }, w)
  else do
    let pred ← predict c m.predictor p.z p.y p.x
    let sHat := predictedSample pred.sTilde
    let acc ← fetch m.acc p.z
    let (sums, w) ← encodeSample c w (mappedQuantizerIndex c (s - sHat) sHat) acc m.counter
    let predictor ← update c m.predictor p.z p.y p.x pred s
    .ok (⟨predictor, m.acc.set p.z sums.1, sums.2⟩, w)

def encodeLoop (c : Config) (image : List UInt16) :
    List Pos → Model → BitWriter → Except Stop (Model × BitWriter)
  | [], m, w => .ok (m, w)
  | p :: ps, m, w => do
    let (m, w) ← encodeAt c image p m w
    encodeLoop c image ps m w

/-- The number of octets written, and the buffer. -/
def compress (c : Config) (image : List UInt16) (out : Bytes) (scratch : Nat) :
    Except Stop (Nat × Bytes) := do
  c.validate
  if scratch < scratchLen c then .error (.error .scratchTooSmall)
  else if image.length < size c then .error (.error .truncated)
  else do
    let w ← writeHeader c (.new (List.replicate out.length 0))
    let m ← initModel c
    let (_, w) ← encodeLoop c image (positions c) m w
    .ok (w.flush.bytesWritten, w.flush.buf)

/-! ## Decompression -/

def asU16 (s : Int) : UInt16 := UInt16.ofNat (s % 65536).toNat

def setSample (c : Config) (image : List UInt16) (p : Pos) (s : Int) :
    Except Stop (List UInt16) :=
  if image.length ≤ index c p then .error .panic
  else .ok (image.set (index c p) (asU16 s))

def decodeSample (c : Config) (r : BitReader) (acc counter : Nat) :
    Except Stop (Nat × (Nat × Nat) × BitReader) := do
  let k ← selectK c acc counter
  let (mapped, r) ← r.readGpo2 k c.uMax c.d
  let sums ← adapt c mapped acc counter
  .ok (mapped, sums, r)

def decodeAt (c : Config) (p : Pos) (m : Model) (r : BitReader) (image : List UInt16) :
    Except Stop (Model × BitReader × List UInt16) :=
  if time c p = 0 then do
    let (raw, r) ← r.readBits c.d
    let s := if c.signedSamples then asI64 raw + c.sMin else asI64 raw
    let image ← setSample c image p s
    .ok ({ m with predictor := m.predictor.store c p.z p.y p.x s }, r, image)
  else do
    let pred ← predict c m.predictor p.z p.y p.x
    let sHat := predictedSample pred.sTilde
    let acc ← fetch m.acc p.z
    let (mapped, sums, r) ← decodeSample c r acc m.counter
    let s := sHat + unmapQuantizerIndex c mapped sHat
    let image ← setSample c image p s
    let predictor ← update c m.predictor p.z p.y p.x pred s
    .ok (⟨predictor, m.acc.set p.z sums.1, sums.2⟩, r, image)

def decodeLoop (c : Config) :
    List Pos → Model → BitReader → List UInt16 → Except Stop (Model × BitReader × List UInt16)
  | [], m, r, image => .ok (m, r, image)
  | p :: ps, m, r, image => do
    let (m, r, image) ← decodeAt c p m r image
    decodeLoop c ps m r image

/-- The parameters, the number of samples and the image they were put into. -/
def decompress (data : Bytes) (image : List UInt16) (scratch : Nat) :
    Except Stop (Config × Nat × List UInt16) := do
  let (c, r) ← readHeader (.new data)
  if scratch < scratchLen c then .error (.error .scratchTooSmall)
  else if image.length < size c then .error (.error .outputFull)
  else do
    let m ← initModel c
    let (_, _, image) ← decodeLoop c (positions c) m r image
    .ok (c, size c, image)

/-! ## The order of the samples -/

theorem flatMap_range_blocks (n m : Nat) :
    ((List.range n).flatMap fun i => (List.range m).map fun j => i * m + j) =
      List.range (n * m) := by
  induction n with
  | zero =>
    rw [Nat.zero_mul]
    rfl
  | succ n ih =>
    rw [List.range_succ, List.flatMap_append, ih, Nat.succ_mul, List.range_add]
    rw [List.flatMap_singleton]

theorem map_index_positions (c : Config) :
    (positions c).map (index c) = List.range (size c) := by
  have hband : ∀ z, ((List.range c.ny.toNat).flatMap fun y =>
      (List.range c.nx.toNat).map fun x => (⟨z, y, x⟩ : Pos)).map (index c) =
        (List.range (c.ny.toNat * c.nx.toNat)).map fun j =>
          z * (c.ny.toNat * c.nx.toNat) + j := by
    intro z
    rw [← flatMap_range_blocks, List.map_flatMap, List.map_flatMap]
    congr 1
    funext y
    rw [List.map_map, List.map_map]
    congr 1
    funext x
    show z * c.ny.toNat * c.nx.toNat + y * c.nx.toNat + x =
      z * (c.ny.toNat * c.nx.toNat) + (y * c.nx.toNat + x)
    rw [Nat.mul_assoc, Nat.add_assoc]
  have hsize : size c = c.nz.toNat * (c.ny.toNat * c.nx.toNat) := by
    rw [size, Nat.mul_comm c.nx.toNat, Nat.mul_comm]
  rw [positions, List.map_flatMap]
  simp only [hband]
  rw [flatMap_range_blocks, hsize]

theorem length_positions (c : Config) : (positions c).length = size c := by
  have hlen := congrArg List.length (map_index_positions c)
  rw [List.length_map, List.length_range] at hlen
  exact hlen

theorem mem_positions {c : Config} {p : Pos} (h : p ∈ positions c) :
    p.z < c.nz.toNat ∧ p.y < c.ny.toNat ∧ p.x < c.nx.toNat := by
  obtain ⟨z, hz, h⟩ := List.mem_flatMap.1 h
  obtain ⟨y, hy, h⟩ := List.mem_flatMap.1 h
  obtain ⟨x, hx, rfl⟩ := List.mem_map.1 h
  exact ⟨List.mem_range.1 hz, List.mem_range.1 hy, List.mem_range.1 hx⟩

end Ccsds123
end Compression
end Leodos
