/-
The decoder of `rice.rs`.

It keeps its own count of the segment and its own last sample.  A part of the code read in step
with the encoder gives back the blocks of the part.
-/
import Leodos.Compression.Rice.Encoder

namespace Leodos
namespace Compression
namespace Rice

open BitStream Emission

structure Decoder where
  r : BitReader
  output : List Nat
  outPos : Nat
  blkIdx : Nat
  prevSample : Nat
  segRemaining : Nat
  deriving DecidableEq, Repr

def decodeZeroCount (fsVal segRemaining : Nat) : Nat :=
  if fsVal ≤ 3 then fsVal + 1
  else if fsVal = 4 then segRemaining
  else fsVal % 4294967296

/-- The triangular number below `gamma` and its root. -/
def pairLoop : Nat → Nat → Nat → Nat → Except Stop (Nat × Nat)
  | 0, _, _, _ => .error .endless
  | fuel + 1, gamma, beta, threshold =>
    if gamma < threshold + beta + 1 then .ok (beta, threshold)
    else pairLoop fuel gamma (beta + 1) (threshold + beta + 1)

def decodeSecondExtPair (gamma : Nat) : Except Stop (Nat × Nat) := do
  let (beta, threshold) ← pairLoop (gamma + 1) gamma 0 0
  .ok (beta - (gamma - threshold), gamma - threshold)

def overwrite (output : List Nat) (pos : Nat) (xs : List Nat) : List Nat :=
  output.take pos ++ xs ++ output.drop (pos + xs.length)

/-! ## Reading a block -/

def readRef (c : Config) (isRef : Bool) (r : BitReader) : Except Stop (Nat × BitReader) :=
  if isRef then do
    let (v, r) ← r.read c.bitsPerSample
    .ok (v % 4294967296, r)
  else .ok (0, r)

def readCodes : Nat → BitReader → Except Stop (List Nat × BitReader)
  | 0, r => .ok ([], r)
  | m + 1, r => do
    let (v, r) ← r.readFs
    let (vs, r) ← readCodes m r
    .ok (v :: vs, r)

def readWords (n : Nat) : Nat → BitReader → Except Stop (List Nat × BitReader)
  | 0, r => .ok ([], r)
  | m + 1, r => do
    let (v, r) ← r.read n
    let (vs, r) ← readWords n m r
    .ok (v :: vs, r)

def readPairs : Nat → BitReader → Except Stop (List Nat × BitReader)
  | 0, r => .ok ([], r)
  | m + 1, r => do
    let (gamma, r) ← r.readFs
    let (d1, d2) ← decodeSecondExtPair gamma
    let (ds, r) ← readPairs m r
    .ok (d1 :: d2 :: ds, r)

/-- The pairs of a reference block go one place up in an array of 64. -/
def readMapped (c : Config) (isRef : Bool) (r : BitReader) :
    CodingOption → Except Stop (List Nat × BitReader)
  | .split k => do
    let (codes, r) ← readCodes (if isRef then c.blockSize - 1 else c.blockSize) r
    let high := codes.map fun m => (m <<< k) % 18446744073709551616
    if 0 < k then do
      let (low, r) ← readWords k (if isRef then c.blockSize - 1 else c.blockSize) r
      .ok (List.zipWith (· ||| ·) high low, r)
    else .ok (high, r)
  | .secondExtension => do
    let (ds, r) ← readPairs (c.blockSize / 2) r
    if 64 < (if isRef then 1 else 0) + 2 * (c.blockSize / 2) then .error .panic
    else .ok (ds.take (if isRef then c.blockSize - 1 else c.blockSize), r)
  | .noCompression =>
    readWords c.bitsPerSample (if isRef then c.blockSize - 1 else c.blockSize) r
  | .zeroBlock => .error .panic

def reconstruct (c : Config) (prev : Nat) (mapped : List Nat) : Except Stop (List Nat) :=
  if c.preprocessor then reconstructLoop c.xMax prev mapped
  else .ok (mapped.map (· % 4294967296))

def nextBlock (c : Config) (s : Decoder) : Except Stop Decoder :=
  if s.segRemaining = 0 then .error .panic
  else .ok { s with
    blkIdx := s.blkIdx + 1, segRemaining := nextSeg c s.blkIdx s.segRemaining }

def decodeSingleBlock (c : Config) (isRef : Bool) (option : CodingOption) (s : Decoder) :
    Except Stop Decoder := do
  let (refVal, r) ← readRef c isRef s.r
  let (mapped, r) ← readMapped c isRef r option
  let tail ← reconstruct c (if isRef then refVal else s.prevSample) mapped
  let block := if isRef then refVal :: tail else tail
  nextBlock c { s with
    r := r, output := overwrite s.output s.outPos block, outPos := s.outPos + c.blockSize
    prevSample := block.getD (c.blockSize - 1) 0 }

/-- Every block of a run repeats one sample. -/
def fillZeros (c : Config) (isRef : Bool) (refVal : Nat) : Nat → Bool → Decoder →
    Except Stop Decoder
  | 0, _, s => .ok s
  | m + 1, first, s =>
    if s.output.length < s.outPos + c.blockSize then .error .panic
    else
      let value := if isRef && first then refVal else if c.preprocessor then s.prevSample else 0
      nextBlock c { s with
        output := overwrite s.output s.outPos (List.replicate c.blockSize value)
        outPos := s.outPos + c.blockSize
        prevSample := value } >>= fillZeros c isRef refVal m false

def decodeStep (c : Config) (s : Decoder) : Except Stop Decoder := do
  let isRef := c.isRef s.blkIdx
  let (idVal, r) ← s.r.read c.idLen
  if idVal = 0 then do
    let (extra, r) ← r.read 1
    if extra = 0 then do
      let (refVal, r) ← readRef c isRef r
      let (fsVal, r) ← r.readFs
      fillZeros c isRef refVal (decodeZeroCount fsVal s.segRemaining) true { s with r := r }
    else decodeSingleBlock c isRef .secondExtension { s with r := r }
  else if idVal = (1 <<< c.idLen) - 1 then
    decodeSingleBlock c isRef .noCompression { s with r := r }
  else decodeSingleBlock c isRef (.split (idVal - 1)) { s with r := r }

def decodeLoop (c : Config) : Nat → Decoder → Except Stop Decoder
  | 0, _ => .error .endless
  | fuel + 1, s =>
    if s.outPos + c.blockSize ≤ s.output.length then decodeStep c s >>= decodeLoop c fuel
    else .ok s

/-- Every round of the loop reads a bit. -/
def decompress (c : Config) (input : Bytes) (output : List Nat) :
    Except Stop (Nat × List Nat) := do
  c.validate
  let s ← decodeLoop c (8 * input.length + 1) ⟨.new input, output, 0, 0, 0, segSize c 0⟩
  .ok (s.outPos, s.output)

/-! ## Written samples stay -/

theorem take_overwrite {output : List Nat} {pos : Nat} {xs : List Nat}
    (h : pos ≤ output.length) : (overwrite output pos xs).take pos = output.take pos := by
  rw [overwrite, List.append_assoc, List.take_append_of_le_length, List.take_take, Nat.min_self]
  rw [List.length_take]
  omega

theorem take_overwrite_add {output : List Nat} {pos : Nat} {xs : List Nat}
    (h : pos + xs.length ≤ output.length) :
    (overwrite output pos xs).take (pos + xs.length) = output.take pos ++ xs := by
  have hlen : (output.take pos ++ xs).length = pos + xs.length := by
    rw [List.length_append, List.length_take]
    omega
  rw [overwrite, ← hlen, List.take_left]

theorem length_overwrite {output : List Nat} {pos : Nat} {xs : List Nat}
    (h : pos + xs.length ≤ output.length) : (overwrite output pos xs).length = output.length := by
  rw [overwrite, List.length_append, List.length_append, List.length_take, List.length_drop]
  omega

/-- The samples in front of the position are those of an earlier state. -/
def Extends (s s' : Decoder) : Prop :=
  s.outPos ≤ s'.outPos ∧ s'.output.take s.outPos = s.output.take s.outPos

theorem Extends.trans {s s' s'' : Decoder} (h : Extends s s') (h' : Extends s' s'') :
    Extends s s'' := by
  refine ⟨Nat.le_trans h.1 h'.1, ?_⟩
  have hmin : min s.outPos s'.outPos = s.outPos := Nat.min_eq_left h.1
  have htake : (s''.output.take s'.outPos).take s.outPos =
      (s'.output.take s'.outPos).take s.outPos := congrArg (List.take s.outPos) h'.2
  rw [List.take_take, List.take_take, hmin] at htake
  rw [htake, h.2]

theorem nextBlock_ok {c : Config} {s s' : Decoder} (h : nextBlock c s = .ok s') :
    s'.outPos = s.outPos ∧ s'.output = s.output := by
  unfold nextBlock at h
  split at h
  · cases h
  · cases h
    exact ⟨rfl, rfl⟩

theorem decodeSingleBlock_extends {c : Config} {isRef : Bool} {option : CodingOption}
    {s s' : Decoder} (hroom : s.outPos ≤ s.output.length)
    (h : decodeSingleBlock c isRef option s = .ok s') : Extends s s' := by
  obtain ⟨⟨refVal, r⟩, -, h⟩ := bind_ok h
  obtain ⟨⟨mapped, r'⟩, -, h⟩ := bind_ok h
  obtain ⟨tail, -, h⟩ := bind_ok h
  obtain ⟨hpos, hout⟩ := nextBlock_ok h
  rw [Extends, hpos, hout]
  exact ⟨Nat.le_add_right .., take_overwrite hroom⟩

theorem fillZeros_extends {c : Config} {isRef : Bool} {refVal m : Nat} {first : Bool}
    {s s' : Decoder} (h : fillZeros c isRef refVal m first s = .ok s') : Extends s s' := by
  induction m generalizing first s with
  | zero =>
    cases h
    exact ⟨Nat.le_refl _, rfl⟩
  | succ m ih =>
    rw [fillZeros] at h
    by_cases hfull : s.output.length < s.outPos + c.blockSize
    · rw [if_pos hfull] at h
      cases h
    · rw [if_neg hfull] at h
      obtain ⟨s₁, hs₁, h⟩ := bind_ok h
      obtain ⟨hpos, hout⟩ := nextBlock_ok hs₁
      have hfirst : Extends s s₁ := by
        rw [Extends, hpos, hout]
        exact ⟨Nat.le_add_right .., take_overwrite (by omega)⟩
      exact hfirst.trans (ih h)

theorem decodeStep_extends {c : Config} {s s' : Decoder} (hroom : s.outPos ≤ s.output.length)
    (h : decodeStep c s = .ok s') : Extends s s' := by
  obtain ⟨⟨idVal, r⟩, -, h⟩ := bind_ok h
  by_cases hid : idVal = 0
  · replace h := (if_pos hid).symm.trans h
    obtain ⟨⟨extra, r'⟩, -, h⟩ := bind_ok h
    by_cases hextra : extra = 0
    · replace h := (if_pos hextra).symm.trans h
      obtain ⟨⟨refVal, r''⟩, -, h⟩ := bind_ok h
      obtain ⟨⟨fsVal, r'''⟩, -, h⟩ := bind_ok h
      exact fillZeros_extends (s := { s with r := r''' }) h
    · replace h := (if_neg hextra).symm.trans h
      exact decodeSingleBlock_extends (s := { s with r := r' }) hroom h
  · replace h := (if_neg hid).symm.trans h
    by_cases hall : idVal = (1 <<< c.idLen) - 1
    · replace h := (if_pos hall).symm.trans h
      exact decodeSingleBlock_extends (s := { s with r := r }) hroom h
    · replace h := (if_neg hall).symm.trans h
      exact decodeSingleBlock_extends (s := { s with r := r }) hroom h

theorem decodeLoop_extends {c : Config} {fuel : Nat} {s s' : Decoder}
    (h : decodeLoop c fuel s = .ok s') : Extends s s' := by
  induction fuel generalizing s with
  | zero => cases h
  | succ fuel ih =>
    rw [decodeLoop] at h
    by_cases hmore : s.outPos + c.blockSize ≤ s.output.length
    · rw [if_pos hmore] at h
      obtain ⟨s₁, hs₁, h⟩ := bind_ok h
      exact (decodeStep_extends (by omega) hs₁).trans (ih h)
    · rw [if_neg hmore] at h
      cases h
      exact ⟨Nat.le_refl _, rfl⟩

end Rice
end Compression
end Leodos

/-
Reading the parts of a code.

Where the bits of a part stand in the input, the readers of the decoder return what was written
and go on behind the part.
-/

namespace Leodos
namespace Compression
namespace Rice

open BitStream BitReader Emission

/-! ## Pairs -/

theorem triangle_succ (b : Nat) : (b + 1) * (b + 1 + 1) / 2 = b * (b + 1) / 2 + b + 1 := by
  have hprod : (b + 1) * (b + 1 + 1) = b * (b + 1) + 2 * (b + 1) := by
    rw [Nat.mul_add (b + 1) (b + 1) 1, Nat.add_mul b 1 (b + 1)]
    omega
  rw [hprod, Nat.add_mul_div_left _ _ (by decide), Nat.add_assoc]

theorem le_triangle (b : Nat) : b ≤ b * (b + 1) / 2 := by
  induction b with
  | zero => exact Nat.le_refl 0
  | succ b ih =>
    rw [triangle_succ]
    omega

theorem triangle_mono {a b : Nat} (h : a ≤ b) : a * (a + 1) / 2 ≤ b * (b + 1) / 2 :=
  Nat.div_le_div_right (Nat.mul_le_mul h (Nat.succ_le_succ h))

theorem pairLoop_eq {fuel d1 d2 beta : Nat} (hbeta : beta ≤ d1 + d2)
    (hfuel : d1 + d2 < fuel + beta) : pairLoop fuel (gamma d1 d2) beta (beta * (beta + 1) / 2) =
      .ok (d1 + d2, (d1 + d2) * (d1 + d2 + 1) / 2) := by
  induction fuel generalizing beta with
  | zero => omega
  | succ fuel ih =>
    rw [pairLoop, gamma]
    by_cases hlast : beta = d1 + d2
    · rw [hlast, if_pos (by omega)]
    · have hmono := triangle_mono (show beta + 1 ≤ d1 + d2 by omega)
      rw [triangle_succ] at hmono
      rw [if_neg (by omega), ← triangle_succ]
      exact ih (by omega) (by omega)

theorem decodeSecondExtPair_gamma (d1 d2 : Nat) :
    decodeSecondExtPair (gamma d1 d2) = .ok (d1, d2) := by
  have hroot := le_triangle (d1 + d2)
  have hloop : pairLoop (gamma d1 d2 + 1) (gamma d1 d2) 0 0 =
      .ok (d1 + d2, (d1 + d2) * (d1 + d2 + 1) / 2) :=
    pairLoop_eq (Nat.zero_le _) (show d1 + d2 < gamma d1 d2 + 1 + 0 by rw [gamma]; omega)
  rw [decodeSecondExtPair, hloop]
  show Except.ok (d1 + d2 - (gamma d1 d2 - (d1 + d2) * (d1 + d2 + 1) / 2),
    gamma d1 d2 - (d1 + d2) * (d1 + d2 + 1) / 2) = _
  have hd2 : gamma d1 d2 - (d1 + d2) * (d1 + d2 + 1) / 2 = d2 := by
    rw [gamma]
    omega
  rw [hd2, Nat.add_sub_cancel]

/-! ## Lists of numbers -/

section
variable {input : Bytes} {off : Nat}

theorem readCodes_eq {ms : List Nat} (h : Stands input off (ms.flatMap unary)) :
    readCodes ms.length (behind input off) =
      .ok (ms, behind input (off + (ms.flatMap unary).length)) := by
  induction ms generalizing off with
  | nil => rfl
  | cons m ms ih =>
    rw [List.flatMap_cons, stands_append, length_unary] at h
    rw [List.length_cons, readCodes, readFs_eq h.1]
    show (readCodes ms.length (behind input (off + (m + 1))) >>= _) = _
    rw [ih h.2, List.flatMap_cons, List.length_append, length_unary, Nat.add_assoc off (m + 1)]
    rfl

theorem readWords_eq {k : Nat} (hk : k ≤ 64) {vs : List Nat}
    (h : Stands input off (vs.flatMap (bitsOf k))) : readWords k vs.length (behind input off) =
      .ok (vs.map (· % 2 ^ k), behind input (off + (vs.flatMap (bitsOf k)).length)) := by
  induction vs generalizing off with
  | nil => rfl
  | cons v vs ih =>
    rw [List.flatMap_cons, stands_append, length_bitsOf] at h
    rw [List.length_cons, readWords, read_eq h.1 (length_bitsOf k v) hk, value_bitsOf]
    show (readWords k vs.length (behind input (off + k)) >>= _) = _
    rw [ih h.2, List.flatMap_cons, List.length_append, length_bitsOf, ← Nat.add_assoc]
    rfl

theorem readPairs_eq {data : List Nat} (heven : data.length % 2 = 0)
    (h : Stands input off (pairBits data)) : readPairs (data.length / 2) (behind input off) =
      .ok (data, behind input (off + (pairBits data).length)) := by
  induction data using pairTotal.induct generalizing off with
  | case1 d1 d2 rest ih =>
    have hhalf : (d1 :: d2 :: rest).length / 2 = rest.length / 2 + 1 := by
      rw [List.length_cons, List.length_cons]
      omega
    have heven' : rest.length % 2 = 0 := by
      rw [List.length_cons, List.length_cons] at heven
      omega
    rw [pairBits, stands_append, length_unary] at h
    rw [hhalf, readPairs, readFs_eq h.1]
    show (decodeSecondExtPair (gamma d1 d2) >>= _) = _
    rw [decodeSecondExtPair_gamma]
    show (readPairs (rest.length / 2) (behind input (off + (gamma d1 d2 + 1))) >>= _) = _
    rw [ih heven' h.2, pairBits, List.length_append, length_unary,
      Nat.add_assoc off (gamma d1 d2 + 1)]
    rfl
  | case2 data hshort =>
    rcases data with _ | ⟨d1, _ | ⟨d2, rest⟩⟩
    · rfl
    · rw [List.length_singleton] at heven
      exact absurd heven (by decide)
    · exact absurd rfl (hshort d1 d2 rest)

/-! ## Blocks -/

theorem split_join {d k : Nat} (hd : d < 18446744073709551616) :
    (((d >>> k) <<< k) % 18446744073709551616) ||| d % 2 ^ k = d := by
  have hlow : d % 2 ^ k < 2 ^ k := Nat.mod_lt _ (Nat.two_pow_pos k)
  have hhigh : (d >>> k) <<< k ≤ d := by
    rw [Nat.shiftRight_eq_div_pow, Nat.shiftLeft_eq]
    exact Nat.div_mul_le_self _ _
  rw [Nat.mod_eq_of_lt (by omega), ← Nat.shiftLeft_add_eq_or_of_lt hlow,
    Nat.shiftRight_eq_div_pow, Nat.shiftLeft_eq, Nat.mul_comm]
  exact Nat.div_add_mod d (2 ^ k)

theorem zipWith_split {data : List Nat} {k : Nat} (h : ∀ d ∈ data, d < 18446744073709551616) :
    List.zipWith (· ||| ·)
      ((data.map (· >>> k)).map fun m => (m <<< k) % 18446744073709551616)
      (data.map (· % 2 ^ k)) = data := by
  induction data with
  | nil => rfl
  | cons d data ih =>
    have hrest := ih (fun x hx => h x (List.mem_cons_of_mem _ hx))
    have hhead := split_join (k := k) (h d List.mem_cons_self)
    show ((((d >>> k) <<< k) % 18446744073709551616) ||| d % 2 ^ k) :: _ = d :: data
    rw [hhead]
    exact congrArg (d :: ·) hrest

theorem map_split_zero {data : List Nat} (h : ∀ d ∈ data, d < 18446744073709551616) :
    ((data.map (· >>> 0)).map fun m => (m <<< 0) % 18446744073709551616) = data := by
  rw [List.map_map]
  refine (List.map_congr_left fun d hd => ?_).trans (List.map_id data)
  exact Nat.mod_eq_of_lt (h d hd)

theorem readRef_eq {c : Config} (hv : c.Valid) {isRef : Bool} {v : Nat} (hle : v ≤ c.xMax)
    (h : Stands input off (refBits c.bitsPerSample (if isRef then some v else none))) :
    readRef c isRef (behind input off) = .ok (if isRef then v else 0, behind input
      (off + (refBits c.bitsPerSample (if isRef then some v else none)).length)) := by
  cases isRef with
  | false => rfl
  | true =>
    have hbits := hv.bits
    have hmax := c.xMax_add_one
    have hword := hv.xMax_lt
    replace h : Stands input off (bitsOf c.bitsPerSample v) := h
    have hread := read_eq h (length_bitsOf c.bitsPerSample v) (by omega)
    rw [value_bitsOf_of_lt (show v < 2 ^ c.bitsPerSample by omega)] at hread
    show ((behind input off).read c.bitsPerSample >>= fun p => .ok (p.1 % 4294967296, p.2)) = _
    rw [hread]
    show Except.ok (v % 4294967296, _) = Except.ok (v, behind input
      (off + (bitsOf c.bitsPerSample v).length))
    rw [length_bitsOf, Nat.mod_eq_of_lt (by omega)]

theorem readMapped_eq {c : Config} (hv : c.Valid) {isRef : Bool} {data : List Nat}
    (hlen : data.length = if isRef = true then c.blockSize - 1 else c.blockSize)
    (hdata : ∀ d ∈ data, d ≤ c.xMax) {bound maxK : Nat} (hmaxK : maxK ≤ 64)
    {option : CodingOption} (haff : Affordable data bound maxK option)
    (h : Stands input off (dataBits c.bitsPerSample data option)) :
    readMapped c isRef (behind input off) option =
      .ok (data, behind input (off + (dataBits c.bitsPerSample data option).length)) := by
  have hbits := hv.bits
  have hmax := c.xMax_add_one
  have hword := hv.xMax_lt
  have hsmall : ∀ d ∈ data, d < 18446744073709551616 := by
    intro d hd
    have hle := hdata d hd
    omega
  cases option with
  | zeroBlock => exact haff.elim
  | noCompression =>
    have hread := readWords_eq (show c.bitsPerSample ≤ 64 by omega) h
    have hsame : data.map (· % 2 ^ c.bitsPerSample) = data := by
      refine (List.map_congr_left fun d hd => ?_).trans (List.map_id data)
      have hle := hdata d hd
      exact Nat.mod_eq_of_lt (by omega)
    rw [hsame, hlen] at hread
    exact hread
  | secondExtension =>
    have hblock := hv.block_bounds
    have heven := hv.block_even
    have hnoref : isRef = false := by
      cases isRef with
      | false => rfl
      | true =>
        have hodd := haff.1
        rw [hlen, if_pos rfl] at hodd
        omega
    subst hnoref
    replace hlen : data.length = c.blockSize := hlen
    have hread := readPairs_eq haff.1 h
    rw [hlen] at hread
    show (readPairs (c.blockSize / 2) (behind input off) >>= _) = _
    rw [hread]
    show (if 64 < 0 + 2 * (c.blockSize / 2) then _ else Except.ok (data.take c.blockSize, _)) = _
    rw [if_neg (by omega), List.take_of_length_le (Nat.le_of_eq hlen)]
    rfl
  | split k =>
    have hcodes : data.flatMap (fun d => unary (d >>> k)) =
        (data.map (· >>> k)).flatMap unary := by
      rw [List.flatMap_map]
    rw [dataBits, stands_append, hcodes] at h
    have hread := readCodes_eq h.1
    rw [List.length_map, hlen] at hread
    show (readCodes (if isRef = true then c.blockSize - 1 else c.blockSize) (behind input off) >>=
      _) = _
    rw [hread]
    show (if 0 < k then _ else Except.ok (_, _)) = _
    rw [dataBits, List.length_append, hcodes, ← Nat.add_assoc]
    by_cases hk : 0 < k
    · have hkle := haff.1
      have hlow := readWords_eq (show k ≤ 64 by omega) h.2
      rw [hlen] at hlow
      rw [if_pos hk, hlow]
      show Except.ok (List.zipWith _ _ _, _) = _
      rw [zipWith_split hsmall]
    · obtain rfl : k = 0 := by omega
      have hnone : data.flatMap (bitsOf 0) = [] := List.flatMap_eq_nil_iff.2 (fun _ _ => rfl)
      rw [if_neg hk, map_split_zero hsmall, hnone]
      rfl

end

end Rice
end Compression
end Leodos
