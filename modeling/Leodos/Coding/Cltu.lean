/-
Telecommand frames as CLTUs, `coding/framing/cltu.rs`.

The parity of a block comes out of a table, octet by octet, in a register whose lowest bit
stays clear.  So the register of eight bits computes modulo `X` times the generator, and what
it holds is `X` times the remainder of the code (`getLsbD_computeBchParity`).
-/
import Leodos.Gf2.Register
import Leodos.Memory.Cells
import Leodos.Spp.Sequence

namespace Leodos
namespace Coding

open BitStream Gf2 Memory Polynomial Spp

def START_SEQUENCE : Bytes := [0xeb, 0x90]

def TAIL_SEQUENCE : Bytes := List.replicate 8 0xc5

inductive CltuError where
  | outputBufferTooSmall (required provided : Nat)
  deriving DecidableEq, Repr

def encodedCltuLen (tcFrameLen : Nat) : Nat :=
  START_SEQUENCE.length + (tcFrameLen + 6) / 7 * 8 + TAIL_SEQUENCE.length

namespace Bch

def POLY_ALIGNED : UInt8 := 0x8a

def tableStep (val : UInt8) : UInt8 :=
  if val &&& 0x80 ≠ 0 then val <<< 1 ^^^ POLY_ALIGNED else val <<< 1

def LOOKUP_TABLE : List UInt8 := (List.range 256).map fun i => tableStep^[8] (UInt8.ofNat i)

def computeBchParity (bytes : Bytes) : UInt8 :=
  let remainder := bytes.foldl (fun acc val => LOOKUP_TABLE.getD (acc ^^^ val).toNat 0) 0
  ~~~remainder &&& 0xfe

end Bch

/-- `slice::chunks`, for a size that is not zero. -/
def chunks (size : Nat) : Bytes → List Bytes
  | [] => []
  | b :: frame => (b :: frame.take (size - 1)) :: chunks size (frame.drop (size - 1))
termination_by frame => frame.length
decreasing_by
  rw [List.length_drop, List.length_cons]
  omega

def writeBlock (output : Bytes × Nat) (chunk : Bytes) : Bytes × Nat :=
  let block := write (List.replicate 7 0x55) 0 chunk
  (write (write output.1 output.2 block) (output.2 + 7) [Bch.computeBchParity block], output.2 + 8)

def encodeCltu (tcFrameBytes outputBuffer : Bytes) : Except CltuError Nat × Bytes :=
  let requiredLen := encodedCltuLen tcFrameBytes.length
  if outputBuffer.length < requiredLen then
    (.error (.outputBufferTooSmall requiredLen outputBuffer.length), outputBuffer)
  else
    let output := (chunks 7 tcFrameBytes).foldl writeBlock
      (write outputBuffer 0 START_SEQUENCE, START_SEQUENCE.length)
    (.ok (output.2 + TAIL_SEQUENCE.length), write output.1 output.2 TAIL_SEQUENCE)

/-! ## The layout of a CLTU -/

/-- A chunk filled up to a block. -/
def padded (chunk : Bytes) : Bytes := chunk ++ List.replicate (7 - chunk.length) 0x55

def codeword (block : Bytes) : Bytes := block ++ [Bch.computeBchParity block]

def blocksOf (frame : Bytes) : List Bytes := (chunks 7 frame).map padded

def cltu (frame : Bytes) : Bytes :=
  START_SEQUENCE ++ (blocksOf frame).flatMap codeword ++ TAIL_SEQUENCE

theorem blocksOf_nil : blocksOf [] = [] := by
  rw [blocksOf, chunks, List.map_nil]

theorem blocksOf_of_ne_nil {frame : Bytes} (h : frame ≠ []) :
    blocksOf frame = padded (frame.take 7) :: blocksOf (frame.drop 7) := by
  cases frame with
  | nil => exact absurd rfl h
  | cons b frame =>
    rw [blocksOf, chunks, List.map_cons]
    rfl

theorem length_padded {chunk : Bytes} (h : chunk.length ≤ 7) : (padded chunk).length = 7 := by
  rw [padded, List.length_append, List.length_replicate]
  omega

theorem length_of_mem_chunks {frame chunk : Bytes} (h : chunk ∈ chunks 7 frame) :
    chunk.length ≤ 7 := by
  induction frame using chunks.induct 7 with
  | case1 =>
    rw [chunks] at h
    exact absurd h List.not_mem_nil
  | case2 b frame ih =>
    rw [chunks, List.mem_cons] at h
    rcases h with rfl | h
    · rw [List.length_cons, List.length_take]
      omega
    · exact ih h

theorem length_blocksOf (frame : Bytes) : (blocksOf frame).length = (frame.length + 6) / 7 := by
  induction frame using chunks.induct 7 with
  | case1 => rw [blocksOf_nil]; rfl
  | case2 b frame ih =>
    rw [blocksOf_of_ne_nil (List.cons_ne_nil b frame), List.length_cons]
    rw [show (b :: frame).drop 7 = frame.drop (7 - 1) from rfl, ih, List.length_drop,
      List.length_cons]
    omega

theorem length_of_mem_blocksOf {frame block : Bytes} (h : block ∈ blocksOf frame) :
    block.length = 7 := by
  obtain ⟨chunk, hchunk, rfl⟩ := List.mem_map.1 h
  exact length_padded (length_of_mem_chunks hchunk)

theorem length_flatMap_codeword {blocks : List Bytes} (h : ∀ block ∈ blocks, block.length = 7) :
    (blocks.flatMap codeword).length = blocks.length * 8 := by
  induction blocks with
  | nil => rfl
  | cons block blocks ih =>
    rw [List.flatMap_cons, List.length_append, ih fun b hb => h b (List.mem_cons_of_mem _ hb),
      codeword, List.length_append, h block List.mem_cons_self, List.length_singleton,
      List.length_cons]
    omega

theorem length_cltu (frame : Bytes) : (cltu frame).length = encodedCltuLen frame.length := by
  rw [cltu, List.length_append, List.length_append,
    length_flatMap_codeword fun _ => length_of_mem_blocksOf, length_blocksOf]
  rfl

theorem write_behind {used rest src : Bytes} (h : src.length ≤ rest.length) :
    write (used ++ rest) used.length src = (used ++ src) ++ rest.drop src.length := by
  rw [write, List.take_left' rfl, List.length_append, Nat.add_sub_cancel_left,
    List.take_of_length_le h, List.drop_append, List.drop_of_length_le (by omega)]
  simp

theorem foldl_writeBlock {cs : List Bytes} (hcs : ∀ chunk ∈ cs, chunk.length ≤ 7)
    (used : Bytes) {rest : Bytes} (hroom : cs.length * 8 ≤ rest.length) :
    cs.foldl writeBlock (used ++ rest, used.length) =
      ((used ++ (cs.map padded).flatMap codeword) ++ rest.drop (cs.length * 8),
        used.length + cs.length * 8) := by
  induction cs generalizing used rest with
  | nil => simp
  | cons chunk cs ih =>
    have hlen : chunk.length ≤ 7 := hcs chunk List.mem_cons_self
    have hpad := length_padded hlen
    rw [List.length_cons] at hroom
    have hblock : write (List.replicate 7 0x55) 0 chunk = padded chunk := by
      rw [write_zero (by simpa using hlen), List.drop_replicate]
      rfl
    have hstep : writeBlock (used ++ rest, used.length) chunk =
        ((used ++ codeword (padded chunk)) ++ rest.drop 8, used.length + 8) := by
      rw [writeBlock, hblock]
      dsimp only
      rw [write_behind (by omega), hpad, ← hpad, ← List.length_append, write_behind]
      · rw [codeword, List.append_assoc used, List.drop_drop, hpad]
        rfl
      · rw [List.length_singleton, List.length_drop]
        omega
    have hword : (used ++ codeword (padded chunk)).length = used.length + 8 := by
      rw [List.length_append, codeword, List.length_append, hpad, List.length_singleton]
    have hrest : cs.length * 8 ≤ (rest.drop 8).length := by
      rw [List.length_drop]
      omega
    rw [List.foldl_cons, hstep, ← hword, ih (fun c hc => hcs c (List.mem_cons_of_mem _ hc)) _ hrest,
      hword, List.drop_drop, List.map_cons, List.flatMap_cons, List.length_cons,
      ← List.append_assoc, Nat.succ_mul, Nat.add_comm 8, Nat.add_assoc, Nat.add_comm 8]

theorem encodeCltu_eq (frame output : Bytes) : encodeCltu frame output =
    if output.length < encodedCltuLen frame.length then
      (.error (.outputBufferTooSmall (encodedCltuLen frame.length) output.length), output)
    else
      (.ok (encodedCltuLen frame.length),
        cltu frame ++ output.drop (encodedCltuLen frame.length)) := by
  rw [encodeCltu]
  by_cases hroom : output.length < encodedCltuLen frame.length
  · rw [if_pos hroom, if_pos hroom]
  have hblocks : (chunks 7 frame).length = (frame.length + 6) / 7 := by
    rw [← length_blocksOf, blocksOf, List.length_map]
  have hsize : encodedCltuLen frame.length = 2 + (chunks 7 frame).length * 8 + 8 := by
    rw [hblocks]
    rfl
  rw [hsize] at hroom
  rw [if_neg (by rw [hsize]; exact hroom), if_neg (by rw [hsize]; exact hroom), hsize]
  have hstart : write output 0 START_SEQUENCE = START_SEQUENCE ++ output.drop 2 :=
    write_zero (by show 2 ≤ output.length; omega)
  have hdrop : (chunks 7 frame).length * 8 ≤ (output.drop 2).length := by
    rw [List.length_drop]
    omega
  have hlen : (START_SEQUENCE ++ (blocksOf frame).flatMap codeword).length =
      2 + (chunks 7 frame).length * 8 := by
    rw [List.length_append, length_flatMap_codeword fun _ => length_of_mem_blocksOf, blocksOf,
      List.length_map]
    rfl
  have hwrite : (chunks 7 frame).foldl writeBlock
      (START_SEQUENCE ++ output.drop 2, START_SEQUENCE.length) =
        ((START_SEQUENCE ++ (blocksOf frame).flatMap codeword) ++
          (output.drop 2).drop ((chunks 7 frame).length * 8), 2 + (chunks 7 frame).length * 8) :=
    foldl_writeBlock (fun _ => length_of_mem_chunks) START_SEQUENCE hdrop
  dsimp only
  rw [hstart, hwrite, ← hlen, write_behind, hlen, List.drop_drop, List.drop_drop]
  · rfl
  · rw [List.length_drop, List.length_drop]
    show 8 ≤ _
    omega

/-! ## Reading a CLTU back -/

def blockOctets (coded : Bytes) : Bytes := (chunks 8 coded).flatMap fun word => word.take 7

def frameOf (frameLen : Nat) (cltu : Bytes) : Bytes :=
  (blockOctets (slice cltu START_SEQUENCE.length ((frameLen + 6) / 7 * 8))).take frameLen

theorem chunks_append {size : Nat} (hsize : 0 < size) {word : Bytes} (h : word.length = size)
    (rest : Bytes) : chunks size (word ++ rest) = word :: chunks size rest := by
  cases word with
  | nil => exact absurd h (Nat.ne_of_lt hsize)
  | cons b word =>
    have hword : word.length = size - 1 := by
      rw [← h, List.length_cons, Nat.add_sub_cancel]
    rw [List.cons_append, chunks, List.take_left' hword, List.drop_left' hword]

theorem blockOctets_flatMap {blocks : List Bytes} (h : ∀ block ∈ blocks, block.length = 7) :
    blockOctets (blocks.flatMap codeword) = blocks.flatten := by
  induction blocks with
  | nil =>
    rw [List.flatMap_nil, blockOctets, chunks]
    rfl
  | cons block blocks ih =>
    have hblock := h block List.mem_cons_self
    have hword : (codeword block).length = 8 := by
      rw [codeword, List.length_append, hblock, List.length_singleton]
    have hrest := ih fun b hb => h b (List.mem_cons_of_mem _ hb)
    rw [blockOctets] at hrest
    rw [List.flatMap_cons, blockOctets, chunks_append (by decide) hword, List.flatMap_cons, hrest,
      List.flatten_cons, codeword, List.take_left' hblock]

theorem take_flatten_blocksOf (frame : Bytes) :
    (blocksOf frame).flatten.take frame.length = frame := by
  induction frame using chunks.induct 7 with
  | case1 => rw [List.length_nil, List.take_zero]
  | case2 b frame ih =>
    have hrest : (blocksOf ((b :: frame).drop 7)).flatten.take ((b :: frame).drop 7).length =
        (b :: frame).drop 7 := ih
    rw [blocksOf_of_ne_nil (List.cons_ne_nil b frame), List.flatten_cons]
    by_cases hlen : 7 ≤ (b :: frame).length
    · have hfull : ((b :: frame).take 7).length = 7 := List.length_take_of_le hlen
      have hpad : padded ((b :: frame).take 7) = (b :: frame).take 7 := by
        rw [padded, hfull]
        exact List.append_nil _
      rw [hpad, List.take_append, List.take_of_length_le (by omega), hfull]
      rw [List.length_drop] at hrest
      rw [hrest, List.take_append_drop]
    · have hend : (b :: frame).drop 7 = [] := List.drop_of_length_le (by omega)
      rw [hend, blocksOf_nil, List.flatten_nil, List.append_nil, padded,
        List.take_of_length_le (i := 7) (by omega), List.take_left' rfl]

theorem frameOf_cltu (frame : Bytes) : frameOf frame.length (cltu frame) = frame := by
  have hlen : ((blocksOf frame).flatMap codeword).length = (frame.length + 6) / 7 * 8 := by
    rw [length_flatMap_codeword fun _ => length_of_mem_blocksOf, length_blocksOf]
  have hslice : slice (cltu frame) START_SEQUENCE.length ((frame.length + 6) / 7 * 8) =
      (blocksOf frame).flatMap codeword := by
    rw [slice, cltu, List.append_assoc, List.drop_left' rfl, List.take_left' hlen]
  rw [frameOf, hslice, blockOctets_flatMap fun _ => length_of_mem_blocksOf, take_flatten_blocksOf]

/-! ## The parity -/

noncomputable def generator : (ZMod 2)[X] := X ^ 7 + X ^ 6 + X ^ 2 + 1

theorem toPoly_generator : modulus 0x45#7 = generator := by
  have htaps : toPoly 0x45#7 = X ^ 6 + X ^ 2 + 1 := by
    have hbits : bitsOf 7 0x45 = [true, false, false, false, true, false, true] := by decide
    rw [show (0x45#7 : BitVec 7) = BitVec.ofNat 7 0x45 from rfl, ← ofBits_bitsOf, hbits]
    simp [ofBits, bit]
    ring
  rw [modulus, htaps, generator]
  ring

theorem modulus_aligned : modulus Bch.POLY_ALIGNED.toBitVec = X * generator := by
  have htaps : toPoly Bch.POLY_ALIGNED.toBitVec = X ^ 7 + X ^ 3 + X := by
    have hbits : bitsOf 8 0x8a = [true, false, false, false, true, false, true, false] := by decide
    rw [show Bch.POLY_ALIGNED.toBitVec = BitVec.ofNat 8 0x8a from rfl, ← ofBits_bitsOf, hbits]
    simp [ofBits, bit]
    ring
  rw [modulus, htaps, generator]
  ring

namespace Bch

theorem toBitVec_tableStep (val : UInt8) :
    (tableStep val).toBitVec = shift POLY_ALIGNED.toBitVec val.toBitVec := by
  have hmsb : val &&& 0x80 ≠ 0 ↔ val.toBitVec.msb = true := by
    rw [ne_eq, ← UInt8.toBitVec_inj, UInt8.toBitVec_and]
    generalize val.toBitVec = v
    revert v
    decide
  rw [tableStep, shift]
  by_cases h : val.toBitVec.msb = true
  · rw [if_pos h, if_pos (hmsb.2 h)]
    rfl
  · rw [if_neg h, if_neg (fun hne => h (hmsb.1 hne))]
    rfl

theorem lookup_eq (val : UInt8) :
    (LOOKUP_TABLE.getD val.toNat 0).toBitVec = (shift POLY_ALIGNED.toBitVec)^[8] val.toBitVec := by
  have hentry : LOOKUP_TABLE.getD val.toNat 0 = tableStep^[8] val := by
    rw [LOOKUP_TABLE, List.getD_eq_getElem?_getD, List.getElem?_map,
      List.getElem?_range val.toNat_lt, Option.map_some, Option.getD_some, UInt8.ofNat_toNat]
  rw [hentry]
  have hsteps : ∀ n, (tableStep^[n] val).toBitVec =
      (shift POLY_ALIGNED.toBitVec)^[n] val.toBitVec := by
    intro n
    induction n with
    | zero => rfl
    | succ n ih =>
      rw [Function.iterate_succ_apply', Function.iterate_succ_apply', toBitVec_tableStep, ih]
  exact hsteps 8

theorem dvd_fold (bytes : Bytes) :
    X * generator ∣ X ^ 8 * ofBits (octetBits bytes) + toPoly (bytes.foldl
      (fun acc val => LOOKUP_TABLE.getD (acc ^^^ val).toNat 0) 0).toBitVec := by
  rw [← modulus_aligned]
  induction bytes using List.reverseRecOn with
  | nil =>
    have hnone : octetBits [] = [] := rfl
    have hzero : (0 : UInt8).toBitVec = 0#8 := rfl
    rw [hnone, ofBits_nil, List.foldl_nil, hzero, toPoly_zero, mul_zero, add_zero]
    exact dvd_zero _
  | append_singleton bytes b ih =>
    have hbits : ofBits (octetBits (bytes ++ [b])) =
        X ^ 8 * ofBits (octetBits bytes) + toPoly b.toBitVec := by
      have hone : octetBits [b] = bitsOf 8 b.toNat := List.append_nil _
      have hword : BitVec.ofNat 8 b.toNat = b.toBitVec := by
        rw [← UInt8.toNat_toBitVec, BitVec.ofNat_toNat, BitVec.setWidth_eq]
      rw [octetBits_append, ofBits_append, length_octetBits, hone, ofBits_bitsOf, hword]
      rfl
    rw [List.foldl_append, List.foldl_cons, List.foldl_nil, lookup_eq]
    apply dvd_shift_iterate
    rw [hbits, UInt8.toBitVec_xor, toPoly_xor, add_add_add_comm, CharTwo.add_self_eq_zero, add_zero]
    exact ih

def registerOf (byte : UInt8) : BitVec 7 := byte.toBitVec.extractLsb' 1 7

theorem getLsbD_registerOf (byte : UInt8) {i : Nat} (hi : i < 7) :
    (registerOf byte).getLsbD i = byte.toBitVec.getLsbD (i + 1) := by
  rw [registerOf, BitVec.getLsbD_extractLsb', decide_eq_true hi, Bool.true_and, Nat.add_comm]

theorem fold_spec (bytes : Bytes) :
    let acc := bytes.foldl (fun acc val => LOOKUP_TABLE.getD (acc ^^^ val).toNat 0) 0
    acc.toBitVec.getLsbD 0 = false ∧
      toPoly (registerOf acc) = (X ^ 7 * ofBits (octetBits bytes)) %ₘ generator := by
  intro acc
  have hdvd : X * generator ∣ X ^ 8 * ofBits (octetBits bytes) + toPoly acc.toBitVec :=
    dvd_fold bytes
  have hlow : acc.toBitVec.getLsbD 0 = false := by
    have hcoeff := X_dvd_iff.1 ((dvd_mul_right X generator).trans hdvd)
    rw [coeff_add, mul_coeff_zero, coeff_X_pow, if_neg (by decide), zero_mul, zero_add,
      coeff_toPoly] at hcoeff
    exact bit_inj.1 hcoeff
  have hpoly : toPoly acc.toBitVec = X * toPoly (registerOf acc) := by
    ext i
    cases i with
    | zero =>
      rw [coeff_toPoly, hlow, coeff_X_mul_zero]
      rfl
    | succ i =>
      rw [coeff_X_mul, coeff_toPoly, coeff_toPoly]
      by_cases hi : i < 7
      · rw [getLsbD_registerOf acc hi]
      · rw [BitVec.getLsbD_of_ge _ _ (by omega), BitVec.getLsbD_of_ge _ _ (by omega)]
  refine ⟨hlow, ?_⟩
  rw [← toPoly_generator]
  refine (modByMonic_eq_toPoly ?_).symm
  rw [toPoly_generator]
  rw [hpoly, pow_succ', mul_assoc, ← mul_add] at hdvd
  exact (mul_dvd_mul_iff_left X_ne_zero).1 hdvd

theorem getLsbD_computeBchParity (bytes : Bytes) :
    (computeBchParity bytes).toBitVec.getLsbD 0 = false ∧
      ∀ i, i < 7 → bit ((computeBchParity bytes).toBitVec.getLsbD (i + 1)) =
        ((X ^ 7 * ofBits (octetBits bytes)) %ₘ generator).coeff i + 1 := by
  obtain ⟨-, hpoly⟩ := fold_spec bytes
  have hmask : ∀ i, i < 8 → (0xfe : UInt8).toBitVec.getLsbD i = decide (0 < i) := by decide
  have hbit : ∀ i, i < 8 → (computeBchParity bytes).toBitVec.getLsbD i =
      (!(bytes.foldl (fun acc val => LOOKUP_TABLE.getD (acc ^^^ val).toNat 0) 0).toBitVec.getLsbD i
        && decide (0 < i)) := by
    intro i hi
    rw [computeBchParity, UInt8.toBitVec_and, BitVec.getLsbD_and, UInt8.toBitVec_not,
      BitVec.getLsbD_not, decide_eq_true hi, Bool.true_and, hmask i hi]
  refine ⟨by rw [hbit 0 (by decide), decide_eq_false (Nat.lt_irrefl 0), Bool.and_false], ?_⟩
  intro i hi
  rw [hbit (i + 1) (by omega), decide_eq_true (Nat.succ_pos i), Bool.and_true, ← hpoly,
    coeff_toPoly, getLsbD_registerOf _ hi, bit_not]

end Bch

/-! ## The distance of codewords -/

def distance (word word' : Bytes) : Nat :=
  (List.zipWith (· ^^ ·) (octetBits word) (octetBits word')).count true

theorem distance_self (word : Bytes) : distance word word = 0 := by
  rw [distance, List.zipWith_self, List.count_eq_zero]
  simp

def codeBits (block : Bytes) : List Bool :=
  octetBits block ++ bitsOf 7 (Bch.registerOf (Bch.computeBchParity block)).toNat

theorem octetBits_codeword (block : Bytes) :
    octetBits (codeword block) = codeBits block ++ [false] := by
  have hlow := (Bch.getLsbD_computeBchParity block).1
  rw [codeword, codeBits, octetBits_append, List.append_assoc, Bch.registerOf]
  generalize Bch.computeBchParity block = parity at hlow
  have hfiller : parity.toNat.testBit 0 = false := hlow
  have hreg : (parity.toBitVec.extractLsb' 1 7).toNat = parity.toNat >>> 1 := by
    rw [BitVec.extractLsb'_toNat]
    refine Nat.mod_eq_of_lt ?_
    have := parity.toNat_lt
    rw [Nat.shiftRight_eq_div_pow]
    show parity.toNat / 2 ^ 1 < 2 ^ 7
    omega
  rw [hreg]
  show _ ++ (bitsOf (7 + 1) parity.toNat ++ []) = _
  rw [bitsOf_add, List.append_nil]
  show _ ++ (_ ++ [parity.toNat.testBit 0]) = _
  rw [hfiller]

theorem dvd_codeBits (block : Bytes) : generator ∣ ofBits (codeBits block) + toPoly 127#7 := by
  have hparity : toPoly (Bch.registerOf (Bch.computeBchParity block)) =
      (X ^ 7 * ofBits (octetBits block)) %ₘ generator + toPoly 127#7 := by
    have hones : ∀ i, i < 7 → (127#7).getLsbD i = true := by decide
    obtain ⟨-, hbits⟩ := Bch.getLsbD_computeBchParity block
    obtain ⟨-, hrem⟩ := Bch.fold_spec block
    rw [← hrem] at hbits ⊢
    ext i
    rw [coeff_add, coeff_toPoly, coeff_toPoly (127#7)]
    by_cases hi : i < 7
    · rw [Bch.getLsbD_registerOf _ hi, hbits i hi, hones i hi]
      rfl
    · rw [coeff_toPoly, BitVec.getLsbD_of_ge _ _ (by omega), BitVec.getLsbD_of_ge _ _ (by omega),
        BitVec.getLsbD_of_ge _ _ (by omega)]
      rfl
  have hrem := dvd_modByMonic_sub (X ^ 7 * ofBits (octetBits block)) generator
  rw [CharTwo.sub_eq_add] at hrem
  rw [codeBits, ofBits_append, length_bitsOf, ofBits_bitsOf, BitVec.ofNat_toNat, BitVec.setWidth_eq,
    hparity, ← add_assoc, add_assoc, CharTwo.add_self_eq_zero, add_zero, add_comm]
  exact hrem

theorem length_codeBits {block : Bytes} (h : block.length = 7) : (codeBits block).length = 63 := by
  rw [codeBits, List.length_append, length_octetBits, length_bitsOf, h]

theorem shift_iterate_ne_one : ∀ k, 0 < k → k < 63 → (shift 0x45#7)^[k] 1#7 ≠ 1#7 := by
  have hall : ∀ k : Fin 63, 0 < k.val → (shift 0x45#7)^[k.val] 1#7 ≠ 1#7 := by decide
  exact fun k hpos hk => hall ⟨k, hk⟩ hpos

/-- A block of `compute_bch_parity`. -/
structure Block where
  bytes : Bytes
  length : bytes.length = 7

namespace Block

def codeword (block : Block) : Bytes := Coding.codeword block.bytes

theorem distance_codeword (block block' : Block) :
    distance block.codeword block'.codeword =
      (List.zipWith (· ^^ ·) (codeBits block.bytes) (codeBits block'.bytes)).count true := by
  rw [distance, codeword, codeword, octetBits_codeword, octetBits_codeword, List.zipWith_append,
    List.count_append]
  · rfl
  · rw [length_codeBits block.length, length_codeBits block'.length]

theorem four_le_distance {block block' : Block} (hne : block.codeword ≠ block'.codeword) :
    4 ≤ distance block.codeword block'.codeword := by
  rw [distance_codeword]
  have hlen : (codeBits block.bytes).length = (codeBits block'.bytes).length := by
    rw [length_codeBits block.length, length_codeBits block'.length]
  have hpos : (List.zipWith (· ^^ ·) (codeBits block.bytes) (codeBits block'.bytes)).count true ≠
      0 := by
    intro hzero
    have hbits := eq_of_count_zipWith_xor hlen hzero
    have hblock := (List.append_inj hbits (by
      rw [length_octetBits, length_octetBits, block.length, block'.length])).1
    rw [codeword, codeword, octetBits_inj.1 hblock] at hne
    exact hne rfl
  have hdvd : generator ∣
      ofBits (List.zipWith (· ^^ ·) (codeBits block.bytes) (codeBits block'.bytes)) := by
    have hsum := dvd_add (dvd_codeBits block.bytes) (dvd_codeBits block'.bytes)
    rw [add_add_add_comm, CharTwo.add_self_eq_zero, add_zero] at hsum
    rw [ofBits_zipWith_xor hlen]
    exact hsum
  have hone : (modulus 0x45#7).eval 1 = 0 := by
    rw [toPoly_generator, generator]
    simp only [eval_add, eval_pow, eval_X, eval_one, one_pow]
    decide
  have hzero : feedAll 0x45#7
      (List.zipWith (· ^^ ·) (codeBits block.bytes) (codeBits block'.bytes)) = 0#7 := by
    rw [← toPoly_inj, toPoly_feedAll (by decide), toPoly_zero, toPoly_generator]
    exact (modByMonic_eq_zero_iff_dvd (toPoly_generator ▸ monic_modulus 0x45#7)).2 hdvd
  have hle :
      (List.zipWith (· ^^ ·) (codeBits block.bytes) (codeBits block'.bytes)).length ≤ 63 := by
    rw [List.length_zipWith, length_codeBits block.length, length_codeBits block'.length]
    decide
  by_contra hfew
  exact feedAll_ne_zero_of_few (by decide) (by decide) hone shift_iterate_ne_one hle
    (Nat.pos_of_ne_zero hpos) (by omega) hzero

end Block

/-- A frame is encoded or there is no room for it, its CLTU is the start sequence, the codewords
of its blocks and the tail sequence, the parity of a block is the complement of a remainder above
a clear bit, and codewords are four bits apart. -/
theorem cltu_is_bch (frame output : Bytes) :
    (encodeCltu frame output =
      if output.length < encodedCltuLen frame.length then
        (.error (.outputBufferTooSmall (encodedCltuLen frame.length) output.length), output)
      else
        (.ok (encodedCltuLen frame.length),
          (START_SEQUENCE ++ ((chunks 7 frame).map padded).flatMap codeword ++ TAIL_SEQUENCE) ++
            output.drop (encodedCltuLen frame.length))) ∧
      (cltu frame).length = encodedCltuLen frame.length ∧
      frameOf frame.length (cltu frame) = frame ∧
      (∀ block : Block, (Bch.computeBchParity block.bytes).toBitVec.getLsbD 0 = false ∧
        ∀ i, i < 7 → bit ((Bch.computeBchParity block.bytes).toBitVec.getLsbD (i + 1)) =
          ((X ^ 7 * ofBits (octetBits block.bytes)) %ₘ (X ^ 7 + X ^ 6 + X ^ 2 + 1)).coeff i + 1) ∧
      (∀ block block' : Block, block.codeword ≠ block'.codeword →
        4 ≤ distance block.codeword block'.codeword) ∧
      ∀ (block : Block) (word : Bytes), 0 < distance block.codeword word →
        distance block.codeword word < 4 → ∀ block' : Block, word ≠ block'.codeword := by
  refine ⟨encodeCltu_eq frame output, length_cltu frame, frameOf_cltu frame,
    fun block => Bch.getLsbD_computeBchParity block.bytes, fun _ _ => Block.four_le_distance, ?_⟩
  intro block word hpos hfew block' heq
  rw [heq] at hpos hfew
  have hne : block.codeword ≠ block'.codeword := by
    intro hsame
    rw [hsame, distance_self] at hpos
    exact Nat.lt_irrefl 0 hpos
  exact absurd (Block.four_le_distance hne) (Nat.not_le.2 hfew)

/-- A bit error in the block 1 to 7. -/
theorem cltu_is_bch_one_error (block' : Block) :
    [0, 2, 3, 4, 5, 6, 7, 0x70] ≠ block'.codeword :=
  (cltu_is_bch [1, 2, 3, 4, 5, 6, 7] []).2.2.2.2.2 ⟨[1, 2, 3, 4, 5, 6, 7], rfl⟩
    [0, 2, 3, 4, 5, 6, 7, 0x70] (by decide +kernel) (by decide +kernel) block'

end Coding
end Leodos
