/-
The decoder in step with the code.

In front of a part the decoder has the samples of the blocks so far.  A coded block is given
back.  A run of zero blocks comes back as one sample over and over, so it comes back right
unless a reference sample inside the run differs from the sample before it.
-/
import Leodos.Compression.Rice.Reading

namespace Leodos
namespace Compression
namespace Rice

open BitStream BitReader Emission

section
variable {c : Config} {samples : List Nat}

theorem take_succ_block (blk : Nat) : samples.take ((blk + 1) * c.blockSize) =
    samples.take (blk * c.blockSize) ++ blockAt c samples blk := by
  rw [Nat.add_mul, Nat.one_mul, List.take_add]
  rfl

theorem block_end_le {blk : Nat} (h : blk < numBlocks c samples) :
    blk * c.blockSize + c.blockSize ≤ samples.length := by
  have hmul : (blk + 1) * c.blockSize ≤ samples.length / c.blockSize * c.blockSize :=
    Nat.mul_le_mul_right _ h
  have hdiv := Nat.div_mul_le_self samples.length c.blockSize
  rw [Nat.add_mul] at hmul
  omega

structure Synced (c : Config) (samples : List Nat) (input : Bytes) (off blk : Nat) (s : Decoder) :
    Prop where
  r : s.r = behind input off
  outPos : s.outPos = blk * c.blockSize
  blkIdx : s.blkIdx = blk
  prev : s.prevSample = prevAt c samples blk
  seg : s.segRemaining = segAt c blk
  output : s.output.take (blk * c.blockSize) = samples.take (blk * c.blockSize)
  length : s.output.length = samples.length

/-! ## Ids -/

variable {input : Bytes} {off : Nat}

theorem idBits_pair (idLen v : Nat) (hv : v < 2) :
    bitsOf (idLen + 1) v = bitsOf idLen 0 ++ bitsOf 1 v := by
  have hshift : v >>> 1 = 0 := by
    rw [Nat.shiftRight_eq_div_pow]
    omega
  rw [bitsOf_add, hshift]

theorem decodeStep_zero {s : Decoder} (hr : s.r = behind input off)
    (h : Stands input off (idBits c.idLen .zeroBlock)) :
    decodeStep c s = (readRef c (c.isRef s.blkIdx) (behind input (off + (c.idLen + 1))) >>= fun p =>
      p.2.readFs >>= fun q => fillZeros c (c.isRef s.blkIdx) p.1
        (decodeZeroCount q.1 s.segRemaining) true { s with r := q.2 }) := by
  rw [idBits, idBits_pair _ _ (by decide), stands_append, length_bitsOf] at h
  have hid := read_eq h.1 (length_bitsOf c.idLen 0) (Nat.le_trans c.idLen_le (by decide))
  have hextra := read_eq h.2 (length_bitsOf 1 0) (by decide)
  rw [value_bitsOf, Nat.zero_mod] at hid
  rw [decodeStep, hr, hid]
  show ((behind input (off + c.idLen)).read 1 >>= _) = _
  rw [hextra]
  rfl

theorem decodeStep_coded {s : Decoder} (hr : s.r = behind input off) {option : CodingOption}
    (hne : option ≠ .zeroBlock) (hid : 2 ≤ c.idLen) (hk : ∀ k, option = .split k → k ≤ maxK c)
    (h : Stands input off (idBits c.idLen option)) :
    decodeStep c s = decodeSingleBlock c (c.isRef s.blkIdx) option
      { s with r := behind input (off + (idBits c.idLen option).length) } := by
  have hlen := c.idLen_le
  have hids : 2 ^ 2 ≤ 2 ^ c.idLen := Nat.pow_le_pow_right (by decide) hid
  cases option with
  | zeroBlock => exact absurd rfl hne
  | secondExtension =>
    rw [idBits, idBits_pair _ _ (by decide), stands_append, length_bitsOf] at h
    have hread := read_eq h.1 (length_bitsOf c.idLen 0) (by omega)
    have hextra := read_eq h.2 (length_bitsOf 1 1) (by decide)
    rw [value_bitsOf, Nat.zero_mod] at hread
    rw [decodeStep, hr, hread]
    show ((behind input (off + c.idLen)).read 1 >>= _) = _
    rw [hextra, idBits, length_bitsOf]
    rfl
  | split k =>
    have hkle := hk k rfl
    have hmax : k + 3 ≤ 2 ^ c.idLen := by
      rw [maxK, Nat.one_shiftLeft] at hkle
      omega
    have hread := read_eq h (length_bitsOf c.idLen (k + 1)) (by omega)
    rw [idBits, value_bitsOf_of_lt (show k + 1 < 2 ^ c.idLen by omega)] at hread
    have hall : ¬ k + 1 = (1 <<< c.idLen) - 1 := by
      rw [Nat.one_shiftLeft]
      omega
    rw [decodeStep, hr, hread, idBits, length_bitsOf]
    simp only [ok_bind, if_neg (Nat.succ_ne_zero k), if_neg hall]
    rfl
  | noCompression =>
    have hread := read_eq h (length_bitsOf c.idLen ((1 <<< c.idLen) - 1)) (by omega)
    rw [idBits, value_bitsOf_of_lt (by rw [Nat.one_shiftLeft]; omega)] at hread
    have hpos : ¬ (1 <<< c.idLen) - 1 = 0 := by
      rw [Nat.one_shiftLeft]
      omega
    rw [decodeStep, hr, hread, idBits, length_bitsOf]
    simp only [ok_bind, if_neg hpos]
    rfl

/-! ## Coded blocks -/

theorem reconstruct_dataAt (hv : c.Valid) (hs : Fitting c samples) {blk : Nat}
    (hblk : blk < numBlocks c samples) :
    ∃ tail, reconstruct c (if c.isRef blk = true then
        (if c.isRef blk = true then firstAt c samples blk else 0) else prevAt c samples blk)
        (dataAt c samples blk) = .ok tail ∧
      (if c.isRef blk = true then (if c.isRef blk = true then firstAt c samples blk else 0) :: tail
        else tail) = blockAt c samples blk := by
  have hblock := blockAt_le hs blk
  unfold reconstruct dataAt
  by_cases hpre : c.preprocessor = true
  · rw [if_pos hpre, if_pos hpre]
    by_cases href : c.isRef blk = true
    · simp only [if_pos href]
      refine ⟨(blockAt c samples blk).drop 1, ?_, (blockAt_eq_cons hv hblk).symm⟩
      exact reconstructLoop_residuals (firstAt_le hs blk)
        (fun x hx => hblock x (List.mem_of_mem_drop hx)) hv.xMax_lt
    · simp only [if_neg href]
      exact ⟨_, reconstructLoop_residuals (prevAt_le hs blk) hblock hv.xMax_lt, rfl⟩
  · have href : ¬ c.isRef blk = true := fun href => hpre (isRef_preprocessor href)
    have hword := hv.xMax_lt
    rw [if_neg hpre, if_neg hpre]
    simp only [if_neg href]
    refine ⟨_, rfl, (List.map_congr_left fun x hx => ?_).trans (List.map_id _)⟩
    have hle := hblock x hx
    exact Nat.mod_eq_of_lt (by omega)

theorem nextBlock_eq {s : Decoder} {blk : Nat} (hblk : s.blkIdx = blk)
    (hseg : s.segRemaining = segAt c blk) : nextBlock c s =
      .ok { s with blkIdx := blk + 1, segRemaining := segAt c (blk + 1) } := by
  have hbounds := segAt_bounds c blk
  rw [nextBlock, if_neg (by omega), hblk, hseg]
  rfl

theorem coded_step (hv : c.Valid) (hs : Fitting c samples) (hwide : 3 ≤ c.bitsPerSample)
    {blk : Nat} (hblk : blk < numBlocks c samples) (hzero : ¬ zeroAt c samples blk = true)
    {s : Decoder} (hsync : Synced c samples input off blk s)
    (h : Stands input off ((Part.coded blk).bits c samples)) :
    ∃ s', decodeStep c s = .ok s' ∧
      Synced c samples input (off + ((Part.coded blk).bits c samples).length) (blk + 1) s' := by
  have haff := optionAt_affordable hzero
  have hne : optionAt c samples blk ≠ .zeroBlock := fun hz => hzero (optionAt_zero_iff.1 hz)
  have hks : ∀ k, optionAt c samples blk = .split k → k ≤ maxK c := by
    intro k hk
    rw [hk] at haff
    exact haff.1
  have hmaxK : maxK c ≤ 64 := by
    have hbits := hv.bits
    rw [maxK]
    omega
  have hend := block_end_le hblk
  have hlen := length_blockAt hblk
  obtain ⟨tail, htail, hblock⟩ := reconstruct_dataAt hv hs hblk
  rw [Part.bits, stands_append, stands_append] at h
  have hstep := decodeStep_coded hsync.r hne (hv.two_le_idLen hwide) hks h.1
  have href := readRef_eq hv (firstAt_le hs blk) h.2.1
  have hmapped := readMapped_eq hv (length_dataAt hblk) (dataAt_le hs blk) hmaxK haff h.2.2
  have hsingle : decodeStep c s = nextBlock c
      ⟨behind input (off + ((Part.coded blk).bits c samples).length),
        overwrite s.output s.outPos (blockAt c samples blk), s.outPos + c.blockSize, s.blkIdx,
        prevAt c samples (blk + 1), s.segRemaining⟩ := by
    rw [hstep, hsync.blkIdx, decodeSingleBlock]
    show (readRef c (c.isRef blk) (behind input _) >>= _) = _
    rw [href]
    show (readMapped c (c.isRef blk) (behind input _) _ >>= _) = _
    rw [refAt] at hmapped
    rw [hmapped]
    show (reconstruct c (if c.isRef blk = true then _ else s.prevSample) _ >>= _) = _
    rw [hsync.prev, htail, Part.bits, List.length_append, List.length_append, ← Nat.add_assoc,
      ← Nat.add_assoc, prevAt, ← hblock]
    rfl
  have hnext := nextBlock_eq (s := ⟨behind input (off + ((Part.coded blk).bits c samples).length),
    overwrite s.output s.outPos (blockAt c samples blk), s.outPos + c.blockSize, s.blkIdx,
    prevAt c samples (blk + 1), s.segRemaining⟩) hsync.blkIdx hsync.seg
  rw [hsingle, hnext]
  refine ⟨_, rfl, rfl, ?_, rfl, rfl, rfl, ?_, ?_⟩
  · show s.outPos + c.blockSize = (blk + 1) * c.blockSize
    rw [hsync.outPos, Nat.add_mul, Nat.one_mul]
  · have hroom : s.outPos + (blockAt c samples blk).length ≤ s.output.length := by
      rw [hsync.outPos, hlen, hsync.length]
      exact hend
    have htake := take_overwrite_add hroom
    rw [hsync.outPos, hlen, hsync.output, ← take_succ_block] at htake
    rw [Nat.add_mul, Nat.one_mul] at htake ⊢
    rw [hsync.outPos]
    exact htake
  · show (overwrite s.output s.outPos (blockAt c samples blk)).length = samples.length
    rw [length_overwrite (by rw [hsync.outPos, hlen, hsync.length]; exact hend), hsync.length]

/-! ## Runs of zero blocks -/

/-- The sample that a zero block repeats. -/
def zeroValue (c : Config) (samples : List Nat) (blk : Nat) : Nat :=
  if c.isRef blk = true then firstAt c samples blk
  else if c.preprocessor = true then prevAt c samples blk
  else 0

theorem zero_block (hv : c.Valid) {blk : Nat} (hblk : blk < numBlocks c samples)
    (hzero : zeroAt c samples blk = true) :
    blockAt c samples blk = List.replicate c.blockSize (zeroValue c samples blk) := by
  have hlen := length_blockAt hblk
  have hall := all_zero_iff.1 hzero
  unfold dataAt at hall
  unfold zeroValue
  by_cases hpre : c.preprocessor = true
  · rw [if_pos hpre] at hall ⊢
    by_cases href : c.isRef blk = true
    · rw [if_pos href] at hall ⊢
      have hcons := blockAt_eq_cons hv hblk
      rw [residuals_eq_zero_iff] at hall
      have hsize : c.blockSize = ((blockAt c samples blk).drop 1).length + 1 := by
        have hbounds := hv.block_bounds
        rw [List.length_drop, hlen]
        omega
      rw [hsize, List.replicate_succ, ← hall]
      exact hcons
    · rw [if_neg href] at hall ⊢
      rw [residuals_eq_zero_iff, hlen] at hall
      exact hall
  · have href : ¬ c.isRef blk = true := fun href => hpre (isRef_preprocessor href)
    rw [if_neg hpre] at hall ⊢
    rw [if_neg href]
    exact List.eq_replicate_iff.2 ⟨hlen, hall⟩

/-- Inside the run a reference sample is the sample before it. -/
def Smooth (c : Config) (samples : List Nat) (start count : Nat) : Prop :=
  ∀ t, t + 1 < count → c.isRef (start + t + 1) = true →
    firstAt c samples (start + t + 1) = prevAt c samples (start + t + 1)

theorem run_blocks_iff (hv : c.Valid) {start count : Nat}
    (hend : start + count ≤ numBlocks c samples)
    (hzero : ∀ t, t < count → zeroAt c samples (start + t) = true) :
    (∀ t, t < count → blockAt c samples (start + t) =
      List.replicate c.blockSize (zeroValue c samples start)) ↔ Smooth c samples start count := by
  have hbounds := hv.block_bounds
  have hget : ∀ v i, i < c.blockSize → (List.replicate c.blockSize v).getD i 0 = v := by
    intro v i hi
    rw [List.getD_eq_getElem?_getD, List.getElem?_replicate, if_pos hi]
    rfl
  constructor
  · intro h t ht _
    have hhere := h (t + 1) ht
    have hbefore := h t (by omega)
    rw [firstAt, prevAt, Nat.add_assoc, hhere, hbefore, hget _ _ (by omega), hget _ _ (by omega)]
  · intro h t
    induction t with
    | zero => exact fun ht => zero_block hv (by omega) (hzero 0 ht)
    | succ t ih =>
      intro ht
      have hprev : prevAt c samples (start + t + 1) = zeroValue c samples start := by
        rw [prevAt, ih (by omega), hget _ _ (by omega)]
      have hblock := zero_block hv (show start + (t + 1) < _ by omega) (hzero (t + 1) ht)
      rw [hblock]
      congr 1
      rw [← Nat.add_assoc, zeroValue]
      by_cases href : c.isRef (start + t + 1) = true
      · rw [if_pos href, h t ht href, hprev]
      · rw [if_neg href]
        by_cases hpre : c.preprocessor = true
        · rw [if_pos hpre, hprev]
        · have hfirst : ¬ c.isRef start = true := fun href => hpre (isRef_preprocessor href)
          rw [if_neg hpre, zeroValue, if_neg hfirst, if_neg hpre]

theorem take_run_iff {start count v : Nat} (hend : start + count ≤ numBlocks c samples) :
    samples.take (start * c.blockSize) ++ List.replicate (count * c.blockSize) v =
        samples.take ((start + count) * c.blockSize) ↔
      ∀ t, t < count → blockAt c samples (start + t) = List.replicate c.blockSize v := by
  induction count with
  | zero =>
    rw [Nat.zero_mul, List.replicate_zero, List.append_nil, Nat.add_zero]
    exact iff_of_true rfl (fun t ht => absurd ht (Nat.not_lt_zero t))
  | succ count ih =>
    have hlen := length_blockAt (show start + count < numBlocks c samples by omega)
    have hsame : (samples.take (start * c.blockSize) ++
        List.replicate (count * c.blockSize) v).length =
          (samples.take ((start + count) * c.blockSize)).length := by
      have hbefore := block_end_le (show start + count < numBlocks c samples by omega)
      rw [List.length_append, List.length_take, List.length_take, List.length_replicate]
      rw [Nat.add_mul] at hbefore ⊢
      omega
    rw [← Nat.add_assoc, take_succ_block, Nat.add_mul count, Nat.one_mul,
      ← List.replicate_append_replicate, ← List.append_assoc]
    constructor
    · intro h t ht
      obtain ⟨hleft, hright⟩ := List.append_inj h hsame
      by_cases hlast : t = count
      · rw [hlast, hright]
      · exact (ih (by omega)).1 hleft t (by omega)
    · intro h
      rw [(ih (by omega)).2 (fun t ht => h t (by omega)), h count (Nat.lt_succ_self count)]

theorem fillZeros_eq {isRef : Bool} {refVal v m : Nat} {first : Bool} {s : Decoder} {blk : Nat}
    (hblk : s.blkIdx = blk) (hseg : s.segRemaining = segAt c blk)
    (hroom : s.outPos + m * c.blockSize ≤ s.output.length)
    (hvalue : (if (isRef && first) = true then refVal
      else if c.preprocessor = true then s.prevSample else 0) = v)
    (hplain : ¬ c.preprocessor = true → v = 0) :
    ∃ s', fillZeros c isRef refVal m first s = .ok s' ∧ s'.r = s.r ∧
      s'.outPos = s.outPos + m * c.blockSize ∧ s'.blkIdx = blk + m ∧
      s'.segRemaining = segAt c (blk + m) ∧ (0 < m → s'.prevSample = v) ∧
      s'.output.take (s.outPos + m * c.blockSize) =
        s.output.take s.outPos ++ List.replicate (m * c.blockSize) v ∧
      s'.output.length = s.output.length := by
  induction m generalizing first s blk with
  | zero =>
    refine ⟨s, rfl, rfl, by omega, hblk, hseg, fun h => absurd h (Nat.lt_irrefl 0), ?_, rfl⟩
    rw [Nat.zero_mul, Nat.add_zero, List.replicate_zero, List.append_nil]
  | succ m ih =>
    rw [Nat.add_mul, Nat.one_mul] at hroom
    have hlen : s.outPos + (List.replicate c.blockSize v).length ≤ s.output.length := by
      rw [List.length_replicate]
      omega
    have htake := take_overwrite_add hlen
    have hlength := length_overwrite hlen
    rw [List.length_replicate] at htake
    have hstep := nextBlock_eq (s := ⟨s.r, overwrite s.output s.outPos
      (List.replicate c.blockSize v), s.outPos + c.blockSize, s.blkIdx, v, s.segRemaining⟩)
      hblk hseg
    have hagain : (if (isRef && false) = true then refVal
        else if c.preprocessor = true then v else 0) = v := by
      rw [Bool.and_false, if_neg (by decide)]
      by_cases hpre : c.preprocessor = true
      · rw [if_pos hpre]
      · rw [if_neg hpre, hplain hpre]
    have hroom' : s.outPos + c.blockSize + m * c.blockSize ≤
        (overwrite s.output s.outPos (List.replicate c.blockSize v)).length := by
      rw [hlength]
      omega
    obtain ⟨s', hs', hr, hpos, hidx, hsegs, hprev, hout, hl⟩ := ih (s := ⟨s.r, overwrite s.output
      s.outPos (List.replicate c.blockSize v), s.outPos + c.blockSize, blk + 1, v,
      segAt c (blk + 1)⟩) (show Decoder.blkIdx _ = blk + 1 from rfl) rfl
      hroom' hagain
    have hsum : s.outPos + (m + 1) * c.blockSize = s.outPos + c.blockSize + m * c.blockSize := by
      rw [Nat.add_mul, Nat.one_mul]
      omega
    refine ⟨s', ?_, hr, ?_, ?_, ?_, fun _ => ?_, ?_, hl.trans hlength⟩
    · rw [fillZeros, if_neg (by omega)]
      simp only [hvalue, hstep, ok_bind]
      exact hs'
    · rw [hsum]
      exact hpos
    · rw [hidx, Nat.add_assoc, Nat.add_comm 1]
    · rw [hsegs, Nat.add_assoc, Nat.add_comm 1]
    · by_cases hm : 0 < m
      · exact hprev hm
      · obtain rfl : m = 0 := by omega
        cases hs'
        rfl
    · rw [hsum]
      refine hout.trans ?_
      show (overwrite _ _ _).take (s.outPos + c.blockSize) ++ _ = _
      rw [htake, List.append_assoc, List.replicate_append_replicate, Nat.add_mul, Nat.one_mul,
        Nat.add_comm c.blockSize]

end

end Rice
end Compression
end Leodos
