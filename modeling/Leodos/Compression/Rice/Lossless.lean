/-
When the Rice coder of `rice.rs` gives the samples back.

The decoder follows the code part by part.  What it misses is a reference sample inside a run of
zero blocks: the encoder does not write it.
-/
import Leodos.Compression.Rice.RoundTrip

namespace Leodos
namespace Compression
namespace Rice

open BitStream BitReader Emission

/-! ## Steps of the decoder -/

section
variable {c : Config} {samples : List Nat} {input : Bytes} {off : Nat}

theorem decodeZeroCount_runCode {count seg : Nat} {ros : Bool} (hpos : 0 < count)
    (hcount : count < 4294967296) (hros : ros = true → 5 ≤ count → seg = count) :
    decodeZeroCount (runCode count ros) seg = count := by
  unfold decodeZeroCount runCode
  by_cases hrest : ros = true ∧ 5 ≤ count
  · rw [if_pos hrest, if_neg (by decide), if_pos rfl]
    exact hros hrest.1 hrest.2
  · rw [if_neg hrest]
    by_cases hfour : count ≤ 4
    · rw [if_pos hfour, if_pos (by omega)]
      omega
    · rw [if_neg hfour, if_neg (by omega), if_neg (by omega)]
      exact Nat.mod_eq_of_lt hcount

theorem zeros_step (hv : c.Valid) (hs : Fitting c samples) {start count : Nat} {ros : Bool}
    (hpos : 0 < count) (hcount : count ≤ 64) (hend : start + count ≤ numBlocks c samples)
    (hzero : ∀ t, t < count → zeroAt c samples (start + t) = true)
    (hros : ros = true → 5 ≤ count → segAt c start = count) {s : Decoder}
    (hsync : Synced c samples input off start s)
    (h : Stands input off ((Part.zeros start count ros).bits c samples)) :
    ∃ s', decodeStep c s = .ok s' ∧
      (Smooth c samples start count → Synced c samples input
        (off + ((Part.zeros start count ros).bits c samples).length) (start + count) s') ∧
      (¬ Smooth c samples start count →
        s'.output.take s'.outPos ≠ samples.take s'.outPos) := by
  have hblock := block_end_le (show start + count - 1 < numBlocks c samples by omega)
  have hsize : start * c.blockSize + count * c.blockSize ≤ samples.length := by
    have hlast : (start + count - 1) * c.blockSize + c.blockSize =
        start * c.blockSize + count * c.blockSize := by
      rw [← Nat.add_mul, ← Nat.succ_mul]
      congr 1
      omega
    omega
  rw [Part.bits, stands_append, stands_append] at h
  have hstep := decodeStep_zero hsync.r h.1
  have href := readRef_eq hv (firstAt_le hs start) h.2.1
  have hfs := readFs_eq h.2.2
  have hidLen : (idBits c.idLen .zeroBlock).length = c.idLen + 1 := length_bitsOf _ _
  rw [hidLen] at href hfs
  have hvalue : (if (c.isRef start && true) = true then
      (if c.isRef start = true then firstAt c samples start else 0)
      else if c.preprocessor = true then s.prevSample else 0) = zeroValue c samples start := by
    rw [Bool.and_true, hsync.prev, zeroValue]
    by_cases href : c.isRef start = true
    · rw [if_pos href, if_pos href, if_pos href]
    · rw [if_neg href, if_neg href]
  have hplain : ¬ c.preprocessor = true → zeroValue c samples start = 0 := by
    intro hpre
    rw [zeroValue, if_neg (fun href => hpre (isRef_preprocessor href)), if_neg hpre]
  have hroom : s.outPos + count * c.blockSize ≤ s.output.length := by
    rw [hsync.outPos, hsync.length]
    exact hsize
  obtain ⟨s', hs', hr, hoff, hidx, hseg, hprev, hout, hlen⟩ := fillZeros_eq
    (s := { s with r := behind input (off + (c.idLen + 1) + (refBits c.bitsPerSample
      (refAt c samples start)).length + (runCode count ros + 1)) })
    hsync.blkIdx hsync.seg hroom hvalue hplain
  have hsame : s'.output.take ((start + count) * c.blockSize) =
      samples.take (start * c.blockSize) ++
        List.replicate (count * c.blockSize) (zeroValue c samples start) := by
    have htake : s'.output.take (s.outPos + count * c.blockSize) = _ := hout
    rw [hsync.outPos, ← Nat.add_mul] at htake
    rw [htake]
    show s.output.take (start * c.blockSize) ++ _ = _
    rw [hsync.output]
  have hpos' : s'.outPos = (start + count) * c.blockSize := by
    rw [hoff, Nat.add_mul]
    show s.outPos + _ = _
    rw [hsync.outPos]
  have hdecoded : decodeZeroCount (runCode count ros) s.segRemaining = count := by
    rw [hsync.seg]
    exact decodeZeroCount_runCode hpos (by omega) hros
  have hiff := (take_run_iff (v := zeroValue c samples start) hend).trans
    (run_blocks_iff hv hend hzero)
  refine ⟨s', ?_, fun hsmooth => ?_, fun hnot heq => ?_⟩
  · rw [hstep, hsync.blkIdx, href]
    simp only [ok_bind]
    rw [refAt] at hfs hs'
    rw [hfs]
    simp only [ok_bind]
    rw [hdecoded]
    rw [hsync.blkIdx] at hs'
    exact hs'
  · refine ⟨?_, hpos', hidx, ?_, hseg, ?_, hlen.trans hsync.length⟩
    · refine hr.trans (congrArg (behind input) ?_)
      rw [Part.bits, List.length_append, List.length_append, hidLen, length_unary]
      omega
    · have hlast := (run_blocks_iff hv hend hzero).2 hsmooth (count - 1) (by omega)
      have hsucc : start + count = start + (count - 1) + 1 := by omega
      have hbounds := hv.block_bounds
      rw [hprev hpos, hsucc, prevAt, hlast, List.getD_eq_getElem?_getD, List.getElem?_replicate,
        if_pos (by omega)]
      rfl
    · rw [hsame]
      exact hiff.2 hsmooth
  · rw [hpos', hsame] at heq
    exact hnot (hiff.1 heq)

/-! ## Runs of the decoder -/

def Decodes (c : Config) (samples : List Nat) (fuel : Nat) (s : Decoder) : Prop :=
  ∃ s', decodeLoop c fuel s = .ok s' ∧ s'.outPos = samples.length ∧ s'.output = samples

theorem decodes_succ (fuel : Nat) {blk : Nat} {s s' : Decoder} (hblk : blk < numBlocks c samples)
    (hsync : Synced c samples input off blk s) (hstep : decodeStep c s = .ok s') :
    Decodes c samples (fuel + 1) s ↔ Decodes c samples fuel s' := by
  have hroom := block_end_le hblk
  have hloop : decodeLoop c (fuel + 1) s = decodeLoop c fuel s' := by
    rw [decodeLoop, if_pos (by rw [hsync.outPos, hsync.length]; exact hroom), hstep]
    rfl
  unfold Decodes
  rw [hloop]

theorem decodes_zeros (fuel : Nat) (hv : c.Valid) (hs : Fitting c samples) {start count : Nat}
    {ros : Bool} (hpos : 0 < count) (hcount : count ≤ 64)
    (hend : start + count ≤ numBlocks c samples)
    (hzero : ∀ t, t < count → zeroAt c samples (start + t) = true)
    (hros : ros = true → 5 ≤ count → segAt c start = count) {s : Decoder}
    (hsync : Synced c samples input off start s)
    (h : Stands input off ((Part.zeros start count ros).bits c samples)) :
    ∃ s', (Decodes c samples (fuel + 1) s ↔
        Smooth c samples start count ∧ Decodes c samples fuel s') ∧
      (Smooth c samples start count → Synced c samples input
        (off + ((Part.zeros start count ros).bits c samples).length) (start + count) s') := by
  obtain ⟨s', hstep, hsmooth, hrough⟩ := zeros_step hv hs hpos hcount hend hzero hros hsync h
  have hsucc := decodes_succ fuel (show start < numBlocks c samples by omega) hsync hstep
  refine ⟨s', hsucc.trans ⟨fun hdec => ⟨?_, hdec⟩, fun hdec => hdec.2⟩, hsmooth⟩
  by_cases hsm : Smooth c samples start count
  · exact hsm
  · obtain ⟨s'', hloop, -, hout⟩ := hdec
    have hkept := (decodeLoop_extends hloop).2
    rw [hout] at hkept
    exact absurd hkept.symm (hrough hsm)

theorem decodes_coded (fuel : Nat) (hv : c.Valid) (hs : Fitting c samples)
    (hwide : 3 ≤ c.bitsPerSample) {blk : Nat} (hblk : blk < numBlocks c samples)
    (hzero : ¬ zeroAt c samples blk = true)
    {s : Decoder} (hsync : Synced c samples input off blk s)
    (h : Stands input off ((Part.coded blk).bits c samples)) :
    ∃ s', (Decodes c samples (fuel + 1) s ↔ Decodes c samples fuel s') ∧
      Synced c samples input (off + ((Part.coded blk).bits c samples).length) (blk + 1) s' := by
  obtain ⟨s', hstep, hsync'⟩ := coded_step hv hs hwide hblk hzero hsync h
  exact ⟨s', decodes_succ fuel hblk hsync hstep, hsync'⟩

/-! ## Alignment -/

/-- From a block on: a reference sample inside a run of zero blocks is the sample before it. -/
def AlignedFrom (c : Config) (samples : List Nat) (start : Nat) : Prop :=
  ∀ blk, start ≤ blk → blk + 1 < numBlocks c samples → zeroAt c samples blk = true →
    zeroAt c samples (blk + 1) = true → 1 < segAt c blk → c.isRef (blk + 1) = true →
    firstAt c samples (blk + 1) = prevAt c samples (blk + 1)

def Aligned (c : Config) (samples : List Nat) : Prop := AlignedFrom c samples 0

theorem aligned_of_few (h : numBlocks c samples ≤ 4294967296) : Aligned c samples := by
  intro blk _ hlt _ _ hseg href
  unfold Config.isRef at href
  rw [Bool.and_eq_true, Bool.and_eq_true, decide_eq_true_iff, decide_eq_true_iff] at href
  obtain ⟨⟨-, hr⟩, hmod⟩ := href
  have hle := segAt_le_interval hr (show blk < 4294967296 by omega)
  have hnext : (blk + 1) % c.refInterval = blk % c.refInterval + 1 := by
    rw [Nat.add_mod, Nat.mod_eq_of_lt (show 1 < c.refInterval by omega),
      Nat.mod_eq_of_lt (show blk % c.refInterval + 1 < c.refInterval by omega)]
  omega

theorem alignedFrom_run {start count : Nat} (hpos : 0 < count)
    (hend : start + count ≤ numBlocks c samples)
    (hzero : ∀ t, t < count → zeroAt c samples (start + t) = true)
    (hseg : ∀ t, t + 1 < count → 1 < segAt c (start + t))
    (hstop : segAt c (start + count - 1) = 1 ∨ start + count = numBlocks c samples ∨
      ¬ zeroAt c samples (start + count) = true) :
    AlignedFrom c samples start ↔
      Smooth c samples start count ∧ AlignedFrom c samples (start + count) := by
  constructor
  · intro h
    refine ⟨fun t ht href => ?_, fun blk hblk => h blk (by omega)⟩
    exact h (start + t) (by omega) (by omega) (hzero t (by omega)) (hzero (t + 1) ht) (hseg t ht)
      href
  · intro h blk hblk hlt hz hz' hs href
    by_cases hin : blk + 1 < start + count
    · have hindex : start + (blk - start) + 1 = blk + 1 := by omega
      have hsmooth := h.1 (blk - start) (by omega)
      rw [hindex] at hsmooth
      exact hsmooth href
    · by_cases hlast : blk + 1 = start + count
      · have hblkEq : start + count - 1 = blk := by omega
        rw [hblkEq, ← hlast] at hstop
        rcases hstop with hstop | hstop | hstop
        · omega
        · omega
        · exact absurd hz' hstop
      · exact h.2 blk (by omega) hlt hz hz' hs href

theorem alignedFrom_coded {blk : Nat} (hzero : ¬ zeroAt c samples blk = true) :
    AlignedFrom c samples blk ↔ AlignedFrom c samples (blk + 1) := by
  constructor
  · exact fun h b hb => h b (by omega)
  · intro h b hb hlt hz
    by_cases hhere : b = blk
    · rw [hhere] at hz
      exact absurd hz hzero
    · exact h b (by omega) hlt hz

/-- A run of zero blocks that the encoder has not written yet. -/
structure Pending (c : Config) (samples : List Nat) (blk run : Nat) : Prop where
  le : run ≤ blk
  zero : ∀ t, t < run → zeroAt c samples (blk - run + t) = true ∧ 1 < segAt c (blk - run + t)
  seg : segAt c (blk - run) = run + segAt c blk

theorem pending_zero (blk : Nat) : Pending c samples blk 0 where
  le := Nat.zero_le blk
  zero := fun t ht => absurd ht (Nat.not_lt_zero t)
  seg := by rw [Nat.sub_zero, Nat.zero_add]

theorem Pending.next {blk run : Nat} (h : Pending c samples blk run)
    (hzero : zeroAt c samples blk = true) (hseg : 1 < segAt c blk) :
    Pending c samples (blk + 1) (run + 1) := by
  have hle := h.le
  have hstart : blk + 1 - (run + 1) = blk - run := Nat.add_sub_add_right ..
  refine ⟨by omega, fun t ht => ?_, ?_⟩
  · rw [hstart]
    by_cases hlast : t = run
    · have hblk : blk - run + t = blk := by omega
      rw [hblk]
      exact ⟨hzero, hseg⟩
    · exact h.zero t (by omega)
  · have hsucc := segAt_succ_of_lt hseg
    rw [hstart, h.seg]
    omega

theorem length_idBits_pos (hid : 2 ≤ c.idLen) (option : CodingOption) :
    0 < (idBits c.idLen option).length := by
  cases option with
  | zeroBlock =>
    rw [idBits, length_bitsOf]
    omega
  | secondExtension =>
    rw [idBits, length_bitsOf]
    omega
  | split k =>
    rw [idBits, length_bitsOf]
    omega
  | noCompression =>
    rw [idBits, length_bitsOf]
    omega

theorem length_bits_pos (hid : 2 ≤ c.idLen) (samples : List Nat) (part : Part) :
    0 < (part.bits c samples).length := by
  cases part with
  | zeros start count ros =>
    have hpos := length_idBits_pos hid .zeroBlock
    rw [Part.bits, List.length_append]
    omega
  | coded blk =>
    have hpos := length_idBits_pos hid (optionAt c samples blk)
    rw [Part.bits, List.length_append]
    omega

/-- The decoder follows the code, by induction on the blocks to come.  It stands in front of the
run that the encoder has pending. -/
theorem decodes_iff (hv : c.Valid) (hs : Fitting c samples) (hwide : 3 ≤ c.bitsPerSample)
    {m blk run fuel : Nat} (hm : blk + m = numBlocks c samples)
    (hpend : Pending c samples blk run) (hlast : m = 0 → run = 0) {s : Decoder}
    (hsync : Synced c samples input off (blk - run) s)
    (hfuel : (codeFrom c samples m blk run).length < fuel)
    (h : Stands input off (codeFrom c samples m blk run)) :
    Decodes c samples fuel s ↔ AlignedFrom c samples (blk - run) := by
  have hid := hv.two_le_idLen hwide
  induction m generalizing blk run fuel off s with
  | zero =>
    obtain rfl := hlast rfl
    obtain rfl : blk = numBlocks c samples := by omega
    cases fuel with
    | zero => omega
    | succ fuel =>
      have hwhole : numBlocks c samples * c.blockSize = samples.length :=
        Nat.div_mul_cancel (Nat.dvd_of_mod_eq_zero hs.whole)
      have hpos := hsync.outPos
      have hout := hsync.output
      have hlen := hsync.length
      have hsize := hv.block_bounds
      rw [Nat.sub_zero, hwhole] at hpos hout
      rw [List.take_of_length_le (Nat.le_of_eq hlen),
        List.take_of_length_le (Nat.le_refl _)] at hout
      refine iff_of_true ⟨s, ?_, hpos, hout⟩ (fun b hb hlt => by omega)
      rw [decodeLoop, if_neg (by omega)]
  | succ m ih =>
    have hblk : blk < numBlocks c samples := by omega
    have hle := hpend.le
    have hseg := hpend.seg
    have hbounds := segAt_bounds c (blk - run)
    have hhere := segAt_bounds c blk
    rw [codeFrom_succ] at h hfuel
    unfold partsAt runAfter at h hfuel
    by_cases hzero : zeroAt c samples blk = true
    · rw [if_pos hzero] at h hfuel
      by_cases hends : runEnds c (numBlocks c samples) blk
      · -- the run ends with this block
        have hon : ¬ (zeroAt c samples blk = true ∧ ¬ runEnds c (numBlocks c samples) blk) :=
          fun hon => hon.2 hends
        have hcount : blk - run + (run + 1) = blk + 1 := by omega
        have hzeros : ∀ t, t < run + 1 → zeroAt c samples (blk - run + t) = true := by
          intro t ht
          by_cases hnew : t = run
          · rw [hnew, Nat.sub_add_cancel hle]
            exact hzero
          · exact (hpend.zero t (by omega)).1
        have hros : decide (segAt c blk = 1) = true → 5 ≤ run + 1 →
            segAt c (blk - run) = run + 1 := by
          intro hone _
          rw [hseg, of_decide_eq_true hone]
        have hstop : segAt c (blk - run + (run + 1) - 1) = 1 ∨
            blk - run + (run + 1) = numBlocks c samples ∨
              ¬ zeroAt c samples (blk - run + (run + 1)) = true := by
          rw [hcount, Nat.add_sub_cancel]
          rcases hends with hends | hends
          · exact Or.inl hends
          · exact Or.inr (Or.inl hends)
        rw [if_pos hends, if_neg hon, List.flatMap_singleton] at h hfuel
        rw [stands_append] at h
        have hbits := length_bits_pos hid samples
          (.zeros (blk - run) (run + 1) (decide (segAt c blk = 1)))
        rw [List.length_append] at hfuel
        cases fuel with
        | zero => omega
        | succ fuel =>
          obtain ⟨s', hdec, hsync'⟩ := decodes_zeros fuel hv hs (Nat.succ_pos run)
            (by omega) (by omega) hzeros hros hsync h.1
          have hsplit := alignedFrom_run (Nat.succ_pos run) (by omega) hzeros
            (fun t ht => (hpend.zero t (by omega)).2) hstop
          rw [hdec, hsplit]
          refine and_congr_right (fun hsmooth => ?_)
          have hnext := hsync' hsmooth
          rw [hcount] at hnext ⊢
          exact ih (show blk + 1 + m = numBlocks c samples by omega) (pending_zero _) (fun _ => rfl)
            hnext (by omega) h.2
      · -- the run goes on
        have hone : segAt c blk ≠ 1 := fun hone => hends (Or.inl hone)
        have hstart : blk + 1 - (run + 1) = blk - run := Nat.add_sub_add_right ..
        rw [if_neg hends, if_pos ⟨hzero, hends⟩, List.flatMap_nil, List.nil_append] at h hfuel
        have hrest := ih (by omega) (hpend.next hzero (by omega))
          (fun hm0 => absurd (Or.inr (by omega)) hends) (by rw [hstart]; exact hsync) hfuel h
        rw [hstart] at hrest
        exact hrest
    · have hon : ¬ (zeroAt c samples blk = true ∧ ¬ runEnds c (numBlocks c samples) blk) :=
        fun hon => hzero hon.1
      rw [if_neg hzero, if_neg hon, List.flatMap_append, List.flatMap_singleton,
        List.append_assoc] at h hfuel
      have hbits := length_bits_pos hid samples (.coded blk)
      -- the block itself, in front of which the decoder stands
      have hcoded : ∀ {off' fuel' : Nat} {s₁ : Decoder},
          Synced c samples input off' blk s₁ →
          Stands input off' ((Part.coded blk).bits c samples ++ codeFrom c samples m (blk + 1) 0) →
          ((Part.coded blk).bits c samples ++ codeFrom c samples m (blk + 1) 0).length < fuel' →
          (Decodes c samples fuel' s₁ ↔ AlignedFrom c samples blk) := by
        intro off' fuel' s₁ hs₁ hst hfuel'
        rw [stands_append] at hst
        rw [List.length_append] at hfuel'
        cases fuel' with
        | zero => omega
        | succ fuel' =>
          obtain ⟨s₂, hdec, hsync'⟩ := decodes_coded fuel' hv hs hwide hblk hzero hs₁ hst.1
          rw [hdec, alignedFrom_coded hzero]
          exact ih (show blk + 1 + m = numBlocks c samples by omega) (pending_zero _) (fun _ => rfl)
            hsync' (by omega) hst.2
      by_cases hnone : run = 0
      · subst hnone
        exact hcoded hsync h hfuel
      · rw [if_neg hnone, List.flatMap_singleton, stands_append] at h
        rw [if_neg hnone, List.flatMap_singleton, List.length_append] at hfuel
        have hcount : blk - run + run = blk := by omega
        have hzeros := fun t ht => (hpend.zero t ht).1
        have hbits' := length_bits_pos hid samples (.zeros (blk - run) run false)
        cases fuel with
        | zero => omega
        | succ fuel =>
          obtain ⟨s', hdec, hsync'⟩ := decodes_zeros fuel hv hs (Nat.pos_of_ne_zero hnone)
            (by omega) (by omega) hzeros (fun hros => absurd hros (by decide)) hsync h.1
          have hsplit := alignedFrom_run (Nat.pos_of_ne_zero hnone) (by omega) hzeros
            (fun t ht => (hpend.zero t (by omega)).2)
            (Or.inr (Or.inr (by rw [hcount]; exact hzero)))
          rw [hdec, hsplit]
          refine and_congr_right (fun hsmooth => ?_)
          have hnext := hsync' hsmooth
          rw [hcount] at hnext ⊢
          exact hcoded hnext h.2 (by omega)

end

/-! ## Round trips -/

/-- `compress` reports a full output, or `decompress` gives the samples back from the octets
written. -/
def RoundTrips (c : Config) (samples : List Nat) (output : Bytes) (restored : List Nat) : Prop :=
  match compress c samples output with
  | .error (.error .outputFull) => True
  | .error _ => False
  | .ok (len, buf) => decompress c (buf.take len) restored = .ok (samples.length, samples)

/-- The samples come back exactly when there are ids for the options, every cost stays in 64 bits,
the code has room in the output, and no reference sample inside a run of zero blocks changes
the value. -/
theorem lossless_iff (c : Config) (samples : List Nat) (output : Bytes) (restored : List Nat)
    (hc : c.validate = .ok ()) (hs : Fitting c samples)
    (hrestored : restored.length = samples.length) :
    RoundTrips c samples output restored ↔
      samples = [] ∨ (Encodable c samples output.length ∧ Aligned c samples) := by
  have hv := Config.validate_ok_iff.1 hc
  by_cases hne : samples = []
  · subst hne
    refine iff_of_true ?_ (Or.inl rfl)
    obtain rfl := List.eq_nil_of_length_eq_zero hrestored
    have hsize := hv.block_bounds
    rw [RoundTrips, compress_nil hv]
    show decompress c (output.take 0) [] = .ok (0, [])
    rw [decompress, hc]
    simp only [ok_bind, decodeLoop]
    rw [if_neg (by show ¬ 0 + c.blockSize ≤ 0; omega)]
    rfl
  · obtain ⟨hok, hpanic⟩ := compress_spec hv hs hne output
    by_cases henc : Encodable c samples output.length
    · obtain ⟨len, buf, hcompress, hst⟩ := hok henc
      have hsync : Synced c samples (buf.take len) 0 0
          ⟨.new (buf.take len), restored, 0, 0, 0, segSize c 0⟩ :=
        ⟨rfl, (Nat.zero_mul _).symm, rfl, rfl, rfl, by rw [Nat.zero_mul]; rfl, hrestored⟩
      have hroom := hst.1
      have hdec := decodes_iff hv hs henc.1
        (Nat.zero_add _) (pending_zero 0) (fun _ => rfl) hsync
        (show (code c samples).length < 8 * (buf.take len).length + 1 by omega) hst
      have htrip : RoundTrips c samples output restored ↔ Decodes c samples
          (8 * (buf.take len).length + 1)
          ⟨.new (buf.take len), restored, 0, 0, 0, segSize c 0⟩ := by
        rw [RoundTrips, hcompress]
        show decompress c (buf.take len) restored = _ ↔ _
        rw [decompress, hc]
        simp only [ok_bind]
        constructor
        · intro h
          obtain ⟨s', hs', hres⟩ := bind_ok h
          have hpair := Prod.mk.inj (Except.ok.inj hres)
          exact ⟨s', hs', hpair.1, hpair.2⟩
        · rintro ⟨s', hs', hpos, hout⟩
          rw [hs']
          show Except.ok (s'.outPos, s'.output) = _
          rw [hpos, hout]
      rw [htrip, hdec]
      constructor
      · exact fun h => Or.inr ⟨henc, h⟩
      · rintro (h | h)
        · exact absurd h hne
        · exact h.2
    · rw [RoundTrips, hpanic henc]
      refine iff_of_false (fun h => h) ?_
      rintro (h | h)
      · exact hne h
      · exact henc h.1

/-- Five blocks behind the preprocessor: the second and the third are a run of zero blocks, and
the last begins with a reference sample. -/
def steps : List Nat :=
  [10, 12, 13, 15, 20, 22, 22, 30] ++ List.replicate 16 30 ++
    [30, 31, 33, 29, 29, 40, 90, 7, 7, 6, 5, 5, 0, 255, 128, 128]

theorem lossless_short :
    RoundTrips ⟨8, 8, 4, true⟩ steps (List.replicate 64 0) (List.replicate 40 0) ∧
      zeroAt ⟨8, 8, 4, true⟩ steps 1 = true ∧ zeroAt ⟨8, 8, 4, true⟩ steps 2 = true :=
  ⟨(lossless_iff ⟨8, 8, 4, true⟩ steps (List.replicate 64 0) (List.replicate 40 0) rfl
    ⟨rfl, by decide⟩ rfl).2
      (Or.inr ⟨⟨by decide, by decide, by decide +kernel⟩, aligned_of_few (by decide)⟩),
    by decide, by decide⟩

/-- The code of the eight samples has 33 bits and no room in four octets.  Samples of two bits
have no room anywhere. -/
theorem small_output_panics :
    ¬ RoundTrips ⟨8, 8, 0, false⟩ [1, 2, 3, 4, 5, 6, 7, 8] (List.replicate 4 0)
        (List.replicate 8 0) ∧
      ¬ RoundTrips ⟨2, 8, 0, false⟩ [1, 2, 3, 0, 1, 2, 3, 0] (List.replicate 64 0)
        (List.replicate 8 0) := by
  have hfull : compress ⟨8, 8, 0, false⟩ [1, 2, 3, 4, 5, 6, 7, 8] (List.replicate 4 0) =
      .error .panic := rfl
  have hnarrow : compress ⟨2, 8, 0, false⟩ [1, 2, 3, 0, 1, 2, 3, 0] (List.replicate 64 0) =
      .error .panic := rfl
  rw [RoundTrips, RoundTrips, hfull, hnarrow]
  exact ⟨fun h => h, fun h => h⟩

end Rice
end Compression
end Leodos
