/-
The encoder of `rice.rs`.

Every step of `compress` writes the parts that its block completes, so the whole run writes the
code of the samples.  Nothing checks the room in the output: a code that is longer ends in the
panic of the bit writer.
-/
import Leodos.Compression.Rice.Code

namespace Leodos
namespace Compression
namespace Rice

open BitStream Emission

def writeRef (w : BitWriter) (n : Nat) : Option Nat → Except Stop BitWriter
  | some r => w.write r n
  | none => .ok w

def flushZeroBlocks (w : BitWriter) (idLen n : Nat) (refSample : Option Nat) (count : Nat)
    (useRos : Bool) : Except Stop BitWriter := do
  let w ← w.write 0 (idLen + 1)
  let w ← writeRef w n refSample
  if useRos = true ∧ 5 ≤ count then w.writeFs 4
  else if count ≤ 4 then w.writeFs (count - 1)
  else w.writeFs count

def writeId (w : BitWriter) (idLen : Nat) : CodingOption → Except Stop BitWriter
  | .secondExtension => w.write 1 (idLen + 1)
  | .split k => w.write (k + 1) idLen
  | .noCompression => w.write ((1 <<< idLen) - 1) idLen
  | .zeroBlock => .error .panic

/-- A pair without its second number is filled up with zero. -/
def encodePairs (w : BitWriter) : List Nat → Except Stop BitWriter
  | [] => .ok w
  | [d1] =>
    if 18446744073709551616 ≤ d1 * (d1 + 1) then .error .panic else w.writeFs (gamma d1 0)
  | d1 :: d2 :: rest =>
    if 18446744073709551616 ≤ (d1 + d2) * (d1 + d2 + 1) then .error .panic
    else do
      let w ← w.writeFs (gamma d1 d2)
      encodePairs w rest

def encodeData (w : BitWriter) (data : List Nat) (n : Nat) :
    CodingOption → Except Stop BitWriter
  | .split k => do
    let w ← data.foldlM (fun w d => w.writeFs (d >>> k)) w
    if 0 < k then data.foldlM (fun w d => w.write (d &&& ((1 <<< k) - 1)) k) w else .ok w
  | .secondExtension => encodePairs w data
  | .noCompression => data.foldlM (fun w d => w.write d n) w
  | .zeroBlock => .ok w

/-- What the loop of `compress` carries from block to block. -/
structure Encoder where
  w : BitWriter
  prevSample : Nat
  zeroRun : Nat
  zeroRef : Option Nat
  segRemaining : Nat
  deriving DecidableEq, Repr

def nextSeg (c : Config) (blk segRemaining : Nat) : Nat :=
  if segRemaining - 1 = 0 then segSize c (blk + 1) else segRemaining - 1

/-- A zero block joins the run; the run is written at the end of its segment or of the input. -/
def encodeZero (c : Config) (numBlocks blk : Nat) (refSample : Option Nat) (s : Encoder) :
    Except Stop Encoder :=
  if s.segRemaining = 0 then .error .panic
  else if s.segRemaining - 1 = 0 ∨ blk = numBlocks - 1 then do
    let w ← flushZeroBlocks s.w c.idLen c.bitsPerSample
      (if s.zeroRun = 0 then refSample else s.zeroRef) (s.zeroRun + 1)
      (decide (s.segRemaining - 1 = 0) && decide (5 ≤ s.zeroRun + 1))
    .ok ⟨w, s.prevSample, 0, none, nextSeg c blk s.segRemaining⟩
  else .ok ⟨s.w, s.prevSample, s.zeroRun + 1, if s.zeroRun = 0 then refSample else s.zeroRef,
    s.segRemaining - 1⟩

def flushPending (c : Config) (s : Encoder) : Except Stop BitWriter :=
  if 0 < s.zeroRun then flushZeroBlocks s.w c.idLen c.bitsPerSample s.zeroRef s.zeroRun false
  else .ok s.w

/-- Any other block is written after the run before it. -/
def encodeCoded (c : Config) (blk : Nat) (refSample : Option Nat) (data : List Nat)
    (option : CodingOption) (s : Encoder) : Except Stop Encoder := do
  let w ← flushPending c s
  if s.segRemaining = 0 then .error .panic
  else do
    let w ← writeId w c.idLen option
    let w ← writeRef w c.bitsPerSample refSample
    let w ← encodeData w data c.bitsPerSample option
    .ok ⟨w, s.prevSample, 0, if 0 < s.zeroRun then none else s.zeroRef,
      nextSeg c blk s.segRemaining⟩

def blockData (c : Config) (block : List Nat) (blk prev : Nat) : Except Stop (List Nat) :=
  if c.preprocessor then preprocessBlock block (c.isRef blk) prev c.xMax else .ok block

def encodeBlock (c : Config) (samples : List Nat) (numBlocks : Nat) (s : Encoder) (blk : Nat) :
    Except Stop Encoder := do
  let block := (samples.drop (blk * c.blockSize)).take c.blockSize
  let data ← blockData c block blk s.prevSample
  let s := { s with prevSample := block.getD (c.blockSize - 1) 0 }
  -- `(1 << id_len) - 3` goes below zero
  if 1 <<< c.idLen < 3 then .error .panic
  else do
    let option ← selectOption data c.bitsPerSample c.idLen
      (min ((1 <<< c.idLen) - 3) (c.bitsPerSample - 2))
    let refSample := if c.isRef blk then some (block.getD 0 0) else none
    match option with
    | .zeroBlock => encodeZero c numBlocks blk refSample s
    | option => encodeCoded c blk refSample data option s

def compress (c : Config) (samples : List Nat) (output : Bytes) : Except Stop (Nat × Bytes) := do
  c.validate
  if samples = [] then .ok (0, output)
  else if samples.length % c.blockSize ≠ 0 then .error (.error .invalidConfig)
  else do
    let numBlocks := samples.length / c.blockSize
    let s ← (List.range numBlocks).foldlM (encodeBlock c samples numBlocks)
      ⟨.new output, 0, 0, none, segSize c 0⟩
    .ok (s.w.bytesWritten, s.w.buf)

/-! ## What the writers put down -/

section
variable (size : Nat)

theorem puts_writeRef (n : Nat) (refSample : Option Nat) :
    Puts (BitWriter.medium size) (refBits n refSample) (fun w => writeRef w n refSample) := by
  cases refSample with
  | none => exact puts_pure
  | some r => exact BitWriter.puts_write size r n

theorem puts_writeId (idLen : Nat) {option : CodingOption} (h : option ≠ .zeroBlock) :
    Puts (BitWriter.medium size) (idBits idLen option) (fun w => writeId w idLen option) := by
  cases option with
  | zeroBlock => exact absurd rfl h
  | secondExtension => exact BitWriter.puts_write size 1 (idLen + 1)
  | split k => exact BitWriter.puts_write size (k + 1) idLen
  | noCompression => exact BitWriter.puts_write size _ idLen

theorem puts_flushZeroBlocks (c : Config) (refSample : Option Nat) {count : Nat}
    (hcount : count < 4294967296) (ros : Bool) :
    Puts (BitWriter.medium size) (idBits c.idLen .zeroBlock ++ (refBits c.bitsPerSample refSample ++
      unary (runCode count ros)))
      (fun w => flushZeroBlocks w c.idLen c.bitsPerSample refSample count ros) := by
  refine (BitWriter.puts_write size 0 (c.idLen + 1)).bind
    ((puts_writeRef size c.bitsPerSample refSample).bind ?_)
  unfold runCode
  by_cases hros : ros = true ∧ 5 ≤ count
  · rw [if_pos hros]
    simp only [if_pos hros]
    exact BitWriter.puts_writeFs size (by decide)
  · rw [if_neg hros]
    simp only [if_neg hros]
    by_cases hfour : count ≤ 4
    · rw [if_pos hfour]
      simp only [if_pos hfour]
      exact BitWriter.puts_writeFs size (by omega)
    · rw [if_neg hfour]
      simp only [if_neg hfour]
      exact BitWriter.puts_writeFs size hcount

theorem puts_encodePairs {data : List Nat} (heven : data.length % 2 = 0)
    (htotal : pairTotal data < 4294967296) :
    Puts (BitWriter.medium size) (pairBits data) (fun w => encodePairs w data) := by
  induction data using pairTotal.induct with
  | case1 d1 d2 rest ih =>
    rw [pairTotal] at htotal
    rw [List.length_cons, List.length_cons] at heven
    have hproduct : ¬ 18446744073709551616 ≤ (d1 + d2) * (d1 + d2 + 1) := by
      rw [gamma] at htotal
      omega
    have hrest := ih (by omega) (by omega)
    have hpair := (BitWriter.puts_writeFs size (show gamma d1 d2 < 4294967296 by omega)).bind hrest
    simp only [encodePairs, if_neg hproduct]
    exact hpair
  | case2 data hshort =>
    rcases data with _ | ⟨d1, _ | ⟨d2, rest⟩⟩
    · exact puts_pure
    · rw [List.length_singleton] at heven
      exact absurd heven (by decide)
    · exact absurd rfl (hshort d1 d2 rest)

theorem puts_encodeData {data : List Nat} (n : Nat) {bound maxK : Nat}
    (hbound : bound < 4294967296) {option : CodingOption} (h : Affordable data bound maxK option) :
    Puts (BitWriter.medium size) (dataBits n data option)
      (fun w => encodeData w data n option) := by
  cases option with
  | zeroBlock => exact h.elim
  | noCompression => exact puts_foldlM (fun d _ => BitWriter.puts_write size d n)
  | secondExtension => exact puts_encodePairs size h.1 (Nat.lt_of_le_of_lt h.2 hbound)
  | split k =>
    have hcodes : ∀ d ∈ data, Puts (BitWriter.medium size) (unary (d >>> k))
        (fun w => w.writeFs (d >>> k)) := by
      intro d hd
      have hshift := shift_le_costSplit hd k
      have hcost := h.2
      exact BitWriter.puts_writeFs size (by omega)
    have hlow : ∀ d ∈ data, Puts (BitWriter.medium size) (bitsOf k d)
        (fun w => w.write (d &&& ((1 <<< k) - 1)) k) := by
      intro d _
      have hwrite := BitWriter.puts_write size (d &&& ((1 <<< k) - 1)) k
      rw [bitsOf_mask] at hwrite
      exact hwrite
    refine (puts_foldlM hcodes).bind ?_
    by_cases hk : 0 < k
    · simp only [if_pos hk]
      exact puts_foldlM hlow
    · obtain rfl : k = 0 := by omega
      have hnone : data.flatMap (bitsOf 0) = [] := List.flatMap_eq_nil_iff.2 (fun _ _ => rfl)
      rw [hnone]
      exact puts_pure

end

/-! ## Parts -/

def writePart (c : Config) (samples : List Nat) (w : BitWriter) : Part → Except Stop BitWriter
  | .zeros start count ros =>
    flushZeroBlocks w c.idLen c.bitsPerSample (refAt c samples start) count ros
  | .coded blk => do
    let w ← writeId w c.idLen (optionAt c samples blk)
    let w ← writeRef w c.bitsPerSample (refAt c samples blk)
    encodeData w (dataAt c samples blk) c.bitsPerSample (optionAt c samples blk)

section
variable {c : Config} {samples : List Nat}

theorem length_dataAt_le (hv : c.Valid) {blk : Nat} (hblk : blk < numBlocks c samples) :
    (dataAt c samples blk).length ≤ 64 := by
  have hsize := hv.block_bounds
  rw [length_dataAt hblk]
  split
  · omega
  · omega

theorem puts_coded (hv : c.Valid) (size : Nat) {blk : Nat} (hblk : blk < numBlocks c samples)
    (hzero : ¬ zeroAt c samples blk = true) :
    Puts (BitWriter.medium size) ((Part.coded blk).bits c samples)
      (fun w => writePart c samples w (.coded blk)) := by
  have hoption : optionAt c samples blk ≠ .zeroBlock := fun h => hzero (optionAt_zero_iff.1 h)
  have hdata := length_dataAt_le hv hblk
  have hbound : (dataAt c samples blk).length * c.bitsPerSample + c.idLen < 4294967296 := by
    have hmul : (dataAt c samples blk).length * c.bitsPerSample ≤ 64 * 32 :=
      Nat.mul_le_mul hdata hv.bits.2
    have hid := c.idLen_le
    omega
  exact (puts_writeId size c.idLen hoption).bind ((puts_writeRef size c.bitsPerSample _).bind
    (puts_encodeData size c.bitsPerSample hbound (optionAt_affordable hzero)))

theorem puts_partsAt (hv : c.Valid) (size : Nat) {blk run : Nat} (hblk : blk < numBlocks c samples)
    (hrun : run < 4294967295) :
    Puts (BitWriter.medium size)
      ((partsAt c samples (numBlocks c samples) blk run).flatMap (Part.bits c samples))
      (fun w =>
        (partsAt c samples (numBlocks c samples) blk run).foldlM (writePart c samples) w) := by
  apply puts_foldlM
  intro part hpart
  have hzeros : ∀ start count ros, count < 4294967296 → Puts (BitWriter.medium size)
      ((Part.zeros start count ros).bits c samples)
      (fun w => writePart c samples w (.zeros start count ros)) :=
    fun start count ros hcount => puts_flushZeroBlocks size c _ hcount ros
  unfold partsAt at hpart
  by_cases hzero : zeroAt c samples blk = true
  · rw [if_pos hzero] at hpart
    by_cases hends : runEnds c (numBlocks c samples) blk
    · rw [if_pos hends, List.mem_singleton] at hpart
      rw [hpart]
      exact hzeros _ _ _ (by omega)
    · rw [if_neg hends] at hpart
      exact absurd hpart List.not_mem_nil
  · rw [if_neg hzero, List.mem_append, List.mem_singleton] at hpart
    rcases hpart with hpart | hpart
    · by_cases hnone : run = 0
      · rw [if_pos hnone] at hpart
        exact absurd hpart List.not_mem_nil
      · rw [if_neg hnone, List.mem_singleton] at hpart
        rw [hpart]
        exact hzeros _ _ _ (by omega)
    · rw [hpart]
      exact puts_coded hv size hblk hzero

/-! ## Steps -/

/-- The state of the encoder in front of a block, after a run of zero blocks. -/
structure Ready (c : Config) (samples : List Nat) (blk run : Nat) (s : Encoder) : Prop where
  prev : s.prevSample = prevAt c samples blk
  zeroRun : s.zeroRun = run
  zeroRef : run ≠ 0 → s.zeroRef = refAt c samples (blk - run)
  seg : s.segRemaining = segAt c blk

theorem blockData_eq (hv : c.Valid) (hs : Fitting c samples) {blk : Nat}
    (hblk : blk < numBlocks c samples) :
    blockData c (blockAt c samples blk) blk (prevAt c samples blk) =
      .ok (dataAt c samples blk) := by
  unfold blockData dataAt preprocessBlock
  by_cases hpre : c.preprocessor = true
  · rw [if_pos hpre, if_pos hpre]
    by_cases href : c.isRef blk = true
    · rw [if_pos href, if_pos href]
      have htail : ∀ x ∈ (blockAt c samples blk).drop 1, x ≤ c.xMax :=
        fun x hx => blockAt_le hs blk x (List.mem_of_mem_drop hx)
      rw [← preprocessLoop_eq (firstAt_le hs blk) htail, blockAt_eq_cons hv hblk]
      rfl
    · rw [if_neg href, if_neg href]
      exact preprocessLoop_eq (prevAt_le hs blk) (blockAt_le hs blk)
  · rw [if_neg hpre, if_neg hpre]

section Turns

variable {blk run : Nat} {s : Encoder} (hprev : s.prevSample = prevAt c samples (blk + 1))
  (hrun : s.zeroRun = run) (href : run ≠ 0 → s.zeroRef = refAt c samples (blk - run))
  (hseg : s.segRemaining = segAt c blk)

include hprev hrun href hseg

theorem encodeZero_eq (hblk : blk < numBlocks c samples) (hzero : zeroAt c samples blk = true) :
    ∃ next : BitWriter → Encoder,
      (∀ w, (next w).w = w ∧ Ready c samples (blk + 1)
        (runAfter c samples (numBlocks c samples) blk run) (next w)) ∧
      encodeZero c (numBlocks c samples) blk (refAt c samples blk) s =
        (partsAt c samples (numBlocks c samples) blk run).foldlM (writePart c samples) s.w >>=
          fun w => .ok (next w) := by
  have hbounds := segAt_bounds c blk
  have hzeroRef : (if s.zeroRun = 0 then refAt c samples blk else s.zeroRef) =
      refAt c samples (blk - run) := by
    by_cases hnone : run = 0
    · rw [if_pos (hrun.trans hnone), hnone, Nat.sub_zero]
    · rw [if_neg (fun h => hnone (hrun.symm.trans h)), href hnone]
  have hseg' : nextSeg c blk (segAt c blk) = segAt c (blk + 1) := rfl
  unfold encodeZero partsAt runAfter
  rw [if_neg (show ¬ s.segRemaining = 0 by omega), hzeroRef, hseg, hseg', hrun, if_pos hzero]
  by_cases hends : runEnds c (numBlocks c samples) blk
  · have hlast : segAt c blk - 1 = 0 ∨ blk = numBlocks c samples - 1 := by
      rcases hends with hends | hends
      · exact Or.inl (by omega)
      · exact Or.inr (by omega)
    have hafter : ¬ (zeroAt c samples blk = true ∧ ¬ runEnds c (numBlocks c samples) blk) :=
      fun h => h.2 hends
    have hros : flushZeroBlocks s.w c.idLen c.bitsPerSample (refAt c samples (blk - run)) (run + 1)
        (decide (segAt c blk - 1 = 0) && decide (5 ≤ run + 1)) =
        flushZeroBlocks s.w c.idLen c.bitsPerSample (refAt c samples (blk - run)) (run + 1)
          (decide (segAt c blk = 1)) := by
      have hiff : ((decide (segAt c blk - 1 = 0) && decide (5 ≤ run + 1)) = true ∧ 5 ≤ run + 1) ↔
          (decide (segAt c blk = 1) = true ∧ 5 ≤ run + 1) := by
        rw [Bool.and_eq_true, decide_eq_true_iff, decide_eq_true_iff, decide_eq_true_iff]
        omega
      simp only [flushZeroBlocks, hiff]
    refine ⟨fun w => ⟨w, s.prevSample, 0, none, segAt c (blk + 1)⟩, fun w => ⟨rfl, hprev, ?_, ?_,
      rfl⟩, ?_⟩
    · rw [if_neg hafter]
    · rw [if_neg hafter]
      exact fun h => absurd rfl h
    · rw [if_pos hends, if_pos hlast, hros]
      show _ = (flushZeroBlocks s.w c.idLen c.bitsPerSample (refAt c samples (blk - run)) (run + 1)
        (decide (segAt c blk = 1)) >>= fun w => .ok w) >>= _
      cases flushZeroBlocks s.w c.idLen c.bitsPerSample (refAt c samples (blk - run)) (run + 1)
          (decide (segAt c blk = 1)) with
      | error stop => rfl
      | ok w => rfl
  · have hlast : ¬ (segAt c blk - 1 = 0 ∨ blk = numBlocks c samples - 1) := by
      rintro (h | h)
      · exact hends (Or.inl (by omega))
      · exact hends (Or.inr (by omega))
    refine ⟨fun w => ⟨w, s.prevSample, run + 1, refAt c samples (blk - run), segAt c blk - 1⟩,
      fun w => ⟨rfl, hprev, ?_, ?_, ?_⟩, ?_⟩
    · rw [if_pos ⟨hzero, hends⟩]
    · rw [if_pos ⟨hzero, hends⟩, Nat.add_sub_add_right]
      exact fun _ => rfl
    · show segAt c blk - 1 = segAt c (blk + 1)
      rw [segAt, if_neg (fun h => hlast (Or.inl h))]
    · rw [if_neg hends, if_neg hlast]
      rfl

theorem encodeCoded_eq (hzero : ¬ zeroAt c samples blk = true) :
    ∃ next : BitWriter → Encoder,
      (∀ w, (next w).w = w ∧ Ready c samples (blk + 1)
        (runAfter c samples (numBlocks c samples) blk run) (next w)) ∧
      encodeCoded c blk (refAt c samples blk) (dataAt c samples blk) (optionAt c samples blk) s =
        (partsAt c samples (numBlocks c samples) blk run).foldlM (writePart c samples) s.w >>=
          fun w => .ok (next w) := by
  have hbounds := segAt_bounds c blk
  have hafter : ¬ (zeroAt c samples blk = true ∧ ¬ runEnds c (numBlocks c samples) blk) :=
    fun h => hzero h.1
  have hseg' : nextSeg c blk (segAt c blk) = segAt c (blk + 1) := rfl
  refine ⟨fun w => ⟨w, s.prevSample, 0, if 0 < s.zeroRun then none else s.zeroRef,
    segAt c (blk + 1)⟩, fun w => ⟨rfl, hprev, ?_, ?_, rfl⟩, ?_⟩
  · rw [runAfter, if_neg hafter]
  · rw [runAfter, if_neg hafter]
    exact fun h => absurd rfl h
  · unfold encodeCoded partsAt
    rw [if_neg hzero, hseg, hseg']
    simp only [if_neg (show ¬ segAt c blk = 0 by omega), flushPending, hrun]
    have hcoded : ∀ w, [Part.coded blk].foldlM (writePart c samples) w =
        (writePart c samples w (.coded blk) >>= fun w => .ok w) := fun _ => rfl
    by_cases hnone : run = 0
    · rw [if_neg (by omega), if_pos hnone, List.nil_append, hcoded]
      show (writeId s.w c.idLen _ >>= _) = (((writeId s.w c.idLen _ >>= _) >>= _) >>= _)
      simp only [bind_assoc]
      rfl
    · rw [if_pos (by omega), if_neg hnone, href hnone]
      show (flushZeroBlocks s.w c.idLen c.bitsPerSample (refAt c samples (blk - run)) run false >>=
        _) = ((flushZeroBlocks s.w c.idLen c.bitsPerSample (refAt c samples (blk - run)) run
          false >>= fun w => [Part.coded blk].foldlM (writePart c samples) w) >>= _)
      simp only [hcoded, writePart, bind_assoc]
      rfl

end Turns

theorem encodeBlock_eq (hv : c.Valid) (hs : Fitting c samples) (hwide : 3 ≤ c.bitsPerSample)
    {blk run : Nat} (hblk : blk < numBlocks c samples) {s : Encoder}
    (hready : Ready c samples blk run s) :
    ∃ next : BitWriter → Encoder,
      (∀ w, (next w).w = w ∧ Ready c samples (blk + 1)
        (runAfter c samples (numBlocks c samples) blk run) (next w)) ∧
      encodeBlock c samples (numBlocks c samples) s blk =
        if PairsFit c.idLen (dataAt c samples blk) then
          (partsAt c samples (numBlocks c samples) blk run).foldlM (writePart c samples) s.w >>=
            fun w => .ok (next w)
        else .error .panic := by
  have hdata : blockData c ((samples.drop (blk * c.blockSize)).take c.blockSize) blk s.prevSample =
      .ok (dataAt c samples blk) := by
    rw [hready.prev]
    exact blockData_eq hv hs hblk
  have hids : ¬ 1 <<< c.idLen < 3 := by
    have hpow : 2 ^ 2 ≤ 2 ^ c.idLen := Nat.pow_le_pow_right (by decide) (hv.two_le_idLen hwide)
    rw [Nat.one_shiftLeft]
    omega
  have hselect := selectOption_eq c.bitsPerSample (maxK c) (length_dataAt_le hv hblk) c.idLen_le
  have hstep : encodeBlock c samples (numBlocks c samples) s blk =
      (selectOption (dataAt c samples blk) c.bitsPerSample c.idLen (maxK c) >>= fun option =>
        match option with
        | .zeroBlock => encodeZero c (numBlocks c samples) blk (refAt c samples blk)
            { s with prevSample := prevAt c samples (blk + 1) }
        | option => encodeCoded c blk (refAt c samples blk) (dataAt c samples blk) option
            { s with prevSample := prevAt c samples (blk + 1) }) := by
    rw [encodeBlock, hdata]
    show (if 1 <<< c.idLen < 3 then _ else _) = _
    rw [if_neg hids]
    rfl
  rw [hstep, hselect]
  by_cases hzero : zeroAt c samples blk = true
  · obtain ⟨next, hnext, hrun⟩ := encodeZero_eq
      (s := { s with prevSample := prevAt c samples (blk + 1) }) rfl hready.zeroRun hready.zeroRef
      hready.seg hblk hzero
    refine ⟨next, hnext, ?_⟩
    by_cases hfits : PairsFit c.idLen (dataAt c samples blk)
    · rw [if_pos hfits, if_pos hfits, ← hrun]
      have hoption : bestOption (dataAt c samples blk) c.bitsPerSample c.idLen (maxK c) =
          .zeroBlock := optionAt_zero_iff.2 hzero
      rw [hoption]
      rfl
    · rw [if_neg hfits, if_neg hfits]
      rfl
  · obtain ⟨next, hnext, hrun⟩ := encodeCoded_eq
      (s := { s with prevSample := prevAt c samples (blk + 1) }) rfl hready.zeroRun hready.zeroRef
      hready.seg hzero
    refine ⟨next, hnext, ?_⟩
    by_cases hfits : PairsFit c.idLen (dataAt c samples blk)
    · rw [if_pos hfits, if_pos hfits, ← hrun]
      have hoption : optionAt c samples blk ≠ .zeroBlock := fun h => hzero (optionAt_zero_iff.1 h)
      show (match optionAt c samples blk with
        | .zeroBlock => _
        | option => encodeCoded c blk (refAt c samples blk) (dataAt c samples blk) option _) = _
      cases hopt : optionAt c samples blk with
      | zeroBlock => exact absurd hopt hoption
      | secondExtension => rfl
      | split k => rfl
      | noCompression => rfl
    · rw [if_neg hfits, if_neg hfits]
      rfl

theorem runAfter_bounds {total blk run : Nat} (h : run + segAt c blk ≤ 64) :
    runAfter c samples total blk run + segAt c (blk + 1) ≤ 64 := by
  have hnext := segAt_bounds c (blk + 1)
  have hhere := segAt_bounds c blk
  unfold runAfter
  by_cases hon : zeroAt c samples blk = true ∧ ¬ runEnds c total blk
  · rw [if_pos hon]
    have hone : segAt c blk ≠ 1 := fun hone => hon.2 (Or.inl hone)
    have hsucc := segAt_succ_of_lt (show 1 < segAt c blk by omega)
    omega
  · rw [if_neg hon]
    omega

/-- The encoder writes the code of the blocks to come, or panics: when a cost overflows, and
when the code has no room. -/
theorem encodeBlocks_spec (hv : c.Valid) (hs : Fitting c samples) (hwide : 3 ≤ c.bitsPerSample)
    {size m blk run : Nat} (hm : blk + m = numBlocks c samples) {s : Encoder}
    (hready : Ready c samples blk run s) (hrun : run + segAt c blk ≤ 64) {done : List Bool}
    (hholds : s.w.Holds size done) (hroom : done.length ≤ 8 * size) :
    ((∀ b, blk ≤ b → b < numBlocks c samples → PairsFit c.idLen (dataAt c samples b)) ∧
        done.length + (codeFrom c samples m blk run).length ≤ 8 * size →
      ∃ s', (List.range' blk m).foldlM (encodeBlock c samples (numBlocks c samples)) s = .ok s' ∧
        s'.w.Holds size (done ++ codeFrom c samples m blk run)) ∧
    (¬ ((∀ b, blk ≤ b → b < numBlocks c samples → PairsFit c.idLen (dataAt c samples b)) ∧
        done.length + (codeFrom c samples m blk run).length ≤ 8 * size) →
      (List.range' blk m).foldlM (encodeBlock c samples (numBlocks c samples)) s =
        .error .panic) := by
  induction m generalizing blk run s done with
  | zero =>
    refine ⟨fun _ => ⟨s, rfl, ?_⟩, fun hnot => absurd ⟨fun b hb hlt => ?_, hroom⟩ hnot⟩
    · show s.w.Holds size (done ++ [])
      rw [List.append_nil]
      exact hholds
    · omega
  | succ m ih =>
    have hblk : blk < numBlocks c samples := by omega
    obtain ⟨next, hnext, hstep⟩ := encodeBlock_eq hv hs hwide hblk hready
    have hparts := puts_partsAt hv size hblk (show run < 4294967295 by omega) s.w done hholds hroom
    rw [List.range'_succ, List.foldlM_cons, hstep, codeFrom_succ, List.length_append]
    by_cases hfits : PairsFit c.idLen (dataAt c samples blk)
    · rw [if_pos hfits]
      by_cases hfit : done.length + ((partsAt c samples (numBlocks c samples) blk run).flatMap
          (Part.bits c samples)).length ≤ 8 * size
      · obtain ⟨w, hw, hholds'⟩ := hparts.1 hfit
        replace hw : (partsAt c samples (numBlocks c samples) blk run).foldlM
          (writePart c samples) s.w = .ok w := hw
        rw [hw]
        show (_ → ∃ s', (List.range' (blk + 1) m).foldlM _ (next w) = _ ∧ _) ∧
          (_ → (List.range' (blk + 1) m).foldlM _ (next w) = _)
        have hrest := ih (by omega) (hnext w).2 (runAfter_bounds hrun)
          (by rw [(hnext w).1]; exact hholds') (by rw [List.length_append]; exact hfit)
        rw [List.length_append, List.append_assoc] at hrest
        constructor
        · intro h
          exact hrest.1 ⟨fun b hb => h.1 b (by omega), by omega⟩
        · intro hnot
          refine hrest.2 (fun h => hnot ⟨fun b hb hlt => ?_, by omega⟩)
          by_cases hhere : b = blk
          · rw [hhere]
            exact hfits
          · exact h.1 b (by omega) hlt
      · have hpanic : (partsAt c samples (numBlocks c samples) blk run).foldlM
            (writePart c samples) s.w = .error .panic := hparts.2 (Nat.lt_of_not_le hfit)
        rw [hpanic]
        exact ⟨fun h => by omega, fun _ => rfl⟩
    · rw [if_neg hfits]
      exact ⟨fun h => absurd (h.1 blk (Nat.le_refl _) hblk) hfits, fun _ => rfl⟩

/-- What `compress` needs to return: ids for the options, costs in their range, and room. -/
def Encodable (c : Config) (samples : List Nat) (size : Nat) : Prop :=
  3 ≤ c.bitsPerSample ∧
    (∀ blk, blk < numBlocks c samples → PairsFit c.idLen (dataAt c samples blk)) ∧
    (code c samples).length ≤ 8 * size

theorem encodeBlock_narrow (hv : c.Valid) (hs : Fitting c samples) (hn : c.bitsPerSample ≤ 2)
    {blk : Nat} (hblk : blk < numBlocks c samples) {s : Encoder}
    (hprev : s.prevSample = prevAt c samples blk) :
    encodeBlock c samples (numBlocks c samples) s blk = .error .panic := by
  have hdata : blockData c ((samples.drop (blk * c.blockSize)).take c.blockSize) blk s.prevSample =
      .ok (dataAt c samples blk) := by
    rw [hprev]
    exact blockData_eq hv hs hblk
  rw [encodeBlock, hdata, hv.idLen_eq_one hn]
  rfl

theorem compress_nil (hv : c.Valid) (output : Bytes) : compress c [] output = .ok (0, output) := by
  rw [compress, Config.validate_ok_iff.2 hv]
  rfl

theorem compress_spec (hv : c.Valid) (hs : Fitting c samples) (hne : samples ≠ [])
    (output : Bytes) :
    (Encodable c samples output.length → ∃ len buf, compress c samples output = .ok (len, buf) ∧
      Stands (buf.take len) 0 (code c samples)) ∧
    (¬ Encodable c samples output.length → compress c samples output = .error .panic) := by
  have hstart : compress c samples output =
      ((List.range' 0 (numBlocks c samples)).foldlM (encodeBlock c samples (numBlocks c samples))
        ⟨.new output, 0, 0, none, segSize c 0⟩ >>= fun s => .ok (s.w.bytesWritten, s.w.buf)) := by
    rw [compress, Config.validate_ok_iff.2 hv]
    show (if samples = [] then _ else _) = _
    rw [if_neg hne, if_neg (not_not_intro hs.whole), ← List.range_eq_range']
    rfl
  have hready : Ready c samples 0 0 ⟨.new output, 0, 0, none, segSize c 0⟩ :=
    ⟨rfl, rfl, fun h => absurd rfl h, rfl⟩
  rw [hstart]
  by_cases hwide : 3 ≤ c.bitsPerSample
  · have hseg := segAt_bounds c 0
    have hrun := encodeBlocks_spec hv hs hwide (Nat.zero_add _) hready (by omega)
      (BitWriter.holds_new output) (Nat.zero_le _)
    rw [List.nil_append, List.length_nil, Nat.zero_add] at hrun
    constructor
    · intro henc
      obtain ⟨s', hs', hholds⟩ := hrun.1 ⟨fun b _ => henc.2.1 b, henc.2.2⟩
      rw [hs']
      exact ⟨_, _, rfl, hholds.stands_take henc.2.2⟩
    · intro hnot
      rw [hrun.2 (fun h => hnot ⟨hwide, fun b => h.1 b (Nat.zero_le b), h.2⟩)]
      rfl
  · refine ⟨fun henc => absurd henc.1 hwide, fun _ => ?_⟩
    have hblocks : 0 < numBlocks c samples := by
      have hsize := hv.block_bounds
      have hdiv := Nat.div_add_mod samples.length c.blockSize
      have hpos := List.length_pos_iff.2 hne
      rw [hs.whole] at hdiv
      apply Nat.pos_of_ne_zero
      intro hzero
      rw [numBlocks] at hzero
      rw [hzero] at hdiv
      omega
    obtain ⟨m, hm⟩ := Nat.exists_eq_succ_of_ne_zero (Nat.pos_iff_ne_zero.1 hblocks)
    rw [hm, List.range'_succ, List.foldlM_cons, ← hm,
      encodeBlock_narrow hv hs (by omega) hblocks rfl]
    rfl

end

end Rice
end Compression
end Leodos
