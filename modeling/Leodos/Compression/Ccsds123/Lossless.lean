/-
What `ccsds123.rs` does with an image and back.

The image comes back when the initial value of the accumulators has its own code in the header
and, in bands of several samples, the register is narrower than a word and no sample is negative.
The first two are also necessary.
-/
import Leodos.Compression.Ccsds123.LockStep

namespace Leodos
namespace Compression
namespace Ccsds123

open BitStream Emission BitReader

/-- The parameters and the image come back. -/
def RoundTrips (c : Config) (image : List UInt16) (out : Bytes) (restored : List UInt16)
    (scratch scratch' : Nat) : Prop :=
  ∃ n buf restored', compress c image out scratch = .ok (n, buf) ∧
    decompress (buf.take n) restored scratch' = .ok (c, size c, restored') ∧
    restored'.take (size c) = image

/-- An image of the parameters, with buffers for both calls. -/
structure Call (c : Config) (image : List UInt16) (out : Bytes) (restored : List UInt16)
    (scratch scratch' : Nat) : Prop where
  valid : c.validate = .ok ()
  length : image.length = size c
  range : ∀ v ∈ image, c.InRange v
  room : compress c image out scratch ≠ .error (.error .outputFull)
  restored : size c ≤ restored.length
  scratch : scratchLen c ≤ scratch
  scratch' : scratchLen c ≤ scratch'

def SmallInit (c : Config) : Prop := ∀ k, c.accumInitK = some k → k ≤ 14

theorem size_le (c : Config) : size c ≤ 281462092005375 := by
  have hx : c.nx.toNat < 65536 := c.nx.toNat_lt
  have hy : c.ny.toNat < 65536 := c.ny.toNat_lt
  have hz : c.nz.toNat < 65536 := c.nz.toNat_lt
  exact Nat.mul_le_mul (Nat.mul_le_mul (show c.nx.toNat ≤ 65535 by omega)
    (show c.ny.toNat ≤ 65535 by omega)) (show c.nz.toNat ≤ 65535 by omega)

theorem index_lt {c : Config} {p : Pos} (h : p ∈ positions c) : index c p < size c := by
  have hmem := List.mem_map_of_mem (f := index c) h
  rw [map_index_positions] at hmem
  exact List.mem_range.1 hmem

/-! ## There and back -/

section
variable {c : Config} {image : List UInt16}

theorem image_bits (hv : c.validate = .ok ()) (hlength : image.length = size c)
    (hrange : ∀ v ∈ image, c.InRange v) (hk : SmallInit c) (htame : Tame c image) :
    ∃ bits, bits.length ≤ 48 * size c ∧
      (∀ (out : Bytes) scratch, scratchLen c ≤ scratch →
        ((fieldBits (headerFields c) ++ bits).length ≤ 8 * out.length → ∃ w : BitWriter,
          w.Holds out.length (fieldBits (headerFields c) ++ bits) ∧
          compress c image out scratch = .ok (w.flush.bytesWritten, w.flush.buf)) ∧
        (8 * out.length < (fieldBits (headerFields c) ++ bits).length →
          compress c image out scratch = .error (.error .outputFull))) ∧
      ∀ (buf : Bytes) (restored : List UInt16) scratch,
        Stands buf 0 (fieldBits (headerFields c) ++ bits) → size c ≤ restored.length →
        scratchLen c ≤ scratch →
        ∃ restored', decompress buf restored scratch = .ok (c, size c, restored') ∧
          restored'.take (size c) = image := by
  have hvalid := Config.valid_of_validate hv
  obtain ⟨m, hinit, hbounded⟩ := initModel_ok hvalid hk
  have hsize := size_le c
  obtain ⟨m₁, m₁', bits, hlen, hgives, hdecode⟩ := all_steps (n := 0) hvalid htame hrange
    (fun p hp => hp) (fun p hp => by rw [hlength]; exact index_lt hp)
    (⟨fun _ => ⟨_, Agree.refl _, rfl⟩, fun _ => hbounded⟩ : LockStep c 0 m m)
    (by rw [length_positions, Nat.zero_add]; exact hsize)
  rw [length_positions] at hlen
  refine ⟨bits, hlen, fun out scratch hscratch => ?_, fun buf restored scratch hstands hrestored
    hscratch => ?_⟩
  · have hheader := ((puts_writeHeader c out.length).gives ()).bind
      (g := fun _ w => encodeLoop c image (positions c) m w) (hgives out.length)
    have hall := hheader _ [] (BitWriter.holds_new out.length) (Nat.zero_le _)
    rw [List.length_nil, Nat.zero_add, List.nil_append] at hall
    have hcompress : compress c image out scratch =
        ((writeHeader c (.new (List.replicate out.length 0)) >>= fun w => .ok ((), w)) >>=
          fun p => encodeLoop c image (positions c) m p.2) >>= fun p =>
            .ok (p.2.flush.bytesWritten, p.2.flush.buf) := by
      unfold compress
      rw [hv]
      simp only [ok_bind]
      rw [if_neg (by omega), if_neg (by omega)]
      cases writeHeader c (.new (List.replicate out.length 0)) with
      | error e => rfl
      | ok w =>
        simp only [ok_bind, hinit]
    refine ⟨fun hfit => ?_, fun hover => ?_⟩
    · obtain ⟨w, hw, hholds⟩ := hall.1 hfit
      exact ⟨w, hholds, hcompress.trans (congrArg (· >>= _) hw)⟩
    · exact hcompress.trans (congrArg (· >>= _) (hall.2 hover))
  · rw [stands_append] at hstands
    have hheader := readHeader_eq hvalid hstands.1
    have hsame : ({ c with accumInitK := storedK c.accumInitK } : Config) = c := by
      rw [storedK_eq_iff.2 hk]
    rw [hsame] at hheader
    obtain ⟨restored', hloop, hlen', himage⟩ := hdecode hstands.2
      (show image.length ≤ restored.length by omega)
    refine ⟨restored', ?_, ?_⟩
    · unfold decompress
      rw [show BitReader.new buf = behind buf 0 from rfl, hheader]
      simp only [ok_bind]
      rw [if_neg (by omega), if_neg (by omega), hinit]
      simp only [ok_bind, hloop]
    · refine List.ext_getElem? fun i => ?_
      rw [List.getElem?_take]
      by_cases hi : i < size c
      · have hget := List.getElem?_eq_getElem (show i < image.length by omega)
        rw [if_pos hi, hget]
        refine himage i _ hget (Or.inl ?_)
        rw [map_index_positions]
        exact List.mem_range.2 hi
      · rw [if_neg hi, List.getElem?_eq_none (by omega)]

theorem enough_room (hv : c.validate = .ok ()) (hlength : image.length = size c)
    (hrange : ∀ v ∈ image, c.InRange v) (hk : SmallInit c) (htame : Tame c image) {out : Bytes}
    (hout : 19 + 6 * size c ≤ out.length) {scratch : Nat} (hscratch : scratchLen c ≤ scratch) :
    ∃ n buf, compress c image out scratch = .ok (n, buf) := by
  obtain ⟨bits, hlen, hcompress, -⟩ := image_bits hv hlength hrange hk htame
  obtain ⟨w, -, hw⟩ := (hcompress out scratch hscratch).1 (by
    rw [List.length_append, length_fieldBits_header]
    omega)
  exact ⟨_, _, hw⟩

theorem roundTrips_of_tame {out : Bytes} {restored : List UInt16} {scratch scratch' : Nat}
    (h : Call c image out restored scratch scratch') (hk : SmallInit c) (htame : Tame c image) :
    RoundTrips c image out restored scratch scratch' := by
  obtain ⟨bits, hlen, hcompress, hdecompress⟩ := image_bits h.valid h.length h.range hk htame
  have hcall := hcompress out scratch h.scratch
  by_cases hfit : (fieldBits (headerFields c) ++ bits).length ≤ 8 * out.length
  · obtain ⟨w, hholds, hw⟩ := hcall.1 hfit
    obtain ⟨restored', hback, himage⟩ :=
      hdecompress _ restored scratch' (hholds.stands_take hfit) h.restored h.scratch'
    exact ⟨_, _, restored', hw, hback, himage⟩
  · exact absurd (hcall.2 (by omega)) h.room

end

/-! ## What a round trip needs -/

section
variable {c : Config} {image : List UInt16} {size : Nat}

theorem encodeAt_holds {p : Pos} {m m' : Model} {w w' : BitWriter} {done : List Bool}
    (h : w.Holds size done) (hroom : done.length ≤ 8 * size)
    (hok : encodeAt c image p m w = .ok (m', w')) :
    ∃ bits, w'.Holds size (done ++ bits) ∧ (done ++ bits).length ≤ 8 * size := by
  unfold encodeAt at hok
  obtain ⟨s, -, hok⟩ := bind_ok hok
  by_cases htime : time c p = 0
  · rw [if_pos htime] at hok
    obtain ⟨w₁, hw₁, hok⟩ := bind_ok hok
    cases hok
    exact ⟨_, (BitWriter.puts_writeBits size _ c.d).of_ok h hroom hw₁⟩
  · rw [if_neg htime] at hok
    obtain ⟨pred, -, hok⟩ := bind_ok hok
    obtain ⟨acc, -, hok⟩ := bind_ok hok
    obtain ⟨⟨sums, w₁⟩, hsample, hok⟩ := bind_ok hok
    obtain ⟨predictor, -, hok⟩ := bind_ok hok
    cases hok
    obtain ⟨k, -, hsample⟩ := bind_ok hsample
    obtain ⟨w₂, hw₂, hsample⟩ := bind_ok hsample
    obtain ⟨sums', -, hsample⟩ := bind_ok hsample
    cases hsample
    exact ⟨_, (BitWriter.puts_writeGpo2 size _ k c.uMax c.d).of_ok h hroom hw₂⟩

theorem encodeLoop_holds {ps : List Pos} {m m' : Model} {w w' : BitWriter} {done : List Bool}
    (h : w.Holds size done) (hroom : done.length ≤ 8 * size)
    (hok : encodeLoop c image ps m w = .ok (m', w')) :
    ∃ bits, w'.Holds size (done ++ bits) ∧ (done ++ bits).length ≤ 8 * size := by
  induction ps generalizing m w done with
  | nil =>
    cases hok
    refine ⟨[], ?_⟩
    rw [List.append_nil]
    exact ⟨h, hroom⟩
  | cons p ps ih =>
    obtain ⟨⟨m₁, w₁⟩, hstep, hrest⟩ := bind_ok hok
    obtain ⟨bits, h₁, hroom₁⟩ := encodeAt_holds h hroom hstep
    obtain ⟨bits', h₂, hroom₂⟩ := ih h₁ hroom₁ hrest
    rw [List.append_assoc] at h₂ hroom₂
    exact ⟨bits ++ bits', h₂, hroom₂⟩

theorem encodeLoop_visits {ps : List Pos} {m : Model} {w : BitWriter} {r : Model × BitWriter}
    (hok : encodeLoop c image ps m w = .ok r) {p : Pos} (hp : p ∈ ps) :
    ∃ m₁ w₁ r₁, encodeAt c image p m₁ w₁ = .ok r₁ := by
  induction ps generalizing m w with
  | nil => exact absurd hp List.not_mem_nil
  | cons q ps ih =>
    obtain ⟨⟨m₁, w₁⟩, hstep, hrest⟩ := bind_ok hok
    rcases List.mem_cons.1 hp with rfl | hp
    · exact ⟨m, w, (m₁, w₁), hstep⟩
    · exact ih hrest hp

theorem register_of_encodeAt {p : Pos} {m : Model} {w : BitWriter} {r : Model × BitWriter}
    (htime : 0 < time c p) (hok : encodeAt c image p m w = .ok r) : c.registerSize ≤ 63 := by
  unfold encodeAt at hok
  obtain ⟨s, -, hok⟩ := bind_ok hok
  rw [if_neg (by omega)] at hok
  obtain ⟨pred, hpred, -⟩ := bind_ok hok
  unfold predict at hpred
  obtain ⟨sigma, -, hpred⟩ := bind_ok hpred
  obtain ⟨u, -, hpred⟩ := bind_ok hpred
  obtain ⟨dHat, -, hpred⟩ := bind_ok hpred
  obtain ⟨sTilde, hhigh, -⟩ := bind_ok hpred
  unfold highResPredictedBuf at hhigh
  rw [if_pos (show 0 < p.y * c.nx.toNat + p.x from htime)] at hhigh
  dsimp only at hhigh
  split at hhigh
  · obtain ⟨residue, hmod, -⟩ := bind_ok hhigh
    unfold modStar at hmod
    split at hmod
    · cases hmod
    · omega
  · cases hhigh

theorem exists_later (hv : c.Valid) (hmany : 1 < c.nx.toNat * c.ny.toNat) :
    ∃ p ∈ positions c, 0 < time c p := by
  have hx : 0 < c.nx.toNat := Nat.pos_of_ne_zero fun h => hv.nx (UInt16.toNat.inj h)
  have hy : 0 < c.ny.toNat := Nat.pos_of_ne_zero fun h => hv.ny (UInt16.toNat.inj h)
  have hz : 0 < c.nz.toNat := Nat.pos_of_ne_zero fun h => hv.nz (UInt16.toNat.inj h)
  have hmem : ∀ {y x}, y < c.ny.toNat → x < c.nx.toNat → (⟨0, y, x⟩ : Pos) ∈ positions c := by
    intro y x hy hx
    exact List.mem_flatMap.2 ⟨0, List.mem_range.2 hz, List.mem_flatMap.2 ⟨y, List.mem_range.2 hy,
      List.mem_map.2 ⟨x, List.mem_range.2 hx, rfl⟩⟩⟩
  by_cases hwide : 1 < c.nx.toNat
  · refine ⟨⟨0, 0, 1⟩, hmem hy hwide, ?_⟩
    show 0 < 0 * c.nx.toNat + 1
    omega
  · have hone : c.nx.toNat = 1 := by omega
    rw [hone, Nat.one_mul] at hmany
    refine ⟨⟨0, 1, 0⟩, hmem hmany hx, ?_⟩
    show 0 < 1 * c.nx.toNat + 0
    omega

theorem needs_of_roundTrips {out : Bytes} {restored : List UInt16} {scratch scratch' : Nat}
    (hv : c.validate = .ok ()) (h : RoundTrips c image out restored scratch scratch') :
    SmallInit c ∧ (1 < c.nx.toNat * c.ny.toNat → c.registerSize ≤ 63) := by
  have hvalid := Config.valid_of_validate hv
  obtain ⟨n, buf, restored', hcompress, hdecompress, -⟩ := h
  unfold compress at hcompress
  obtain ⟨-, -, hcompress⟩ := bind_ok hcompress
  split at hcompress
  · cases hcompress
  split at hcompress
  · cases hcompress
  obtain ⟨w, hheader, hcompress⟩ := bind_ok hcompress
  obtain ⟨m, -, hcompress⟩ := bind_ok hcompress
  obtain ⟨⟨m', w'⟩, hloop, hcompress⟩ := bind_ok hcompress
  cases hcompress
  constructor
  · -- the header is at the start of what was written, and is read back from there
    obtain ⟨hw, hroom⟩ := (puts_writeHeader c out.length).of_ok (BitWriter.holds_new out.length)
      (Nat.zero_le _) hheader
    obtain ⟨bits, hw', hroom'⟩ := encodeLoop_holds hw hroom hloop
    have hstands := hw'.stands_take hroom'
    rw [List.nil_append, stands_append] at hstands
    have hread := readHeader_eq hvalid hstands.1
    unfold decompress at hdecompress
    rw [show ∀ data, BitReader.new data = behind data 0 from fun _ => rfl, hread] at hdecompress
    simp only [ok_bind] at hdecompress
    split at hdecompress
    · cases hdecompress
    split at hdecompress
    · cases hdecompress
    obtain ⟨m₁, -, hdecompress⟩ := bind_ok hdecompress
    obtain ⟨r, -, hdecompress⟩ := bind_ok hdecompress
    have hsame := congrArg (Prod.fst) (Except.ok.inj hdecompress)
    exact storedK_eq_iff.1 (congrArg Config.accumInitK hsame)
  · intro hmany
    obtain ⟨p, hp, htime⟩ := exists_later hvalid hmany
    obtain ⟨m₁, w₁, r₁, hstep⟩ := encodeLoop_visits hloop hp
    exact register_of_encodeAt htime hstep

end

/-! ## Lossless compression -/

/-- Without negative samples the image comes back exactly when the first sums have a code in the
header and the register is narrower than a word, or is not used. -/
theorem image_comes_back (c : Config) (image : List UInt16) (out : Bytes)
    (restored : List UInt16) (scratch scratch' : Nat)
    (h : Call c image out restored scratch scratch') :
    (SmallInit c ∧ Tame c image → RoundTrips c image out restored scratch scratch') ∧
      (RoundTrips c image out restored scratch scratch' →
        SmallInit c ∧ (1 < c.nx.toNat * c.ny.toNat → c.registerSize ≤ 63)) :=
  ⟨fun hcond => roundTrips_of_tame h hcond.1 hcond.2,
    fun htrip => needs_of_roundTrips h.valid htrip⟩

def twoSamples : Config where
  nx := 2
  ny := 1
  nz := 1
  dynamicRange := 8
  signedSamples := true
  p := 0
  mode := .reduced
  localSumType := .wideColumn
  omega := 13
  registerSize := 32
  tInc := 64
  vMin := -1
  vMax := 3
  uMax := 18
  gamma0 := 1
  gammaStar := 6
  accumInitK := none

theorem forall_two {P : UInt16 → Prop} {a b : UInt16} (ha : P a) (hb : P b) :
    ∀ v ∈ [a, b], P v :=
  List.forall_mem_cons.2 ⟨ha, List.forall_mem_singleton.2 hb⟩

/-- The first sample of a row with narrow sums may be negative. -/
theorem image_comes_back_two :
    RoundTrips { twoSamples with localSumType := .narrowColumn } [65535, 1] (List.replicate 31 0)
      [0, 0] 23 23 := by
  have hrange : ∀ v ∈ ([65535, 1] : List UInt16),
      { twoSamples with localSumType := .narrowColumn }.InRange v :=
    forall_two (by decide) (by decide)
  have hcells : ∀ p ∈ positions twoSamples,
      Unread { twoSamples with localSumType := .narrowColumn } p ∨
        ([65535, 1] : List UInt16)[index twoSamples p]? = some 1 := by decide
  have htame : Tame { twoSamples with localSumType := .narrowColumn } [65535, 1] := by
    refine ⟨fun _ => by decide, fun _ p hp hread v hv => ?_⟩
    obtain rfl : (1 : UInt16) = v :=
      Option.some.inj (((hcells p hp).resolve_left hread).symm.trans hv)
    decide
  have hroom : compress { twoSamples with localSumType := .narrowColumn } [65535, 1]
      (List.replicate 31 0) 23 ≠ .error (.error .outputFull) := by
    obtain ⟨n, buf, hok⟩ := enough_room rfl rfl hrange (fun k hk => by cases hk) htame
      (show 19 + 6 * 2 ≤ (List.replicate 31 (0 : UInt8)).length by decide)
      (show 23 ≤ 23 by decide)
    rw [hok]
    intro h
    cases h
  exact (image_comes_back { twoSamples with localSumType := .narrowColumn } [65535, 1]
    (List.replicate 31 0) [0, 0] 23 23 ⟨rfl, rfl, hrange, hroom, by decide, by decide, by decide⟩).1
    ⟨fun k hk => (by cases hk), htame⟩

set_option maxRecDepth 4000 in
/-- An initial value of 15, a register of a whole word, and a negative sample. -/
theorem image_lost :
    (Call { twoSamples with accumInitK := some 15 } [0, 1] (List.replicate 31 0) [0, 0] 23 23 ∧
      ¬ RoundTrips { twoSamples with accumInitK := some 15 } [0, 1] (List.replicate 31 0) [0, 0]
        23 23) ∧
    (Call { twoSamples with registerSize := 64 } [0, 1] (List.replicate 31 0) [0, 0] 23 23 ∧
      ¬ RoundTrips { twoSamples with registerSize := 64 } [0, 1] (List.replicate 31 0) [0, 0]
        23 23) ∧
    Call twoSamples [0, 65535] (List.replicate 31 0) [0, 0] 23 23 ∧
      ¬ RoundTrips twoSamples [0, 65535] (List.replicate 31 0) [0, 0] 23 23 := by
  have hroom : ∀ {c image}, (∃ n, (compress c image (List.replicate 31 0) 23).map Prod.fst =
      .ok n) → compress c image (List.replicate 31 0) 23 ≠ .error (.error .outputFull) := by
    intro c image hok h
    obtain ⟨n, hn⟩ := hok
    rw [h] at hn
    cases hn
  refine ⟨⟨⟨rfl, rfl, forall_two (by decide) (by decide), hroom ⟨21, rfl⟩, by decide, by decide,
    by decide⟩, fun h => ?_⟩, ⟨⟨rfl, rfl, forall_two (by decide) (by decide), fun h => ?_,
    by decide, by decide, by decide⟩, fun h => ?_⟩, ⟨rfl, rfl,
    forall_two (by decide) (by decide), hroom ⟨24, rfl⟩, by decide, by decide, by decide⟩,
    fun h => ?_⟩
  · have hsmall := (needs_of_roundTrips rfl h).1 15 rfl
    omega
  · rw [show compress { twoSamples with registerSize := 64 } [0, 1] (List.replicate 31 0) 23 =
      .error .panic from rfl] at h
    cases h
  · have hregister : 64 ≤ 63 := (needs_of_roundTrips rfl h).2 (by decide)
    omega
  · obtain ⟨n, buf, restored', hcompress, hdecompress, himage⟩ := h
    have hback : (compress twoSamples [0, 65535] (List.replicate 31 0) 23 >>= fun r =>
        decompress (r.2.take r.1) [0, 0] 23) = .ok (twoSamples, 2, [0, 1]) := rfl
    rw [hcompress, ok_bind, hdecompress] at hback
    have hsame := congrArg (fun r => r.2.2.take 2) (Except.ok.inj hback)
    rw [show (twoSamples, size twoSamples, restored').2.2.take 2 = [0, 65535] from himage] at hsame
    cases hsame

end Ccsds123
end Compression
end Leodos
