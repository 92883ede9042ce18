/-
Five levels of the integer wavelet transform.

The forward transform splits the front of its buffer again and again; the inverse computes the
lengths of these fronts anew and walks through them backwards.
-/
import Leodos.Compression.Iwt.Single

namespace Leodos
namespace Compression
namespace Iwt

open Memory

def IWT_LEVELS : Nat := 5

/-- The capacity of the copy that a level works on. -/
def COPY : Nat := 4096

section Loops

variable (checks : Bool)

def forwardLevel (output : List Int32) (currentLen : Nat) : Option (List Int32) := do
  let src := output.take currentLen
  if COPY < src.length then none
  else
    let (l, h) ← iwtForwardSingle checks src
    return l ++ h ++ output.drop currentLen

def forwardLoop : Nat → List Int32 → Nat → Option (List Int32)
  | 0, output, _ => some output
  | levels + 1, output, currentLen =>
    if currentLen ≤ 1 then some output
    else do
      let output ← forwardLevel checks output currentLen
      forwardLoop levels output ((currentLen + 1) / 2)

def iwtForward5 (input : List Int32) : Option (List Int32) :=
  forwardLoop checks IWT_LEVELS input input.length

/-- The entries of `sizes` after one that holds `size`; those that the loop does not reach
stay zero. -/
def sizesAfter : Nat → Nat → List Nat
  | 0, _ => []
  | levels + 1, size =>
    (size + 1) / 2 ::
      if size ≤ 1 then List.replicate levels 0 else sizesAfter levels ((size + 1) / 2)

def sizes (levels n : Nat) : List Nat := n :: sizesAfter levels n

def levelsUsed (levels n : Nat) : Nat :=
  min ((sizes levels n).takeWhile fun size => 1 < size).length levels

def inverseLevel (output : List Int32) (currentLen : Nat) : Option (List Int32) := do
  let p := (currentLen + 1) / 2
  let q := currentLen / 2
  let x ← iwtInverseSingle checks (output.take p) ((output.drop p).take q)
  return x ++ output.drop currentLen

def iwtInverse5 (input : List Int32) : Option (List Int32) :=
  let n := input.length
  (List.range (levelsUsed IWT_LEVELS n)).reverse.foldlM
    (fun output level => inverseLevel checks output ((sizes IWT_LEVELS n).getD level 0)) input

end Loops

/-! ## The levels of both directions -/

/-- The lengths of the fronts that the forward transform splits. -/
def fronts : Nat → Nat → List Nat
  | 0, _ => []
  | levels + 1, n => if n ≤ 1 then [] else n :: fronts levels ((n + 1) / 2)

variable {checks : Bool}

theorem forwardLoop_eq (levels : Nat) (output : List Int32) (n : Nat) :
    forwardLoop checks levels output n = (fronts levels n).foldlM (forwardLevel checks) output := by
  induction levels generalizing output n with
  | zero => rfl
  | succ levels ih =>
    rw [forwardLoop, fronts]
    by_cases h : n ≤ 1
    · rw [if_pos h, if_pos h]
      rfl
    · rw [if_neg h, if_neg h, List.foldlM_cons]
      exact congrArg _ (funext fun output => ih output _)

theorem fronts_eq (levels n : Nat) :
    fronts levels n = ((sizes levels n).takeWhile fun size => 1 < size).take levels := by
  induction levels generalizing n with
  | zero => rw [fronts, List.take_zero]
  | succ levels ih =>
    rw [fronts, sizes, sizesAfter]
    by_cases h : n ≤ 1
    · rw [if_pos h, List.takeWhile_cons_of_neg (by simpa using h), List.take_nil]
    · rw [if_neg h, if_neg h, List.takeWhile_cons_of_pos (by simpa using h),
        List.take_succ_cons, ih, sizes]

theorem levelsUsed_eq (levels n : Nat) : levelsUsed levels n = (fronts levels n).length := by
  rw [levelsUsed, fronts_eq, List.length_take, Nat.min_comm]

theorem map_sizes (levels n : Nat) :
    (List.range (levelsUsed levels n)).map (fun level => (sizes levels n).getD level 0) =
      fronts levels n := by
  apply List.ext_getElem?
  intro i
  rw [List.getElem?_map]
  by_cases hi : i < levelsUsed levels n
  · have hlt : i < (fronts levels n).length := by rwa [← levelsUsed_eq]
    have hprefix : (fronts levels n) <+: sizes levels n := by
      rw [fronts_eq]
      exact (List.take_prefix _ _).trans (List.takeWhile_prefix _)
    obtain ⟨rest, hrest⟩ := hprefix
    rw [List.getElem?_range hi, Option.map_some, ← hrest, List.getD_eq_getElem?_getD,
      List.getElem?_append_left hlt, List.getElem?_eq_getElem hlt, Option.getD_some]
  · rw [List.getElem?_eq_none (by rw [List.length_range]; omega),
      List.getElem?_eq_none (by rw [← levelsUsed_eq]; omega), Option.map_none]

theorem iwtInverse5_eq (input : List Int32) :
    iwtInverse5 checks input =
      (fronts IWT_LEVELS input.length).reverse.foldlM (inverseLevel checks) input := by
  rw [iwtInverse5, ← map_sizes, ← List.map_reverse, List.foldlM_map]

/-! ## All levels are undone -/

theorem length_interleave (xs ys : List Int32) (h : ys.length ≤ xs.length) :
    (interleave xs ys).length = xs.length + ys.length := by
  induction xs generalizing ys with
  | nil =>
    rw [List.length_nil, Nat.le_zero] at h
    rw [List.eq_nil_of_length_eq_zero h]
    rfl
  | cons x xs ih =>
    cases ys with
    | nil => rfl
    | cons y ys =>
      have hrest := ih ys (Nat.le_of_succ_le_succ h)
      rw [interleave, List.length_cons, List.length_cons, hrest, List.length_cons, List.length_cons]
      omega

theorem length_iwtInverseSingle {l h x : List Int32} (hle : h.length ≤ l.length)
    (hinv : iwtInverseSingle checks l h = some x) : x.length = l.length + h.length := by
  rw [iwtInverseSingle] at hinv
  split at hinv
  · next hshort =>
    cases hinv
    omega
  · obtain ⟨xs, hxs, hinv⟩ := Option.bind_eq_some_iff.1 hinv
    obtain ⟨ys, hys, hinv⟩ := Option.bind_eq_some_iff.1 hinv
    cases hinv
    have hxlen := (mapM_range_eq_some.1 hxs).1
    have hylen := (mapM_range_eq_some.1 hys).1
    rw [length_interleave _ _ (by omega), hxlen, hylen]

theorem forwardLevel_eq {output output' : List Int32} {n : Nat} (hn : n ≤ output.length)
    (h : forwardLevel checks output n = some output') :
    ∃ low high, iwtForwardSingle checks (output.take n) = some (low, high) ∧
      low.length = (n + 1) / 2 ∧ high.length = n / 2 ∧ output' = low ++ high ++ output.drop n := by
  rw [forwardLevel] at h
  split at h
  · cases h
  · obtain ⟨lh, hsingle, h⟩ := Option.bind_eq_some_iff.1 h
    cases h
    have hlen := iwtForwardSingle_length hsingle
    rw [List.length_take, Nat.min_eq_left hn] at hlen
    exact ⟨lh.1, lh.2, hsingle, hlen.1, hlen.2, rfl⟩

theorem length_forwardLevel {output output' : List Int32} {n : Nat} (hn : n ≤ output.length)
    (h : forwardLevel checks output n = some output') : output'.length = output.length := by
  obtain ⟨low, high, -, hlow, hhigh, hout⟩ := forwardLevel_eq hn h
  rw [hout, List.length_append, List.length_append, hlow, hhigh, List.length_drop]
  omega

theorem length_inverseLevel {output output' : List Int32} {n : Nat} (hn : n ≤ output.length)
    (h : inverseLevel checks output n = some output') : output'.length = output.length := by
  rw [inverseLevel] at h
  obtain ⟨x, hx, h⟩ := Option.bind_eq_some_iff.1 h
  cases h
  have hhigh : ((output.drop ((n + 1) / 2)).take (n / 2)).length = n / 2 := by
    rw [List.length_take, List.length_drop]
    omega
  have hlow : (output.take ((n + 1) / 2)).length = (n + 1) / 2 := by
    rw [List.length_take]
    omega
  have hlen := length_iwtInverseSingle (by omega) hx
  rw [List.length_append, hlen, hhigh, hlow, List.length_drop]
  omega

theorem inverseLevel_forwardLevel {output output' : List Int32} {n : Nat} (hn : n ≤ output.length)
    (h : forwardLevel checks output n = some output') :
    inverseLevel checks output' n = some output := by
  obtain ⟨low, high, hsingle, hlow, hhigh, hout⟩ := forwardLevel_eq hn h
  have hfront : output'.take ((n + 1) / 2) = low := by
    rw [hout, List.append_assoc, ← hlow, List.take_left]
  have hmiddle : (output'.drop ((n + 1) / 2)).take (n / 2) = high := by
    rw [hout, List.append_assoc, ← hlow, List.drop_left, ← hhigh, List.take_left]
  have hback : output'.drop n = output.drop n := by
    have hlen : (low ++ high).length = n := by
      rw [List.length_append, hlow, hhigh]
      omega
    rw [hout, ← hlen, List.drop_left]
  rw [inverseLevel, hfront, hmiddle, iwtInverseSingle_forward hsingle, hback]
  exact congrArg some (List.take_append_drop n output)

theorem fronts_le {levels n : Nat} : ∀ size ∈ fronts levels n, size ≤ n := by
  induction levels generalizing n with
  | zero => exact fun size hsize => (List.not_mem_nil hsize).elim
  | succ levels ih =>
    rw [fronts]
    split
    · exact fun size hsize => (List.not_mem_nil hsize).elim
    · intro size hsize
      rcases List.mem_cons.1 hsize with hsize | hsize
      · exact Nat.le_of_eq hsize
      · have hle := ih size hsize
        omega

theorem length_foldlM {f : List Int32 → Nat → Option (List Int32)}
    (hf : ∀ {output output' : List Int32} {n : Nat}, n ≤ output.length →
      f output n = some output' → output'.length = output.length)
    {fronts : List Nat} {output output' : List Int32} (hle : ∀ size ∈ fronts, size ≤ output.length)
    (h : fronts.foldlM f output = some output') : output'.length = output.length := by
  induction fronts generalizing output with
  | nil =>
    cases h
    rfl
  | cons size fronts ih =>
    rw [List.foldlM_cons] at h
    obtain ⟨mid, hmid, hrest⟩ := Option.bind_eq_some_iff.1 h
    have hlen := hf (hle size List.mem_cons_self) hmid
    rw [ih (by rw [hlen]; exact fun s hs => hle s (List.mem_cons_of_mem _ hs)) hrest, hlen]

theorem foldlM_undo {fronts : List Nat} {output output' : List Int32}
    (hle : ∀ size ∈ fronts, size ≤ output.length)
    (h : fronts.foldlM (forwardLevel checks) output = some output') :
    fronts.reverse.foldlM (inverseLevel checks) output' = some output := by
  induction fronts generalizing output with
  | nil =>
    cases h
    rfl
  | cons size fronts ih =>
    rw [List.foldlM_cons] at h
    obtain ⟨mid, hmid, hrest⟩ := Option.bind_eq_some_iff.1 h
    have hsize := hle size List.mem_cons_self
    have hlen := length_forwardLevel hsize hmid
    have hback := ih (by rw [hlen]; exact fun s hs => hle s (List.mem_cons_of_mem _ hs)) hrest
    rw [List.reverse_cons, List.foldlM_append, hback]
    show [size].foldlM (inverseLevel checks) mid = some output
    rw [List.foldlM_cons, inverseLevel_forwardLevel hsize hmid]
    rfl

theorem length_iwtForward5 {input output : List Int32}
    (h : iwtForward5 checks input = some output) :
    output.length = input.length := by
  rw [iwtForward5, forwardLoop_eq] at h
  exact length_foldlM length_forwardLevel fronts_le h

theorem length_iwtInverse5 {input output : List Int32}
    (h : iwtInverse5 checks input = some output) :
    output.length = input.length := by
  rw [iwtInverse5_eq] at h
  exact length_foldlM length_inverseLevel (fun s hs => fronts_le s (List.mem_reverse.1 hs)) h

theorem iwtInverse5_iwtForward5 {input output : List Int32}
    (h : iwtForward5 checks input = some output) : iwtInverse5 checks output = some input := by
  have hlen := length_iwtForward5 h
  rw [iwtForward5, forwardLoop_eq] at h
  rw [iwtInverse5_eq, hlen]
  exact foldlM_undo fronts_le h

end Iwt
end Compression
end Leodos
