/-
The record of the received ranges of a file, `class2/machine/tracker.rs`.

The ranges stand in an array of `MAX_GAPS` slots, the unused ones at the end.  The
array has that length whatever it holds.
-/
import Mathlib.Data.List.Induction
import Mathlib.Data.List.Sort
import Leodos.Cfdp.Pdu
import Leodos.Container.Ranges

namespace Leodos
namespace Cfdp

def MAX_GAPS : Nat := 4

def EMPTY_SLOT : Nat × Nat := (UInt64.size - 1, UInt64.size - 1)

structure SegmentTracker where
  receivedRanges : List (Nat × Nat)
  fileSize : Nat
  sized : receivedRanges.length = MAX_GAPS
  deriving DecidableEq

namespace SegmentTracker

def new (fileSize : Nat) : SegmentTracker :=
  ⟨List.replicate MAX_GAPS EMPTY_SLOT, fileSize, List.length_replicate⟩

def validRanges (t : SegmentTracker) : List (Nat × Nat) :=
  t.receivedRanges.takeWhile fun r => r ≠ EMPTY_SLOT

/-- The new range, grown by the ranges it meets, and the ranges it does not meet. -/
def mergeRanges (newStart newEnd : Nat) : List (Nat × Nat) → Nat × Nat × List (Nat × Nat)
  | [] => (newStart, newEnd, [])
  | (start, last) :: rest =>
      if last < newStart ∨ start > newEnd then
        let (s, e, next) := mergeRanges newStart newEnd rest
        (s, e, (start, last) :: next)
      else mergeRanges (min newStart start) (max newEnd last) rest

/-- The array that holds `ranges` and is empty from there on. -/
def slots (ranges : List (Nat × Nat)) : List (Nat × Nat) :=
  (ranges ++ List.replicate MAX_GAPS EMPTY_SLOT).take MAX_GAPS

theorem length_slots (ranges : List (Nat × Nat)) : (slots ranges).length = MAX_GAPS := by
  rw [slots, List.length_take, List.length_append, List.length_replicate]
  omega

/-- A range that meets none of four others is dropped. -/
def addSegment (t : SegmentTracker) (offset len : Nat) : SegmentTracker :=
  if len = 0 then t
  else
    let (newStart, newEnd, next) := mergeRanges offset (wrappingAdd offset len) t.validRanges
    if next.length = MAX_GAPS then t
    else
      let ranges := (next ++ [(newStart, newEnd)]).insertionSort fun a b => a.1 ≤ b.1
      ⟨slots ranges, t.fileSize, length_slots ranges⟩

/-- The spaces before each of the ranges, from `lastOffset` on. -/
def missingBefore (lastOffset : Nat) : List (Nat × Nat) → List (Nat × Nat)
  | [] => []
  | (start, last) :: rest =>
      if start > lastOffset then (lastOffset, start) :: missingBefore last rest
      else missingBefore last rest

def getMissingRanges (t : SegmentTracker) : List (Nat × Nat) :=
  -- the closure advances a copy of the offset, so the end of the chain still sees 0
  let lastOffset := 0
  missingBefore lastOffset t.receivedRanges ++
    if lastOffset < t.fileSize then [(lastOffset, t.fileSize)] else []

/-- The test is on the length of the array, which is not the number of ranges in it. -/
def isComplete (t : SegmentTracker) : Bool :=
  if t.receivedRanges.length = 1 then
    match t.receivedRanges.head? with
    | some (start, last) => start = 0 && last ≥ t.fileSize
    | none => false
  else false

theorem isComplete_eq_false (t : SegmentTracker) : t.isComplete = false := by
  have hsized : t.receivedRanges.length ≠ 1 := by
    rw [t.sized]
    decide
  rw [isComplete, if_neg hsized]

end SegmentTracker

end Cfdp
end Leodos

/-
What the segment tracker knows of a file.

As long as the received segments never make more than `MAX_GAPS` ranges the tracker holds
their maximal ranges, and it never holds an octet that no segment covered.  The two
readers of the array go wrong: `isComplete` never holds, and `getMissingRanges` ends with
the whole file.
-/

namespace Leodos
namespace Cfdp
namespace SegmentTracker

open Ranges

/-- The tracker after a sequence of calls, each an offset and a length. -/
def record (t : SegmentTracker) (calls : List (Nat × Nat)) : SegmentTracker :=
  calls.foldl (fun t call => t.addSegment call.1 call.2) t

/-- Some call covered the octet. -/
def Received (calls : List (Nat × Nat)) (b : Nat) : Prop :=
  ∃ call ∈ calls, call.1 ≤ b ∧ b < call.1 + call.2

/-! ## Merging -/

variable {rs : List (Nat × Nat)} {newStart newEnd : Nat}

theorem mergeRanges_apart {r : Nat × Nat} (h : r.2 < newStart ∨ r.1 > newEnd)
    (rs : List (Nat × Nat)) :
    mergeRanges newStart newEnd (r :: rs) =
      ((mergeRanges newStart newEnd rs).1, (mergeRanges newStart newEnd rs).2.1,
        r :: (mergeRanges newStart newEnd rs).2.2) := by
  rw [mergeRanges, if_pos h]

theorem mergeRanges_meet {r : Nat × Nat} (h : ¬ (r.2 < newStart ∨ r.1 > newEnd))
    (rs : List (Nat × Nat)) :
    mergeRanges newStart newEnd (r :: rs) =
      mergeRanges (min newStart r.1) (max newEnd r.2) rs := by
  rw [mergeRanges, if_neg h]

/-- The grown range with the ranges left over. -/
def merged (newStart newEnd : Nat) (rs : List (Nat × Nat)) : List (Nat × Nat) :=
  ((mergeRanges newStart newEnd rs).1, (mergeRanges newStart newEnd rs).2.1) ::
    (mergeRanges newStart newEnd rs).2.2

theorem covers_merged (newStart newEnd : Nat) (rs : List (Nat × Nat)) (b : Nat) :
    Covers (merged newStart newEnd rs) b ↔
      (newStart ≤ b ∧ b < newEnd) ∨ Covers rs b := by
  induction rs generalizing newStart newEnd with
  | nil => exact covers_cons
  | cons r rs ih =>
    by_cases hapart : r.2 < newStart ∨ r.1 > newEnd
    · have hih := ih newStart newEnd
      rw [merged, covers_cons] at hih
      rw [merged, mergeRanges_apart hapart, covers_cons, covers_cons, covers_cons, or_left_comm,
        hih, or_left_comm]
    · rw [merged, mergeRanges_meet hapart]
      have hih := ih (min newStart r.1) (max newEnd r.2)
      rw [merged] at hih
      rw [hih, covers_union (by omega) (by omega), covers_cons, or_assoc]

theorem mergeRanges_behind (h : ∀ r ∈ rs, newEnd < r.1) :
    mergeRanges newStart newEnd rs = (newStart, newEnd, rs) := by
  induction rs with
  | nil => rfl
  | cons r rs ih =>
    rw [mergeRanges_apart (Or.inr (h r List.mem_cons_self)),
      ih (fun r' hr' => h r' (List.mem_cons_of_mem _ hr'))]

theorem mergeRanges_sublist (newStart newEnd : Nat) (rs : List (Nat × Nat)) :
    (mergeRanges newStart newEnd rs).2.2.Sublist rs := by
  induction rs generalizing newStart newEnd with
  | nil => exact List.Sublist.slnil
  | cons r rs ih =>
    by_cases hapart : r.2 < newStart ∨ r.1 > newEnd
    · rw [mergeRanges_apart hapart]
      exact (ih newStart newEnd).cons_cons r
    · rw [mergeRanges_meet hapart]
      exact (ih _ _).cons r

theorem mergeRanges_bounds (newStart newEnd : Nat) (rs : List (Nat × Nat)) :
    (mergeRanges newStart newEnd rs).1 ≤ newStart ∧
      newEnd ≤ (mergeRanges newStart newEnd rs).2.1 ∧
      ((mergeRanges newStart newEnd rs).1 = newStart ∨
        ∃ r ∈ rs, (mergeRanges newStart newEnd rs).1 = r.1) := by
  induction rs generalizing newStart newEnd with
  | nil => exact ⟨Nat.le_refl _, Nat.le_refl _, Or.inl rfl⟩
  | cons r rs ih =>
    by_cases hapart : r.2 < newStart ∨ r.1 > newEnd
    · obtain ⟨hstart, hend, hfrom⟩ := ih newStart newEnd
      rw [mergeRanges_apart hapart]
      refine ⟨hstart, hend, ?_⟩
      obtain hnew | ⟨r', hr', hold⟩ := hfrom
      · exact Or.inl hnew
      · exact Or.inr ⟨r', List.mem_cons_of_mem _ hr', hold⟩
    · obtain ⟨hstart, hend, hfrom⟩ := ih (min newStart r.1) (max newEnd r.2)
      rw [mergeRanges_meet hapart]
      refine ⟨by omega, by omega, ?_⟩
      obtain hnew | ⟨r', hr', hold⟩ := hfrom
      · rcases Nat.le_total newStart r.1 with hle | hle
        · exact Or.inl (by omega)
        · exact Or.inr ⟨r, List.mem_cons_self, by omega⟩
      · exact Or.inr ⟨r', List.mem_cons_of_mem _ hr', hold⟩

theorem mergeRanges_leftOver (hrs : Normal rs) (hnew : newStart < newEnd) :
    ∀ r ∈ (mergeRanges newStart newEnd rs).2.2,
      r.2 < (mergeRanges newStart newEnd rs).1 ∨ (mergeRanges newStart newEnd rs).2.1 < r.1 := by
  induction rs generalizing newStart newEnd with
  | nil =>
    intro r hr
    cases hr
  | cons r rs ih =>
    have hhead := hrs.head_lt
    by_cases hapart : r.2 < newStart ∨ r.1 > newEnd
    · rw [mergeRanges_apart hapart]
      intro r' hr'
      obtain rfl | hrest := List.mem_cons.1 hr'
      · obtain hbefore | hafter := hapart
        · obtain ⟨-, -, hfrom⟩ := mergeRanges_bounds newStart newEnd rs
          left
          obtain hstart | ⟨next, hnext, hstart⟩ := hfrom
          · rw [hstart]
            exact hbefore
          · rw [hstart]
            exact (List.pairwise_cons.1 hrs.gaps).1 next hnext
        · have hbehind : ∀ next ∈ rs, newEnd < next.1 := by
            intro next hnext
            have hgap := (List.pairwise_cons.1 hrs.gaps).1 next hnext
            omega
          rw [mergeRanges_behind hbehind]
          exact Or.inr hafter
      · exact ih hrs.tail hnew r' hrest
    · rw [mergeRanges_meet hapart]
      exact ih hrs.tail (by omega)

/-- The ranges as the code sorts them into its array. -/
def sorted (rs : List (Nat × Nat)) : List (Nat × Nat) :=
  rs.insertionSort fun a b => a.1 ≤ b.1

theorem pairwise_sorted (rs : List (Nat × Nat)) : (sorted rs).Pairwise fun a b => a.1 ≤ b.1 := by
  have htotal : Std.Total fun a b : Nat × Nat => a.1 ≤ b.1 := ⟨fun a b => Nat.le_total a.1 b.1⟩
  have htrans : IsTrans (Nat × Nat) fun a b => a.1 ≤ b.1 := ⟨fun a b c => Nat.le_trans⟩
  exact List.pairwise_insertionSort _ rs

/-- The ranges left over and the grown range, in order. -/
def inserted (newStart newEnd : Nat) (rs : List (Nat × Nat)) : List (Nat × Nat) :=
  sorted ((mergeRanges newStart newEnd rs).2.2 ++
    [((mergeRanges newStart newEnd rs).1, (mergeRanges newStart newEnd rs).2.1)])

theorem inserted_perm (newStart newEnd : Nat) (rs : List (Nat × Nat)) :
    (inserted newStart newEnd rs).Perm (merged newStart newEnd rs) :=
  (List.perm_insertionSort _ _).trans (List.perm_append_singleton _ _)

theorem covers_inserted (newStart newEnd : Nat) (rs : List (Nat × Nat)) (b : Nat) :
    Covers (inserted newStart newEnd rs) b ↔ (newStart ≤ b ∧ b < newEnd) ∨ Covers rs b :=
  (covers_perm (inserted_perm newStart newEnd rs)).trans (covers_merged newStart newEnd rs b)

theorem normal_inserted (hrs : Normal rs) (hnew : newStart < newEnd) :
    Normal (inserted newStart newEnd rs) := by
  have hperm := inserted_perm newStart newEnd rs
  have hsub := mergeRanges_sublist newStart newEnd rs
  obtain ⟨hstart, hend, -⟩ := mergeRanges_bounds newStart newEnd rs
  apply normal_of_apart
  · intro r hr
    obtain rfl | hrest := List.mem_cons.1 (hperm.mem_iff.1 hr)
    · exact Nat.lt_of_le_of_lt hstart (Nat.lt_of_lt_of_le hnew hend)
    · exact hrs.inhabited r (hsub.subset hrest)
  · exact pairwise_sorted _
  · refine (hperm.pairwise_iff (fun h => Or.symm h)).2 (List.pairwise_cons.2 ⟨?_, ?_⟩)
    · intro r hr
      exact Or.symm (mergeRanges_leftOver hrs hnew r hr)
    · exact (hrs.gaps.sublist hsub).imp fun h => Or.inl h

theorem length_inserted (newStart newEnd : Nat) (rs : List (Nat × Nat)) :
    (inserted newStart newEnd rs).length =
      (mergeRanges newStart newEnd rs).2.2.length + 1 :=
  (inserted_perm newStart newEnd rs).length_eq

/-! ## The array -/

variable {t : SegmentTracker}

theorem addSegment_eq (t : SegmentTracker) (offset : Nat) {len : Nat} (hlen : len ≠ 0) :
    (t.addSegment offset len).receivedRanges =
      if (inserted offset (wrappingAdd offset len) t.validRanges).length = MAX_GAPS + 1 then
        t.receivedRanges
      else slots (inserted offset (wrappingAdd offset len) t.validRanges) := by
  rw [addSegment, if_neg hlen, length_inserted]
  dsimp only
  by_cases hfull : (mergeRanges offset (wrappingAdd offset len) t.validRanges).2.2.length =
      MAX_GAPS
  · rw [if_pos hfull, if_pos (by rw [hfull])]
  · rw [if_neg hfull, if_neg (fun h => hfull (Nat.succ.inj h))]
    rfl

theorem addSegment_zero (t : SegmentTracker) (offset : Nat) : t.addSegment offset 0 = t := by
  rw [addSegment, if_pos rfl]

theorem validRanges_slots (hrs : t.receivedRanges = slots rs) (hlen : rs.length ≤ MAX_GAPS)
    (hinhabited : ∀ r ∈ rs, r.1 < r.2) : t.validRanges = rs := by
  have hvalid : ∀ r ∈ rs, decide (r ≠ EMPTY_SLOT) = true := by
    intro r hr
    have hlt := hinhabited r hr
    rw [decide_eq_true_eq]
    intro heq
    rw [heq] at hlt
    exact Nat.lt_irrefl _ hlt
  rw [validRanges, hrs, slots, List.take_append, List.take_of_length_le hlen,
    List.takeWhile_append_of_pos hvalid, List.take_replicate, List.takeWhile_replicate]
  rw [if_neg (by decide), List.append_nil]

theorem covers_of_slots {b : Nat} (hrs : t.receivedRanges = slots rs)
    (h : Covers t.validRanges b) : Covers rs b := by
  obtain ⟨r, hr, hin⟩ := h
  have hslot : r ∈ slots rs := by
    rw [← hrs]
    exact (List.takeWhile_sublist _).subset hr
  obtain hold | hempty := List.mem_append.1 (List.mem_of_mem_take hslot)
  · exact ⟨r, hold, hin⟩
  · rw [List.eq_of_mem_replicate hempty] at hin
    exact absurd (Nat.lt_of_le_of_lt hin.1 hin.2) (Nat.lt_irrefl _)

theorem covers_of_addSegment {offset len b : Nat}
    (h : Covers (t.addSegment offset len).validRanges b) :
    (offset ≤ b ∧ b < offset + len) ∨ Covers t.validRanges b := by
  by_cases hlen : len = 0
  · subst hlen
    rw [addSegment_zero] at h
    exact Or.inr h
  · have heq := addSegment_eq t offset hlen
    by_cases hfull : (inserted offset (wrappingAdd offset len) t.validRanges).length = MAX_GAPS + 1
    · rw [if_pos hfull] at heq
      rw [validRanges, heq] at h
      exact Or.inr h
    · rw [if_neg hfull] at heq
      obtain ⟨hstart, hend⟩ | hold := (covers_inserted _ _ _ b).1 (covers_of_slots heq h)
      · have hwrap : wrappingAdd offset len ≤ offset + len := Nat.mod_le _ _
        exact Or.inl ⟨hstart, Nat.lt_of_lt_of_le hend hwrap⟩
      · exact Or.inr hold

theorem received_concat {calls : List (Nat × Nat)} {call : Nat × Nat} {b : Nat} :
    Received (calls ++ [call]) b ↔ (call.1 ≤ b ∧ b < call.1 + call.2) ∨ Received calls b := by
  constructor
  · intro h
    obtain ⟨c, hc, hin⟩ := h
    obtain hold | hnew := List.mem_append.1 hc
    · exact Or.inr ⟨c, hold, hin⟩
    · rw [List.mem_singleton.1 hnew] at hin
      exact Or.inl hin
  · intro h
    obtain hin | ⟨c, hc, hin⟩ := h
    · exact ⟨call, List.mem_append_right _ List.mem_cons_self, hin⟩
    · exact ⟨c, List.mem_append_left _ hc, hin⟩

theorem record_concat (t : SegmentTracker) (calls : List (Nat × Nat)) (call : Nat × Nat) :
    t.record (calls ++ [call]) = (t.record calls).addSegment call.1 call.2 := by
  rw [record, List.foldl_append]
  rfl

theorem validRanges_new (fileSize : Nat) : (new fileSize).validRanges = [] := by
  have hempty : (new fileSize).receivedRanges = slots [] := rfl
  exact validRanges_slots hempty (Nat.zero_le _) fun _ hr => absurd hr List.not_mem_nil

theorem received_of_covers {fileSize b : Nat} (calls : List (Nat × Nat))
    (h : Covers ((new fileSize).record calls).validRanges b) : Received calls b := by
  induction calls using List.reverseRecOn with
  | nil =>
    rw [record, List.foldl_nil, validRanges_new] at h
    exact absurd h not_covers_nil
  | append_singleton calls call ih =>
    rw [record_concat] at h
    apply received_concat.2
    obtain hnew | hold := covers_of_addSegment h
    · exact Or.inl hnew
    · exact Or.inr (ih hold)

/-! ## Few ranges -/

/-- The calls stay within 64 bits. -/
def Fits (calls : List (Nat × Nat)) : Prop := ∀ call ∈ calls, call.1 + call.2 < UInt64.size

/-- At no time do the received octets make more ranges than there are slots. -/
def FewRanges (calls : List (Nat × Nat)) : Prop :=
  ∀ earlier later, calls = earlier ++ later →
    ∃ rs, MaximalRanges rs (Received earlier) ∧ rs.length ≤ MAX_GAPS

theorem FewRanges.of_append {earlier later : List (Nat × Nat)}
    (h : FewRanges (earlier ++ later)) : FewRanges earlier := by
  intro before after hsplit
  apply h before (after ++ later)
  rw [hsplit, List.append_assoc]

/-- The tracker holds the maximal ranges of the received octets. -/
structure Tracks (t : SegmentTracker) (calls : List (Nat × Nat)) : Prop where
  maximal : MaximalRanges t.validRanges (Received calls)
  stored : t.receivedRanges = slots t.validRanges

theorem maximal_nil : MaximalRanges [] (Received []) := by
  refine ⟨Normal.nil, fun b => iff_of_false not_covers_nil fun h => ?_⟩
  obtain ⟨call, hcall, -⟩ := h
  cases hcall

theorem maximal_concat {rs calls : List (Nat × Nat)} (h : MaximalRanges rs (Received calls))
    (call : Nat × Nat) :
    MaximalRanges (if call.2 = 0 then rs else inserted call.1 (call.1 + call.2) rs)
      (Received (calls ++ [call])) := by
  split
  · next hlen =>
    refine ⟨h.normal, fun b => ?_⟩
    rw [h.covers_iff b, received_concat, hlen, Nat.add_zero]
    exact ⟨Or.inr, fun hb => hb.resolve_left fun hnone => Nat.not_lt.2 hnone.1 hnone.2⟩
  · refine ⟨normal_inserted h.normal (by omega), fun b => ?_⟩
    rw [covers_inserted, h.covers_iff b, received_concat]

theorem Tracks.addSegment {calls : List (Nat × Nat)} {call : Nat × Nat} (h : t.Tracks calls)
    (hfits : call.1 + call.2 < UInt64.size)
    (hfew : ∃ rs, MaximalRanges rs (Received (calls ++ [call])) ∧ rs.length ≤ MAX_GAPS) :
    (t.addSegment call.1 call.2).Tracks (calls ++ [call]) := by
  have hmaximal := maximal_concat h.maximal call
  by_cases hlen : call.2 = 0
  · rw [if_pos hlen] at hmaximal
    rw [hlen, addSegment_zero]
    exact ⟨hmaximal, h.stored⟩
  · rw [if_neg hlen] at hmaximal
    obtain ⟨rs, hrs, hshort⟩ := hfew
    rw [hrs.unique hmaximal] at hshort
    have hstored := addSegment_eq t call.1 hlen
    rw [wrappingAdd_of_lt hfits, if_neg (by omega)] at hstored
    have hvalid := validRanges_slots hstored hshort hmaximal.normal.inhabited
    rw [← hvalid] at hmaximal
    exact ⟨hmaximal, by rw [hstored, hvalid]⟩

theorem tracks_record (fileSize : Nat) {calls : List (Nat × Nat)} (hfits : Fits calls)
    (hfew : FewRanges calls) : ((new fileSize).record calls).Tracks calls := by
  induction calls using List.reverseRecOn with
  | nil =>
    rw [record, List.foldl_nil]
    refine ⟨?_, by rw [validRanges_new]; rfl⟩
    rw [validRanges_new]
    exact maximal_nil
  | append_singleton calls call ih =>
    rw [record_concat]
    have hcall := hfits call (List.mem_append_right _ List.mem_cons_self)
    have hold := ih (fun c hc => hfits c (List.mem_append_left _ hc)) hfew.of_append
    exact hold.addSegment hcall (hfew (calls ++ [call]) [] (List.append_nil _).symm)

theorem fileSize_record (t : SegmentTracker) (calls : List (Nat × Nat)) :
    (t.record calls).fileSize = t.fileSize := by
  induction calls using List.reverseRecOn with
  | nil => rfl
  | append_singleton calls call ih =>
    rw [record_concat, ← ih, addSegment]
    split
    · rfl
    · dsimp only
      split
      · rfl
      · rfl

theorem exists_slots (t : SegmentTracker) :
    ∃ r0 r1 rest, t.receivedRanges = r0 :: r1 :: rest := by
  have hsized := t.sized
  rcases hslots : t.receivedRanges with _ | ⟨r0, _ | ⟨r1, rest⟩⟩
  · rw [hslots] at hsized
    cases hsized
  · rw [hslots] at hsized
    cases hsized
  · exact ⟨r0, r1, rest, rfl⟩

theorem takeWhile_used {r : Nat × Nat} (hr : r ≠ EMPTY_SLOT) (rest : List (Nat × Nat)) :
    (r :: rest).takeWhile (fun r => r ≠ EMPTY_SLOT) =
      r :: rest.takeWhile (fun r => r ≠ EMPTY_SLOT) :=
  List.takeWhile_cons_of_pos (p := fun r => decide (r ≠ EMPTY_SLOT)) (decide_eq_true hr)

theorem validRanges_cons {r : Nat × Nat} {rest : List (Nat × Nat)}
    (hslots : t.receivedRanges = r :: rest) (hr : r ≠ EMPTY_SLOT) :
    t.validRanges = r :: rest.takeWhile (fun r => r ≠ EMPTY_SLOT) := by
  rw [validRanges, hslots]
  exact takeWhile_used hr rest

theorem ne_empty_of_start {r : Nat × Nat} (h : r.1 = 0) : r ≠ EMPTY_SLOT := by
  intro heq
  rw [heq] at h
  exact absurd h (by decide)

theorem not_missing_of_pos {calls : List (Nat × Nat)} (h : t.Tracks calls)
    (hpos : 0 < t.fileSize) :
    ¬ MaximalRanges t.getMissingRanges (fun b => b < t.fileSize ∧ ¬ Received calls b) := by
  intro hmissing
  obtain ⟨r0, r1, rest, hslots⟩ := exists_slots t
  have hlist : t.getMissingRanges =
      missingBefore 0 (r0 :: r1 :: rest) ++ [(0, t.fileSize)] := by
    rw [getMissingRanges, hslots, if_pos hpos]
  rw [hlist] at hmissing
  by_cases hstart : r0.1 > 0
  · have hgaps := hmissing.normal.gaps
    rw [missingBefore, if_pos hstart, List.cons_append] at hgaps
    have hlt := (List.pairwise_cons.1 hgaps).1 (0, t.fileSize)
      (List.mem_append_right _ List.mem_cons_self)
    exact Nat.not_lt_zero _ hlt
  · have hzero : r0.1 = 0 := by omega
    have hvalid := validRanges_cons hslots (ne_empty_of_start hzero)
    have hnormal := h.maximal.normal
    rw [hvalid] at hnormal
    have hcovers : Covers t.validRanges r0.1 := by
      rw [hvalid]
      exact covers_start hnormal.head_lt
    rw [hzero] at hcovers
    have hlast : Covers (missingBefore 0 (r0 :: r1 :: rest) ++ [(0, t.fileSize)]) 0 :=
      ⟨_, List.mem_append_right _ List.mem_cons_self, Nat.le_refl _, hpos⟩
    exact ((hmissing.covers_iff 0).1 hlast).2 ((h.maximal.covers_iff 0).1 hcovers)

theorem received_of_missing_nil {calls : List (Nat × Nat)} (h : t.Tracks calls)
    (hnil : t.getMissingRanges = []) : ∀ b < UInt64.size - 1, Received calls b := by
  obtain ⟨r0, r1, rest, hslots⟩ := exists_slots t
  obtain ⟨hbefore, -⟩ := List.append_eq_nil_iff.1 hnil
  rw [hslots, missingBefore] at hbefore
  have hstart : ¬ r0.1 > 0 := by
    intro hgt
    rw [if_pos hgt] at hbefore
    cases hbefore
  rw [if_neg hstart, missingBefore] at hbefore
  have hnext : ¬ r1.1 > r0.2 := by
    intro hgt
    rw [if_pos hgt] at hbefore
    cases hbefore
  have hvalid := validRanges_cons hslots (ne_empty_of_start (by omega))
  have hsentinel : r1 = EMPTY_SLOT := by
    by_contra hne
    have hgaps := h.maximal.normal.gaps
    rw [hvalid, takeWhile_used hne] at hgaps
    have hgap := (List.pairwise_cons.1 hgaps).1 r1 List.mem_cons_self
    omega
  intro b hb
  apply (h.maximal.covers_iff b).1
  rw [hvalid]
  refine ⟨r0, List.mem_cons_self, by omega, ?_⟩
  have hend : EMPTY_SLOT.1 ≤ r0.2 := by
    rw [← hsentinel]
    omega
  exact Nat.lt_of_lt_of_le hb hend

theorem missing_nil_of_received {calls : List (Nat × Nat)} (h : t.Tracks calls)
    (hfits : Fits calls) (hsize : t.fileSize = 0)
    (hall : ∀ b < UInt64.size - 1, Received calls b) : t.getMissingRanges = [] := by
  have hwhole : MaximalRanges [(0, UInt64.size - 1)] (Received calls) := by
    refine ⟨⟨?_, List.pairwise_singleton _ _⟩, ?_⟩
    · intro r hr
      rw [List.mem_singleton.1 hr]
      decide
    · intro b
      constructor
      · intro hb
        obtain ⟨-, hlt⟩ | hnone := covers_cons.1 hb
        · exact hall b hlt
        · exact absurd hnone not_covers_nil
      · intro hb
        obtain ⟨call, hcall, -, hlt⟩ := hb
        have hfit := hfits call hcall
        exact ⟨_, List.mem_cons_self, Nat.zero_le _, by show b < UInt64.size - 1; omega⟩
  have hstored := h.stored
  rw [h.maximal.unique hwhole] at hstored
  rw [getMissingRanges, hstored, hsize]
  rfl

/-- What the tracker gets right and what it does not.  No octet is held that no call covered,
and while there are few ranges it holds the maximal ones.  The test for the whole file is
right as long as something is missing, and the list of the missing ranges for the empty file
of which all that 64 bits can address has come; so the two are never right together. -/
theorem exact_iff (fileSize : Nat) (calls : List (Nat × Nat)) :
    (∀ b, Covers ((new fileSize).record calls).validRanges b → Received calls b) ∧
      (Fits calls → FewRanges calls →
        ((new fileSize).record calls).Tracks calls ∧
        ((((new fileSize).record calls).isComplete = true ↔ ∀ b < fileSize, Received calls b) ↔
          ¬ ∀ b < fileSize, Received calls b) ∧
        (MaximalRanges ((new fileSize).record calls).getMissingRanges
            (fun b => b < fileSize ∧ ¬ Received calls b) ↔
          fileSize = 0 ∧ ∀ b < UInt64.size - 1, Received calls b) ∧
        ¬ ((((new fileSize).record calls).isComplete = true ↔
              ∀ b < fileSize, Received calls b) ∧
            MaximalRanges ((new fileSize).record calls).getMissingRanges
              (fun b => b < fileSize ∧ ¬ Received calls b))) := by
  refine ⟨fun b hb => received_of_covers calls hb, ?_⟩
  intro hfits hfew
  have htracks := tracks_record fileSize hfits hfew
  have hsize : ((new fileSize).record calls).fileSize = fileSize := fileSize_record _ calls
  have hcomplete : (((new fileSize).record calls).isComplete = true ↔
      ∀ b < fileSize, Received calls b) ↔ ¬ ∀ b < fileSize, Received calls b := by
    rw [isComplete_eq_false]
    constructor
    · intro hiff hall
      cases hiff.2 hall
    · intro hnot
      constructor
      · intro hfalse
        cases hfalse
      · intro hall
        exact absurd hall hnot
  have hmissing : MaximalRanges ((new fileSize).record calls).getMissingRanges
      (fun b => b < fileSize ∧ ¬ Received calls b) ↔
        fileSize = 0 ∧ ∀ b < UInt64.size - 1, Received calls b := by
    constructor
    · intro hmax
      have hzero : fileSize = 0 := by
        by_contra hne
        have hnot := not_missing_of_pos htracks (by rw [hsize]; omega)
        rw [hsize] at hnot
        exact hnot hmax
      refine ⟨hzero, received_of_missing_nil htracks ?_⟩
      refine hmax.normal.unique Normal.nil ?_
      intro b
      constructor
      · intro hb
        have hlt := ((hmax.covers_iff b).1 hb).1
        omega
      · intro hb
        exact absurd hb not_covers_nil
    · intro h
      obtain ⟨hzero, hall⟩ := h
      rw [missing_nil_of_received htracks hfits (hsize.trans hzero) hall]
      refine ⟨Normal.nil, ?_⟩
      intro b
      constructor
      · intro hb
        exact absurd hb not_covers_nil
      · intro hb
        omega
  refine ⟨htracks, hcomplete, hmissing, ?_⟩
  intro hboth
  apply hcomplete.1 hboth.1
  intro b hb
  have hzero := (hmissing.1 hboth.2).1
  omega

theorem exists_maximal (calls : List (Nat × Nat)) :
    ∃ rs, MaximalRanges rs (Received calls) ∧ rs.length ≤ calls.length := by
  induction calls using List.reverseRecOn with
  | nil => exact ⟨[], maximal_nil, Nat.le_refl 0⟩
  | append_singleton calls call ih =>
    obtain ⟨rs, hrs, hlen⟩ := ih
    refine ⟨_, maximal_concat hrs call, ?_⟩
    rw [List.length_append, List.length_singleton]
    split
    · omega
    · rw [length_inserted]
      exact Nat.succ_le_succ (Nat.le_trans (mergeRanges_sublist _ _ _).length_le hlen)

theorem fewRanges_of_length {calls : List (Nat × Nat)} (h : calls.length ≤ MAX_GAPS) :
    FewRanges calls := by
  intro earlier later hsplit
  obtain ⟨rs, hrs, hlen⟩ := exists_maximal earlier
  rw [hsplit, List.length_append] at h
  exact ⟨rs, hrs, by omega⟩

/-- The third of four segments closes the gap before the second, and one octet is missing. -/
theorem exact_iff_single :
    ((new 10).record [(0, 4), (6, 2), (3, 3), (9, 1)]).Tracks [(0, 4), (6, 2), (3, 3), (9, 1)] ∧
      (((new 10).record [(0, 4), (6, 2), (3, 3), (9, 1)]).isComplete = true ↔
        ∀ b < 10, Received [(0, 4), (6, 2), (3, 3), (9, 1)] b) := by
  obtain ⟨htracks, hcomplete, -⟩ := (exact_iff 10 [(0, 4), (6, 2), (3, 3), (9, 1)]).2
    (by simp [Fits, UInt64.size]) (fewRanges_of_length (by decide))
  refine ⟨htracks, hcomplete.2 fun hall => ?_⟩
  have hmissing := hall 8 (by decide)
  simp [Received] at hmissing

/-- The same file is listed as missing, and so is a range behind its end. -/
theorem complete_file_missing :
    FewRanges [(0, 10)] ∧ Fits [(0, 10)] ∧ (∀ b < 10, Received [(0, 10)] b) ∧
      ((new 10).record [(0, 10)]).isComplete = false ∧
      ((new 10).record [(0, 10)]).getMissingRanges = [(10, UInt64.size - 1), (0, 10)] := by
  refine ⟨fewRanges_of_length (by decide), ?_, ?_, by decide, by decide⟩
  · intro call hcall
    rw [List.mem_singleton.1 hcall]
    decide
  · intro b hb
    exact ⟨(0, 10), List.mem_cons_self, Nat.zero_le _, hb⟩

end SegmentTracker
end Cfdp
end Leodos
