/-
What the gap tracker knows of the bytes that were filled.

A record of the filled bytes goes along with the tracker.  While no filled range crosses the
high-water mark, and no empty range lies in a gap or above the mark, the gaps are the maximal
unfilled ranges below the mark.  `fill` leaves the mark where it is when a range crosses it.
-/
import Leodos.Srspp.Receiver.Lite
import Leodos.Transition.System

namespace Leodos
namespace Srspp

open Transition

namespace GapTracker

/-! ## Gaps that keep apart -/

/-- The gaps lie in order from `lo` on, end below `hi`, and leave a byte between them. -/
def Spaced (hi : Nat) : Nat → List Interval → Prop
  | _, [] => True
  | lo, g :: gs =>
      (lo ≤ g.start ∧ g.start < g.stop ∧ g.stop < hi) ∧ Spaced hi (g.stop + 1) gs

section Spaced

variable {N hi lo start stop : Nat} {gs : List Interval}

theorem Spaced.mono (h : Spaced hi lo gs) {lo' hi' : Nat} (hlo : lo' ≤ lo) (hhi : hi ≤ hi') :
    Spaced hi' lo' gs := by
  induction gs generalizing lo lo' with
  | nil => trivial
  | cons g gs ih =>
    obtain ⟨hg, hgs⟩ := h
    exact ⟨by omega, ih hgs (Nat.le_refl _)⟩

theorem Spaced.ordered (h : Spaced hi lo gs) : Ordered 1 hi lo gs := by
  induction gs generalizing lo with
  | nil => trivial
  | cons g gs ih =>
    obtain ⟨hg, hgs⟩ := h
    exact ⟨⟨hg.1, hg.2.1, hg.2.2, Nat.one_dvd _, Nat.one_dvd _⟩,
      (ih hgs).mono (Nat.le_succ _) (Nat.le_refl _)⟩

theorem Spaced.append (h : Spaced hi lo gs) (hlo : lo ≤ hi) {stop hi' : Nat}
    (hlt : hi < stop) (hend : stop < hi') : Spaced hi' lo (gs ++ [⟨hi, stop⟩]) := by
  induction gs generalizing lo with
  | nil => exact ⟨⟨hlo, hlt, hend⟩, trivial⟩
  | cons g gs ih =>
    obtain ⟨hg, hgs⟩ := h
    exact ⟨⟨hg.1, hg.2.1, by omega⟩, ih hgs hg.2.2⟩

theorem Spaced.fillGaps (h : Spaced hi lo gs) (hlt : start < stop) (kept : Nat) :
    Spaced hi lo (GapTracker.fillGaps N start stop kept gs) := by
  induction gs generalizing lo kept with
  | nil => trivial
  | cons g gs ih =>
    obtain ⟨⟨h₁, h₂, h₃⟩, hgs⟩ := h
    simp only [GapTracker.fillGaps]
    split
    · exact (ih hgs kept).mono (by omega) (Nat.le_refl _)
    · split
      · exact ⟨⟨h₁, h₂, h₃⟩, ih hgs _⟩
      · split
        · exact ⟨⟨by simp only; omega, by simp only; omega, h₃⟩, ih hgs _⟩
        · split
          · exact ⟨⟨h₁, by simp only; omega, by simp only; omega⟩,
              (ih hgs _).mono (by simp only; omega) (Nat.le_refl _)⟩
          · split
            · exact ⟨⟨h₁, by simp only; omega, by simp only; omega⟩,
                ⟨by simp only; omega, by simp only; omega, h₃⟩, hgs⟩
            · exact ⟨⟨h₁, by simp only; omega, by simp only; omega⟩,
                hgs.mono (by simp only; omega) (Nat.le_refl _)⟩

theorem fillGaps_eq {M kept : Nat} (hM : kept + gs.length < M)
    (hN : kept + (GapTracker.fillGaps M start stop kept gs).length ≤ N) :
    GapTracker.fillGaps N start stop kept gs = GapTracker.fillGaps M start stop kept gs := by
  induction gs generalizing kept with
  | nil => rfl
  | cons g gs ih =>
    rw [List.length_cons] at hM
    simp only [GapTracker.fillGaps] at hN ⊢
    split at hN
    · rename_i hc
      rw [if_pos hc, if_pos hc, ih (by omega) hN]
    · rename_i hc
      rw [if_neg hc, if_neg hc]
      split at hN
      · rename_i hc
        rw [List.length_cons] at hN
        rw [if_pos hc, if_pos hc, ih (by omega) (by omega)]
      · rename_i hc
        rw [if_neg hc, if_neg hc]
        split at hN
        · rename_i hc
          rw [List.length_cons] at hN
          rw [if_pos hc, if_pos hc, ih (by omega) (by omega)]
        · rename_i hc
          rw [if_neg hc, if_neg hc]
          split at hN
          · rename_i hc
            rw [List.length_cons] at hN
            rw [if_pos hc, if_pos hc, ih (by omega) (by omega)]
          · rename_i hc
            rw [if_neg hc, if_neg hc, if_pos (show kept + 1 + gs.length < M by omega)]
            rw [if_pos (show kept + 1 + gs.length < M by omega), List.length_cons,
              List.length_cons] at hN
            rw [if_pos (by omega)]

theorem fill_eq {t : GapTracker} {M : Nat} (hM : t.gaps.length < M)
    (hN : (t.fill M start stop).gaps.length ≤ N) : t.fill N start stop = t.fill M start stop := by
  unfold GapTracker.fill at hN ⊢
  by_cases hge : start ≥ t.high
  · rw [if_pos hge] at hN
    rw [if_pos hge, if_pos hge]
    by_cases hgap : start > t.high
    · rw [if_pos ⟨hgap, hM⟩, List.length_append, List.length_singleton] at hN
      rw [if_pos ⟨hgap, hN⟩, if_pos ⟨hgap, hM⟩]
    · rw [if_neg fun hc => hgap hc.1, if_neg fun hc => hgap hc.1]
  · rw [if_neg hge] at hN
    have hlen : 0 + (fillGaps M start stop 0 t.gaps).length ≤ N := by
      rw [Nat.zero_add]
      exact hN
    rw [if_neg hge, if_neg hge, fillGaps_eq (by omega) hlen]

theorem fillGaps_empty (h : Spaced hi lo gs) (hout : ∀ g ∈ gs, start ≤ g.start ∨ g.stop ≤ start)
    (kept : Nat) : GapTracker.fillGaps N start start kept gs = gs := by
  induction gs generalizing lo kept with
  | nil => rfl
  | cons g gs ih =>
    obtain ⟨⟨h₁, h₂, h₃⟩, hgs⟩ := h
    have hg := hout g (List.mem_cons_self ..)
    rw [GapTracker.fillGaps, if_neg (by omega), if_pos hg,
      ih hgs fun g' hg' => hout g' (List.mem_cons_of_mem _ hg')]

theorem Spaced.shift {amount : Nat} (h : Spaced hi lo gs) :
    Spaced (hi - amount) (lo - amount)
      ((gs.filter fun g => g.stop > amount).map fun g => ⟨g.start - amount, g.stop - amount⟩) := by
  induction gs generalizing lo with
  | nil => trivial
  | cons g gs ih =>
    obtain ⟨⟨h₁, h₂, h₃⟩, hgs⟩ := h
    by_cases hkeep : g.stop > amount
    · rw [List.filter_cons_of_pos (by simpa using hkeep), List.map_cons]
      refine ⟨⟨by simp only; omega, by simp only; omega, by simp only; omega⟩, ?_⟩
      exact (ih hgs).mono (by simp only; omega) (Nat.le_refl _)
    · rw [List.filter_cons_of_neg (by simpa using hkeep)]
      exact (ih hgs).mono (by omega) (Nat.le_refl _)

theorem Spaced.not_covers_before (h : Spaced hi lo gs) {g : Interval} (hg : g ∈ gs)
    (hpos : 0 < g.start) : ¬ Covers gs (g.start - 1) := by
  induction gs generalizing lo with
  | nil => cases hg
  | cons g' gs ih =>
    obtain ⟨hg', hgs⟩ := h
    rw [covers_cons]
    rcases List.mem_cons.1 hg with rfl | hg
    · intro hx
      rcases hx with hx | hx
      · omega
      · have := hgs.ordered.covers hx
        omega
    · have hmem := hgs.ordered.mem hg
      intro hx
      rcases hx with hx | hx
      · omega
      · exact ih hgs hg hx

theorem Spaced.nodup_starts (h : Spaced hi lo gs) : (gs.map Interval.start).Nodup := by
  induction gs generalizing lo with
  | nil => exact List.nodup_nil
  | cons g gs ih =>
    obtain ⟨hg, hgs⟩ := h
    rw [List.map_cons, List.nodup_cons]
    refine ⟨fun hmem => ?_, ih hgs⟩
    obtain ⟨g', hg', heq⟩ := List.mem_map.1 hmem
    have := hgs.ordered.mem hg'
    omega

end Spaced

/-! ## The filled bytes -/

/-- The maximal ranges below `top` that are not filled, counted at their first bytes. -/
def separateGaps (filled : Nat → Bool) (top : Nat) : Nat :=
  (List.range top).countP fun x => !filled x && (x == 0 || filled (x - 1))

theorem Spaced.separateGaps_eq {gs : List Interval} {top : Nat} (h : Spaced top 0 gs)
    {filled : Nat → Bool} (hfilled : ∀ x < top, filled x = false ↔ Covers gs x) :
    separateGaps filled top = gs.length := by
  rw [separateGaps, List.countP_eq_length_filter, ← List.length_map (f := Interval.start)]
  apply List.Perm.length_eq
  rw [List.perm_ext_iff_of_nodup (List.nodup_range.filter _) h.nodup_starts]
  intro x
  simp only [List.mem_filter, List.mem_range, Bool.and_eq_true, Bool.not_eq_true',
    Bool.or_eq_true, beq_iff_eq, List.mem_map]
  constructor
  · intro hx
    obtain ⟨g, hg, h₁, h₂⟩ := (hfilled x hx.1).1 hx.2.1
    refine ⟨g, hg, ?_⟩
    by_contra hne
    have hbefore : filled (x - 1) = false :=
      (hfilled (x - 1) (by omega)).2 ⟨g, hg, by omega, by omega⟩
    rcases hx.2.2 with hzero | hprev
    · omega
    · rw [hbefore] at hprev
      cases hprev
  · intro hx
    obtain ⟨g, hg, rfl⟩ := hx
    have hmem := h.ordered.mem hg
    refine ⟨by omega, (hfilled _ (by omega)).2 ⟨g, hg, Nat.le_refl _, hmem.2.1⟩, ?_⟩
    by_cases hzero : g.start = 0
    · exact Or.inl hzero
    · have hnot := h.not_covers_before hg (Nat.pos_of_ne_zero hzero)
      rw [← hfilled _ (by omega), Bool.not_eq_false] at hnot
      exact Or.inr hnot

inductive Call where
  | fill (start stop : Nat)
  | shift (amount : Nat)

/-- A tracker with the bytes that were filled and the end of the highest filled range. -/
structure Record where
  tracker : GapTracker
  filled : Nat → Bool
  top : Nat

namespace Record

def new : Record := ⟨GapTracker.new, fun _ => false, 0⟩

def next (N : Nat) (s : Record) : Call → Record
  | .fill start stop =>
      { tracker := s.tracker.fill N start stop
        filled := fun x => decide (start ≤ x ∧ x < stop) || s.filled x
        top := max s.top stop }
  | .shift amount =>
      { tracker := s.tracker.shift amount
        filled := fun x => s.filled (x + amount)
        top := s.top - amount }

/-- A range is not reversed, and no more than `N` separate gaps are left. -/
def Allowed (N : Nat) (s : Record) (call : Call) : Prop :=
  (∀ start stop, call = .fill start stop → start ≤ stop) ∧
    separateGaps (s.next N call).filled (s.next N call).top ≤ N

/-- The range does not cross the mark.  If it is empty, it is neither above the mark nor
strictly inside a gap. -/
def Fits (s : Record) : Call → Prop
  | .fill start stop =>
      ¬ (start < s.top ∧ s.top < stop) ∧
        (start = stop → start ≤ s.top ∧
          (start = 0 ∨ s.filled (start - 1) = true ∨ s.filled start = true))
  | .shift _ => True

/-- The gaps are the unfilled ranges below the mark. -/
structure Faithful (s : Record) : Prop where
  spaced : Spaced s.tracker.high 0 s.tracker.gaps
  high : s.tracker.high = s.top
  filled : ∀ x, s.filled x = false ↔ s.tracker.Missing x

theorem faithful_new : new.Faithful :=
  ⟨trivial, rfl, fun x => iff_of_true rfl (missing_new x)⟩

theorem Faithful.covers {s : Record} (h : s.Faithful) {x : Nat} (hx : x < s.top) :
    s.filled x = false ↔ Covers s.tracker.gaps x := by
  rw [h.filled, Missing, h.high]
  constructor
  · intro hm
    rcases hm with hm | hm
    · exact hm
    · omega
  · exact Or.inl

theorem Faithful.separateGaps_eq {s : Record} (h : s.Faithful) :
    separateGaps s.filled s.top = s.tracker.gaps.length :=
  Spaced.separateGaps_eq (h.high ▸ h.spaced) fun _ => h.covers

theorem Faithful.fill_above {s : Record} (h : s.Faithful) {N start stop : Nat}
    (hge : s.top ≤ start) (hlt : start < stop) (hN : s.tracker.gaps.length < N) :
    (s.next N (.fill start stop)).Faithful := by
  have hhigh := h.high
  have hmax : max s.top stop = stop := Nat.max_eq_right (by omega)
  simp only [next, GapTracker.fill]
  rw [if_pos (show start ≥ s.tracker.high by omega)]
  by_cases hgap : start > s.tracker.high
  · rw [if_pos ⟨hgap, hN⟩]
    refine ⟨h.spaced.append (Nat.zero_le _) hgap hlt, hmax.symm, fun x => ?_⟩
    simp only [Bool.or_eq_false_iff, decide_eq_false_iff_not, h.filled, Missing, Covers,
      List.mem_append, List.mem_singleton, or_and_right, exists_or, exists_eq_left]
    have hcov := h.spaced.ordered.covers (x := x)
    rw [Covers] at hcov
    constructor
    · intro hx
      rcases hx.2 with hcovers | hle
      · exact Or.inl (Or.inl hcovers)
      · by_cases hxs : x < start
        · exact Or.inl (Or.inr ⟨hle, hxs⟩)
        · exact Or.inr (by omega)
    · intro hx
      rcases hx with (hcovers | hnew) | hle
      · have := hcov hcovers
        exact ⟨by omega, Or.inl hcovers⟩
      · exact ⟨by omega, Or.inr hnew.1⟩
      · exact ⟨by omega, Or.inr (by omega)⟩
  · rw [if_neg fun hc => hgap hc.1]
    refine ⟨h.spaced.mono (Nat.le_refl _) (by simp only; omega), hmax.symm, fun x => ?_⟩
    simp only [Bool.or_eq_false_iff, decide_eq_false_iff_not, h.filled, Missing]
    have hcov := h.spaced.ordered.covers (x := x)
    constructor
    · intro hx
      rcases hx.2 with hcovers | hle
      · exact Or.inl hcovers
      · exact Or.inr (by omega)
    · intro hx
      rcases hx with hcovers | hle
      · have := hcov hcovers
        exact ⟨by omega, Or.inl hcovers⟩
      · exact ⟨by omega, Or.inr (by omega)⟩

theorem Faithful.fill_below {s : Record} (h : s.Faithful) {N start stop : Nat}
    (hbelow : start < s.top) (hlt : start < stop) (hle : stop ≤ s.top)
    (hN : s.tracker.gaps.length < N) : (s.next N (.fill start stop)).Faithful := by
  have hhigh := h.high
  have hroom : 0 + s.tracker.gaps.length < N := by omega
  have hcovers := covers_fillGaps h.spaced.ordered hlt hroom
  simp only [next, GapTracker.fill]
  rw [if_neg (show ¬ start ≥ s.tracker.high by omega)]
  refine ⟨h.spaced.fillGaps hlt 0, by simp only; omega, fun x => ?_⟩
  simp only [Bool.or_eq_false_iff, decide_eq_false_iff_not, h.filled, Missing, hcovers]
  constructor
  · intro hx
    rcases hx.2 with hc | hc
    · exact Or.inl ⟨hc, hx.1⟩
    · exact Or.inr hc
  · intro hx
    rcases hx with hc | hc
    · exact ⟨hc.2, Or.inl hc.1⟩
    · exact ⟨by omega, Or.inr hc⟩

theorem Faithful.fill_empty {s : Record} (h : s.Faithful) {N start : Nat} (hle : start ≤ s.top)
    (hout : start = 0 ∨ s.filled (start - 1) = true ∨ s.filled start = true) :
    (s.next N (.fill start start)).Faithful := by
  have hhigh := h.high
  have hsame : s.tracker.fill N start start = s.tracker := by
    unfold GapTracker.fill
    by_cases hge : start ≥ s.tracker.high
    · rw [if_pos hge, if_neg (by omega), show start = s.tracker.high by omega]
    · rw [if_neg hge, fillGaps_empty h.spaced]
      intro g hg
      by_contra hin
      have hbefore : s.filled (start - 1) = false :=
        (h.filled _).2 (Or.inl ⟨g, hg, by omega, by omega⟩)
      have hat : s.filled start = false := (h.filled _).2 (Or.inl ⟨g, hg, by omega, by omega⟩)
      rw [hbefore, hat] at hout
      simp at hout
      omega
  simp only [next, hsame]
  refine ⟨h.spaced, by simp only; omega, fun x => ?_⟩
  rw [Bool.or_eq_false_iff, h.filled, decide_eq_false_iff_not]
  exact ⟨And.right, fun hx => ⟨by omega, hx⟩⟩

theorem Faithful.shift {s : Record} (h : s.Faithful) (N amount : Nat) :
    (s.next N (.shift amount)).Faithful := by
  refine ⟨?_, ?_, fun x => ?_⟩
  · exact h.spaced.shift.mono (Nat.zero_le _) (Nat.le_refl _)
  · simp only [next, GapTracker.shift, h.high]
  · simp only [next]
    rw [h.filled, missing_shift]

theorem Faithful.next {s : Record} (h : s.Faithful) {N : Nat} {call : Call}
    (hallowed : s.Allowed N call) (hfits : s.Fits call) : (s.next N call).Faithful := by
  cases call with
  | shift amount => exact h.shift N amount
  | fill start stop =>
    have hle := hallowed.1 start stop rfl
    by_cases hempty : start = stop
    · subst hempty
      have hin := hfits.2 rfl
      exact h.fill_empty hin.1 hin.2
    · have hlt : start < stop := by omega
      -- a vector of one place more than there are gaps has room for any call
      have hroom : (s.next (s.tracker.gaps.length + 1) (.fill start stop)).Faithful := by
        by_cases hbelow : start < s.top
        · exact h.fill_below hbelow hlt (Nat.le_of_not_lt fun hc => hfits.1 ⟨hbelow, hc⟩)
            (Nat.lt_succ_self _)
        · exact h.fill_above (by omega) hlt (Nat.lt_succ_self _)
      have hcount : separateGaps (s.next N (.fill start stop)).filled
          (s.next N (.fill start stop)).top =
            (s.tracker.fill (s.tracker.gaps.length + 1) start stop).gaps.length :=
        hroom.separateGaps_eq
      have hsame : s.next N (.fill start stop) =
          s.next (s.tracker.gaps.length + 1) (.fill start stop) := by
        simp only [Record.next]
        rw [fill_eq (Nat.lt_succ_self _) (hcount ▸ hallowed.2)]
      rw [hsame]
      exact hroom

/-! ## Completeness -/

/-- Below the mark or behind a gap, `isCompleteTo` tells whether all bytes are filled, and
elsewhere it does not. -/
theorem Faithful.isCompleteTo_iff {s : Record} (h : s.Faithful) (x : Nat) :
    (s.tracker.isCompleteTo x = true ↔ ∀ y < x, s.filled y = true) ↔
      (x ≤ s.top ∨ ∃ y < s.top, s.filled y = false) := by
  have hcomplete : s.tracker.isCompleteTo x = true ↔ ∀ g ∈ s.tracker.gaps, x ≤ g.start := by
    simp [isCompleteTo]
  rw [hcomplete]
  by_cases hx : x ≤ s.top
  · refine iff_of_true ⟨fun hall y hy => ?_, fun hall g hg => ?_⟩ (Or.inl hx)
    · by_contra hnot
      rw [Bool.not_eq_true, h.covers (by omega)] at hnot
      obtain ⟨g, hg, hstart, -⟩ := hnot
      have := hall g hg
      omega
    · by_contra hlt
      have hmem := h.spaced.ordered.mem hg
      have hgap : s.filled g.start = false :=
        (h.filled _).2 (Or.inl ⟨g, hg, Nat.le_refl _, hmem.2.1⟩)
      rw [hall g.start (by omega)] at hgap
      cases hgap
  · have htop : s.filled s.top = false := (h.filled _).2 (Or.inr (Nat.le_of_eq h.high))
    have hunfilled : ¬ ∀ y < x, s.filled y = true := by
      intro hall
      rw [hall s.top (by omega)] at htop
      cases htop
    rw [or_iff_right hx, iff_false_right hunfilled]
    constructor
    · intro hgap
      rw [not_forall] at hgap
      obtain ⟨g, hg⟩ := hgap
      rw [Classical.not_imp] at hg
      have hmem := h.spaced.ordered.mem hg.1
      have hhigh := h.high
      exact ⟨g.start, by omega, (h.filled _).2 (Or.inl ⟨g, hg.1, Nat.le_refl _, hmem.2.1⟩)⟩
    · intro hgap hall
      obtain ⟨y, hy, hyf⟩ := hgap
      obtain ⟨g, hg, hstart, -⟩ := (h.covers hy).1 hyf
      have := hall g hg
      omega

/-- The gaps are sorted and keep apart, none is empty, and `isCompleteTo` tells for every
offset whether the bytes below it are filled. -/
structure Exact (s : Record) : Prop where
  sorted : s.tracker.gaps.Pairwise fun g g' => g.stop ≤ g'.start
  nonempty : ∀ g ∈ s.tracker.gaps, g.start < g.stop
  complete : ∀ x, s.tracker.isCompleteTo x = true ↔ ∀ y < x, s.filled y = true

theorem pairwise_of_spaced {hi lo : Nat} {gs : List Interval} (h : Spaced hi lo gs) :
    gs.Pairwise fun g g' => g.stop ≤ g'.start := by
  induction gs generalizing lo with
  | nil => exact List.Pairwise.nil
  | cons g gs ih =>
    refine List.pairwise_cons.2 ⟨fun g' hg' => ?_, ih h.2⟩
    have := h.2.ordered.mem hg'
    omega

end Record

/-! ## Runs -/

/-- The calls on a tracker with `N` places. -/
def calls (N : Nat) : System Record Call where
  init s := s = Record.new
  step s call s' := s' = s.next N call

theorem faithful_of_reaches {N : Nat} {s : Record}
    (h : (calls N).Reaches (fun s call => s.Allowed N call ∧ s.Fits call) s) : s.Faithful := by
  refine h.invariant Record.Faithful ?_ ?_
  · intro s hs
    rw [hs]
    exact Record.faithful_new
  · intro s call s' hs hok hstep
    rw [hstep]
    exact hs.next hok.1 hok.2

/-- While every range fits, the gaps are sorted, disjoint and not empty, and `isCompleteTo`
is right about an offset just when it is not above the mark of a tracker without gaps. -/
theorem exact_of_fits (N : Nat) (s : Record)
    (h : (calls N).Reaches (fun s call => s.Allowed N call ∧ s.Fits call) s) :
    (s.tracker.gaps.Pairwise fun g g' => g.stop ≤ g'.start) ∧
      (∀ g ∈ s.tracker.gaps, g.start < g.stop) ∧
      ∀ x, (s.tracker.isCompleteTo x = true ↔ ∀ y < x, s.filled y = true) ↔
        (x ≤ s.top ∨ ∃ y < s.top, s.filled y = false) := by
  have hs := faithful_of_reaches h
  exact ⟨Record.pairwise_of_spaced hs.spaced, fun g hg => (hs.spaced.ordered.mem hg).2.1,
    hs.isCompleteTo_iff⟩

theorem exact_of_fits_at_three_calls :
    let s := [Call.fill 0 10, .fill 20 30, .shift 5].foldl (Record.next 1) Record.new
    (s.tracker.gaps.Pairwise fun g g' => g.stop ≤ g'.start) ∧
      (∀ g ∈ s.tracker.gaps, g.start < g.stop) ∧
      ∀ x, (s.tracker.isCompleteTo x = true ↔ ∀ y < x, s.filled y = true) ↔
        (x ≤ s.top ∨ ∃ y < s.top, s.filled y = false) := by
  refine exact_of_fits 1 _ (System.Reaches.foldl
    (r := fun (s : Record) call => s.Allowed 1 call ∧ s.Fits call) (fun _ _ h => ⟨h, rfl⟩)
    (.init rfl) ?_)
  refine ⟨⟨⟨fun a b h => ?_, by decide⟩, by decide, fun h => ?_⟩,
    ⟨⟨fun a b h => ?_, by decide⟩, by decide, fun h => ?_⟩,
    ⟨⟨fun a b h => ?_, by decide⟩, trivial⟩, trivial⟩
  all_goals cases h
  all_goals decide

/-- A range across the mark leaves the mark behind, and the next gap hides bytes that are
filled. -/
theorem not_exact_across_mark :
    ¬ ∀ N s, (calls N).Reaches (fun s call => s.Allowed N call) s → s.Exact := by
  intro hall
  have hreach : (calls 8).Reaches (fun s call => s.Allowed 8 call)
      ([Call.fill 0 10, .fill 5 20, .fill 30 40].foldl (Record.next 8) Record.new) := by
    refine System.Reaches.foldl (r := fun (s : Record) call => s.Allowed 8 call)
      (fun _ _ h => ⟨h, rfl⟩) (.init rfl) ?_
    refine ⟨⟨fun a b h => ?_, by decide⟩, ⟨fun a b h => ?_, by decide⟩,
      ⟨fun a b h => ?_, by decide⟩, trivial⟩
    all_goals cases h
    all_goals decide
  have hcomplete := ((hall 8 _ hreach).complete 15).2 (by decide)
  revert hcomplete
  decide

end GapTracker

end Srspp
end Leodos
