/-
The gap list of the Lite backend.

A tracker lists the unfilled byte ranges below its high-water mark.  `Missing` is
what a tracker means: the bytes of its gaps and everything from the mark on.  The
operations are characterized on `Missing`, for trackers whose gaps are in order and
tile into units of one slot.
-/
import Mathlib.Algebra.Order.Group.Nat
import Mathlib.Data.List.Sort
import Mathlib.Data.Nat.Basic
import Mathlib.Logic.Function.Iterate
import Leodos.Memory.Cells
import Leodos.Srspp.Receiver.Backend

namespace Leodos
namespace Srspp

/-- A half-open byte range. -/
structure Interval where
  start : Nat
  stop : Nat
  deriving DecidableEq, Repr

structure GapTracker where
  gaps : List Interval
  high : Nat
  deriving DecidableEq, Repr

namespace GapTracker

def new : GapTracker := ⟨[], 0⟩

/-- The loop of `fill` over the gaps behind the first `kept`.  `N` is the capacity of
the vector: a split of a full vector loses its upper half. -/
def fillGaps (N start stop : Nat) : Nat → List Interval → List Interval
  | _, [] => []
  | kept, g :: gs =>
      if start ≤ g.start ∧ stop ≥ g.stop then fillGaps N start stop kept gs
      else if stop ≤ g.start ∨ start ≥ g.stop then g :: fillGaps N start stop (kept + 1) gs
      else if start ≤ g.start then
        { g with start := stop } :: fillGaps N start stop (kept + 1) gs
      else if stop ≥ g.stop then
        { g with stop := start } :: fillGaps N start stop (kept + 1) gs
      else if kept + 1 + gs.length < N then { g with stop := start } :: ⟨stop, g.stop⟩ :: gs
      else { g with stop := start } :: gs

def fill (N : Nat) (t : GapTracker) (start stop : Nat) : GapTracker :=
  if start ≥ t.high then
    { gaps :=
        if start > t.high ∧ t.gaps.length < N then t.gaps ++ [⟨t.high, start⟩] else t.gaps
      high := stop }
  else { t with gaps := fillGaps N start stop 0 t.gaps }

def isCompleteTo (t : GapTracker) (offset : Nat) : Bool :=
  !t.gaps.any fun g => g.start < offset

def shift (t : GapTracker) (amount : Nat) : GapTracker where
  gaps := (t.gaps.filter fun g => g.stop > amount).map fun g =>
    ⟨g.start - amount, g.stop - amount⟩
  high := t.high - amount

def hasGaps (t : GapTracker) : Bool := !t.gaps.isEmpty

def reset (_ : GapTracker) : GapTracker := new

/-! ## Ordered gap lists -/

/-- The gaps lie in order from `lo` on, below `hi`, and begin and end on a multiple
of `unit`. -/
def Ordered (unit hi : Nat) : Nat → List Interval → Prop
  | _, [] => True
  | lo, g :: gs =>
      (lo ≤ g.start ∧ g.start < g.stop ∧ g.stop < hi ∧ unit ∣ g.start ∧ unit ∣ g.stop) ∧
        Ordered unit hi g.stop gs

def Covers (gs : List Interval) (x : Nat) : Prop :=
  ∃ g ∈ gs, g.start ≤ x ∧ x < g.stop

section Gaps

variable {N unit hi lo start stop : Nat} {gs : List Interval}

@[simp] theorem not_covers_nil (x : Nat) : ¬ Covers [] x := by
  rintro ⟨g, hg, -⟩
  cases hg

@[simp] theorem covers_cons (g : Interval) (gs : List Interval) (x : Nat) :
    Covers (g :: gs) x ↔ (g.start ≤ x ∧ x < g.stop) ∨ Covers gs x := by
  simp [Covers]

theorem Ordered.mono (h : Ordered unit hi lo gs) {lo' hi' : Nat} (hlo : lo' ≤ lo)
    (hhi : hi ≤ hi') : Ordered unit hi' lo' gs := by
  induction gs generalizing lo lo' with
  | nil => trivial
  | cons g gs ih =>
    obtain ⟨⟨h₁, h₂, h₃, h₄⟩, hgs⟩ := h
    exact ⟨⟨Nat.le_trans hlo h₁, h₂, Nat.lt_of_lt_of_le h₃ hhi, h₄⟩, ih hgs (Nat.le_refl _)⟩

theorem Ordered.mem (h : Ordered unit hi lo gs) {g : Interval} (hg : g ∈ gs) :
    lo ≤ g.start ∧ g.start < g.stop ∧ g.stop < hi := by
  induction gs generalizing lo with
  | nil => cases hg
  | cons g' gs ih =>
    obtain ⟨⟨h₁, h₂, h₃, -⟩, hgs⟩ := h
    rcases List.mem_cons.1 hg with rfl | hg
    · exact ⟨h₁, h₂, h₃⟩
    · have := ih hgs hg
      omega

theorem Ordered.covers (h : Ordered unit hi lo gs) {x : Nat} (hx : Covers gs x) :
    lo ≤ x ∧ x + 1 < hi := by
  obtain ⟨g, hg, h₁, h₂⟩ := hx
  have := h.mem hg
  omega

theorem Ordered.raise (h : Ordered unit hi lo gs) {lo' : Nat} (hlo : ∀ g ∈ gs, lo' ≤ g.start) :
    Ordered unit hi lo' gs := by
  cases gs with
  | nil => trivial
  | cons g gs => exact ⟨⟨hlo g (List.mem_cons_self ..), h.1.2⟩, h.2⟩

theorem Ordered.length_lt (h : Ordered unit hi lo gs) :
    gs = [] ∨ lo + gs.length * unit < hi := by
  induction gs generalizing lo with
  | nil => exact Or.inl rfl
  | cons g gs ih =>
    obtain ⟨⟨h₁, h₂, h₃, hstart, hstop⟩, hgs⟩ := h
    have hunit : unit ≤ g.stop - g.start :=
      Nat.le_of_dvd (by omega) (Nat.dvd_sub hstop hstart)
    refine Or.inr ?_
    rw [List.length_cons, Nat.succ_mul]
    rcases ih hgs with rfl | hrest
    · simp only [List.length_nil, Nat.zero_mul]
      omega
    · omega

theorem Ordered.append (h : Ordered unit hi lo gs) (hlo : lo ≤ hi) {stop : Nat}
    (hlt : hi < stop) (hhi : unit ∣ hi) (hstop : unit ∣ stop) {hi' : Nat} (hend : stop < hi') :
    Ordered unit hi' lo (gs ++ [⟨hi, stop⟩]) := by
  induction gs generalizing lo with
  | nil => exact ⟨⟨hlo, hlt, hend, hhi, hstop⟩, trivial⟩
  | cons g gs ih =>
    obtain ⟨⟨h₁, h₂, h₃, h₄⟩, hgs⟩ := h
    exact ⟨⟨h₁, h₂, by omega, h₄⟩, ih hgs (Nat.le_of_lt h₃)⟩

theorem Ordered.fillGaps (h : Ordered unit hi lo gs) (hlt : start < stop)
    (hstart : unit ∣ start) (hstop : unit ∣ stop) (kept : Nat) :
    Ordered unit hi lo (fillGaps N start stop kept gs) := by
  induction gs generalizing lo kept with
  | nil => trivial
  | cons g gs ih =>
    obtain ⟨⟨h₁, h₂, h₃, h₄, h₅⟩, hgs⟩ := h
    simp only [GapTracker.fillGaps]
    split
    · exact (ih hgs kept).mono (by omega) (Nat.le_refl _)
    · split
      · exact ⟨⟨h₁, h₂, h₃, h₄, h₅⟩, ih hgs _⟩
      · split
        · exact ⟨⟨by simp only; omega, by simp only; omega, h₃, hstop, h₅⟩, ih hgs _⟩
        · split
          · exact ⟨⟨h₁, by simp only; omega, by simp only; omega, h₄, hstart⟩,
              (ih hgs _).mono (by simp only; omega) (Nat.le_refl _)⟩
          · split
            · exact ⟨⟨h₁, by simp only; omega, by simp only; omega, h₄, hstart⟩,
                ⟨by simp only; omega, by simp only; omega, h₃, hstop, h₅⟩, hgs⟩
            · exact ⟨⟨h₁, by simp only; omega, by simp only; omega, h₄, hstart⟩,
                hgs.mono (by simp only; omega) (Nat.le_refl _)⟩

theorem covers_fillGaps (h : Ordered unit hi lo gs) (hlt : start < stop) {kept : Nat}
    (hroom : kept + gs.length < N) (x : Nat) :
    Covers (GapTracker.fillGaps N start stop kept gs) x ↔
      Covers gs x ∧ ¬ (start ≤ x ∧ x < stop) := by
  induction gs generalizing lo kept with
  | nil => simp [GapTracker.fillGaps]
  | cons g gs ih =>
    obtain ⟨⟨h₁, h₂, h₃, -⟩, hgs⟩ := h
    rw [List.length_cons] at hroom
    have hrest := hgs.covers (x := x)
    simp only [GapTracker.fillGaps]
    split
    · rw [ih hgs (by omega), covers_cons]
      constructor
      · exact fun hx => ⟨Or.inr hx.1, hx.2⟩
      · rintro ⟨hx | hx, hout⟩
        · omega
        · exact ⟨hx, hout⟩
    · split
      · rw [covers_cons, covers_cons, ih hgs (by omega)]
        constructor
        · rintro (hx | hx)
          · exact ⟨Or.inl hx, by omega⟩
          · exact ⟨Or.inr hx.1, hx.2⟩
        · rintro ⟨hx | hx, hout⟩
          · exact Or.inl hx
          · exact Or.inr ⟨hx, hout⟩
      · split
        · rw [covers_cons, covers_cons, ih hgs (by omega)]
          constructor
          · rintro (hx | hx)
            · simp only at hx
              exact ⟨Or.inl (by omega), by omega⟩
            · exact ⟨Or.inr hx.1, hx.2⟩
          · rintro ⟨hx | hx, hout⟩
            · exact Or.inl (by simp only; omega)
            · exact Or.inr ⟨hx, hout⟩
        · split
          · rw [covers_cons, covers_cons, ih hgs (by omega)]
            constructor
            · rintro (hx | hx)
              · simp only at hx
                exact ⟨Or.inl (by omega), by omega⟩
              · exact ⟨Or.inr hx.1, hx.2⟩
            · rintro ⟨hx | hx, hout⟩
              · exact Or.inl (by simp only; omega)
              · exact Or.inr ⟨hx, hout⟩
          · rw [if_pos (by omega), covers_cons, covers_cons, covers_cons]
            simp only
            constructor
            · rintro (hx | hx | hx)
              · exact ⟨Or.inl (by omega), by omega⟩
              · exact ⟨Or.inl (by omega), by omega⟩
              · have := hrest hx
                exact ⟨Or.inr hx, by omega⟩
            · rintro ⟨hx | hx, hout⟩
              · by_cases hlo : x < start
                · exact Or.inl (by omega)
                · exact Or.inr (Or.inl (by omega))
              · exact Or.inr (Or.inr hx)

end Gaps

/-! ## Trackers over slots -/

def Missing (t : GapTracker) (x : Nat) : Prop := Covers t.gaps x ∨ t.high ≤ x

structure Tidy (unit : Nat) (t : GapTracker) : Prop where
  ordered : Ordered unit t.high 0 t.gaps
  high : unit ∣ t.high

section Trackers

variable {N unit : Nat} {t : GapTracker}

theorem tidy_new (unit : Nat) : new.Tidy unit := ⟨trivial, Nat.dvd_zero _⟩

theorem missing_new (x : Nat) : new.Missing x := Or.inr (Nat.zero_le _)

theorem Tidy.not_missing_high (h : t.Tidy unit) (hpos : 0 < t.high) :
    ¬ t.Missing (t.high - 1) := by
  rintro (hx | hx)
  · have := h.ordered.covers hx
    omega
  · omega

theorem Tidy.isCompleteTo_iff (h : t.Tidy unit) {offset : Nat} (hhi : offset ≤ t.high) :
    t.isCompleteTo offset = true ↔ ∀ x < offset, ¬ t.Missing x := by
  simp only [isCompleteTo, Bool.not_eq_true', List.any_eq_false, decide_eq_true_iff]
  constructor
  · rintro hall x hx (⟨g, hg, h₁, -⟩ | hx')
    · have := hall g hg
      omega
    · omega
  · intro hall g hg hlt
    have := h.ordered.mem hg
    exact hall g.start hlt (Or.inl ⟨g, hg, by omega, by omega⟩)

theorem Tidy.fill (h : t.Tidy unit) (hunit : 0 < unit) (hroom : t.gaps.length < N) (j : Nat) :
    (t.fill N (j * unit) (j * unit + unit)).Tidy unit ∧
      ∀ x, (t.fill N (j * unit) (j * unit + unit)).Missing x ↔
        t.Missing x ∧ ¬ (j * unit ≤ x ∧ x < j * unit + unit) := by
  have hstart : unit ∣ j * unit := Nat.dvd_mul_left _ _
  have hstop : unit ∣ j * unit + unit := Nat.dvd_add hstart (Nat.dvd_refl _)
  have hcov := fun x => h.ordered.covers (x := x)
  unfold GapTracker.fill
  by_cases hge : j * unit ≥ t.high
  · rw [if_pos hge]
    by_cases hgt : j * unit > t.high
    · rw [if_pos ⟨hgt, hroom⟩]
      refine ⟨⟨h.ordered.append (Nat.zero_le _) hgt h.high hstart (by simp only; omega), hstop⟩,
        fun x => ?_⟩
      have happ : Covers (t.gaps ++ [⟨t.high, j * unit⟩]) x ↔
          Covers t.gaps x ∨ (t.high ≤ x ∧ x < j * unit) := by
        simp [Covers, or_and_right, exists_or]
      simp only [Missing, happ]
      constructor
      · rintro ((hx | hx) | hx)
        · have := hcov x hx
          exact ⟨Or.inl hx, by omega⟩
        · exact ⟨Or.inr hx.1, by omega⟩
        · exact ⟨Or.inr (by omega), by omega⟩
      · rintro ⟨hx | hx, hout⟩
        · exact Or.inl (Or.inl hx)
        · by_cases hlt : x < j * unit
          · exact Or.inl (Or.inr ⟨hx, hlt⟩)
          · exact Or.inr (by omega)
    · rw [if_neg fun hc => hgt hc.1]
      refine ⟨⟨h.ordered.mono (Nat.le_refl _) (by simp only; omega), hstop⟩, fun x => ?_⟩
      simp only [Missing]
      constructor
      · rintro (hx | hx)
        · have := hcov x hx
          exact ⟨Or.inl hx, by omega⟩
        · exact ⟨Or.inr (by omega), by omega⟩
      · rintro ⟨hx | hx, hout⟩
        · exact Or.inl hx
        · exact Or.inr (by omega)
  · rw [if_neg hge]
    have hle : j * unit + unit ≤ t.high := by
      have := Nat.le_of_dvd (by omega) (Nat.dvd_sub h.high hstart)
      omega
    have hlt : j * unit < j * unit + unit := Nat.lt_add_of_pos_right hunit
    have hcovers := covers_fillGaps (N := N) h.ordered hlt ((Nat.zero_add _).trans_lt hroom)
    refine ⟨⟨h.ordered.fillGaps hlt hstart hstop 0, h.high⟩, fun x => ?_⟩
    simp only [Missing, hcovers]
    constructor
    · rintro (hx | hx)
      · exact ⟨Or.inl hx.1, hx.2⟩
      · exact ⟨Or.inr hx, by omega⟩
    · rintro ⟨hx | hx, hout⟩
      · exact Or.inl ⟨hx, hout⟩
      · exact Or.inr hx

theorem missing_shift (t : GapTracker) (amount x : Nat) :
    (t.shift amount).Missing x ↔ t.Missing (x + amount) := by
  simp only [Missing, shift, Covers, List.mem_map, List.mem_filter, decide_eq_true_iff]
  constructor
  · rintro (⟨_, ⟨g, ⟨hg, hstop⟩, rfl⟩, h₁, h₂⟩ | hx)
    · simp only at h₁ h₂
      exact Or.inl ⟨g, hg, by omega, by omega⟩
    · exact Or.inr (by omega)
  · rintro (⟨g, hg, h₁, h₂⟩ | hx)
    · exact Or.inl ⟨_, ⟨g, ⟨hg, by omega⟩, rfl⟩, by simp only; omega, by simp only; omega⟩
    · exact Or.inr (by omega)

theorem Ordered.shift {hi lo amount : Nat} {gs : List Interval} (h : Ordered unit hi lo gs)
    (hamount : unit ∣ amount) :
    Ordered unit (hi - amount) (lo - amount)
      ((gs.filter fun g => g.stop > amount).map fun g => ⟨g.start - amount, g.stop - amount⟩) := by
  induction gs generalizing lo with
  | nil => trivial
  | cons g gs ih =>
    obtain ⟨⟨h₁, h₂, h₃, h₄, h₅⟩, hgs⟩ := h
    by_cases hkeep : g.stop > amount
    · rw [List.filter_cons_of_pos (by simpa using hkeep), List.map_cons]
      exact ⟨⟨by simp only; omega, by simp only; omega, by simp only; omega,
        Nat.dvd_sub h₄ hamount, Nat.dvd_sub h₅ hamount⟩, ih hgs⟩
    · rw [List.filter_cons_of_neg (by simpa using hkeep)]
      exact (ih hgs).mono (by omega) (Nat.le_refl _)

theorem Tidy.shift (h : t.Tidy unit) {amount : Nat} (hamount : unit ∣ amount) :
    (t.shift amount).Tidy unit :=
  ⟨(h.ordered.shift hamount).mono (Nat.zero_le _) (Nat.le_refl _), Nat.dvd_sub h.high hamount⟩

/-- With every byte below `lo` filled and the mark at most `N` units above, the
vector has room for one gap more. -/
theorem Tidy.room (h : t.Tidy unit) (lo : Nat) (hN : 0 < N)
    (hlo : ∀ x < lo, ¬ t.Missing x) (hhi : t.high ≤ lo + N * unit) : t.gaps.length < N := by
  have hraise : Ordered unit t.high lo t.gaps := h.ordered.raise fun g hg => by
    have := h.ordered.mem hg
    by_cases hlt : g.start < lo
    · exact absurd (Or.inl ⟨g, hg, Nat.le_refl _, this.2.1⟩) (hlo _ hlt)
    · omega
  rcases hraise.length_lt with hnil | hlen
  · rw [hnil]
    exact hN
  · exact Nat.lt_of_mul_lt_mul_right (a := unit) (by omega)

end Trackers

end GapTracker

end Srspp
end Leodos

/-
The Lite receiver backend.

One buffer serves for reordering and reassembly: a packet's payload is put at its
final offset, `MTU` bytes a packet from the first packet of the open message on.  A
gap list says which slots are filled and a sorted list of offsets where the buffered
messages end.  Delivering a message leaves its bytes in place; the buffer is shifted
over them when the next operation begins.
-/

namespace Leodos
namespace Srspp

open Memory Spp

/-- `LiteReceiver<REASM, WIN, MTU>`. -/
structure LiteReceiver where
  base : ReceiverBase
  messageBuf : Bytes
  gaps : GapTracker
  messageEnds : List Nat
  baseSeq : SequenceCount
  reassemblyInProgress : Bool
  completeMessageLen : Option Nat
  pendingShift : Nat
  pendingSegs : Nat

namespace LiteReceiver

def new (REASM : Nat) : LiteReceiver where
  base := ReceiverBase.new
  messageBuf := List.replicate REASM 0
  gaps := GapTracker.new
  messageEnds := []
  baseSeq := 0
  reassemblyInProgress := false
  completeMessageLen := none
  pendingShift := 0
  pendingSegs := 0

/-- `MAX_SEGS`, the packets the buffer has room for. -/
def maxSegs (REASM MTU : Nat) : Nat := REASM / MTU

/-- Drop the first `shift` bytes of the buffer and move the rest down. -/
def shiftBy (REASM : Nat) (r : LiteReceiver) (shift : Nat) : LiteReceiver :=
  { r with
    messageBuf :=
      if shift < REASM then copyWithin r.messageBuf shift (REASM - shift) 0 else r.messageBuf
    gaps := r.gaps.shift shift
    messageEnds := (r.messageEnds.filter fun e => e > shift).map fun e => e - shift }

def applyPendingShift (REASM : Nat) (r : LiteReceiver) : LiteReceiver :=
  if r.pendingShift = 0 then r
  else
    { r.shiftBy REASM r.pendingShift with
      baseSeq := r.baseSeq + BitVec.ofNat 14 r.pendingSegs
      pendingShift := 0
      pendingSegs := 0 }

/-- The shift that `handle_data` and `skip_gap` begin with. -/
def settle (REASM : Nat) (r : LiteReceiver) : LiteReceiver :=
  if r.completeMessageLen.isNone then r.applyPendingShift REASM else r

def segDistance (r : LiteReceiver) (seq : SequenceCount) : Nat :=
  (seq - r.baseSeq).toNat

/-- Put a payload at its offset.  A message end that does not fit the full list is
dropped. -/
def placeSegment (REASM WIN MTU : Nat) (r : LiteReceiver) (seq : SequenceCount)
    (flags : SequenceFlag) (payload : Bytes) : LiteReceiver × Except ReceiverError Unit :=
  let d := r.segDistance seq
  if d ≥ maxSegs REASM MTU then (r, .ok ())
  else
    let start := d * MTU
    let stop := start + payload.length
    if stop > REASM then (r, .error .messageTooLarge)
    else
      ({ r with
          messageBuf := write r.messageBuf start payload
          gaps := r.gaps.fill WIN start (min (start + MTU) REASM)
          messageEnds :=
            if (flags = .last ∨ flags = .unsegmented) ∧ r.messageEnds.length < WIN then
              r.messageEnds.orderedInsert (· < ·) stop
            else r.messageEnds
          reassemblyInProgress := r.reassemblyInProgress || flags == .first }, .ok ())

def deliver (MTU : Nat) (r : LiteReceiver) (msgEnd : Nat) : LiteReceiver :=
  let segs := (msgEnd + MTU - 1) / MTU
  { r with
    messageEnds := r.messageEnds.tail
    completeMessageLen := some msgEnd
    reassemblyInProgress := false
    base := ReceiverBase.advance^[segs] r.base
    pendingShift := segs * MTU
    pendingSegs := segs % 65536 }

/-- Deliver the messages whose slots are all filled.  Every round removes an end, so
as many rounds of fuel as there are ends never run out.  `none` is the `unwrap` of an
end that the shift discarded. -/
def tryDeliver (REASM MTU : Nat) : Nat → LiteReceiver → Option LiteReceiver
  | 0, r => some r
  | fuel + 1, r =>
      match r.messageEnds.head? with
      | none => some r
      | some pre =>
          if r.gaps.isCompleteTo pre = false then some r
          else if r.pendingShift > 0 then
            let r' := r.applyPendingShift REASM
            match r'.messageEnds.head? with
            | none => none
            | some msgEnd => tryDeliver REASM MTU fuel (r'.deliver MTU msgEnd)
          else tryDeliver REASM MTU fuel (r.deliver MTU pre)

def hasGap (r : LiteReceiver) : Bool := r.gaps.hasGaps || !r.messageEnds.isEmpty

def handleData (REASM WIN MTU : Nat) (r : LiteReceiver) (seq : SequenceCount)
    (flags : SequenceFlag) (payload : Bytes) :
    Option (LiteReceiver × Except ReceiverError DataOutcome) :=
  let r := r.settle REASM
  let distance := r.base.distance seq
  let outcome (r' : LiteReceiver) : DataOutcome :=
    ⟨r'.base.expectedSeq != r.base.expectedSeq, r'.hasGap⟩
  if distance = 0 ∨
      distance < maxSegs REASM MTU % 65536 ∧ r.base.isOooDuplicate distance = false then
    let r₁ := if distance > 0 then { r with base := r.base.recordOoo distance } else r
    match r₁.placeSegment REASM WIN MTU seq flags payload with
    | (r₂, .error e) => some (r₂, .error e)
    | (r₂, .ok ()) =>
        match r₂.tryDeliver REASM MTU r₂.messageEnds.length with
        | none => none
        | some r₃ => some (r₃, .ok (outcome r₃))
  else some (r, .ok (outcome r))

def skipGap (REASM MTU : Nat) (r : LiteReceiver) :
    Option (LiteReceiver × Except ReceiverError GapOutcome) :=
  let r := r.settle REASM
  let r :=
    if r.reassemblyInProgress then
      { r with gaps := r.gaps.reset, messageEnds := [], reassemblyInProgress := false }
    else r
  let r := r.shiftBy REASM MTU
  let r := { r with base := r.base.advance, baseSeq := r.baseSeq + 1 }
  match r.tryDeliver REASM MTU r.messageEnds.length with
  | none => none
  | some r' => some (r', .ok ⟨r'.hasGap⟩)

def takeMessage (r : LiteReceiver) : Option Bytes × LiteReceiver :=
  (r.completeMessageLen.map (slice r.messageBuf 0), { r with completeMessageLen := none })

/-- `consume_message` hands the same bytes to a closure. -/
def consumeMessage {β : Type} (r : LiteReceiver) (f : Bytes → β) : Option β × LiteReceiver :=
  (r.takeMessage.1.map f, r.takeMessage.2)

end LiteReceiver

end Srspp
end Leodos
