/-
Packets collected into frames.

The writer's buffer holds the packets of the open batch, one behind the other.  Each finished
frame carries one closed batch, in a form in which the reader finds it.
-/
import Leodos.Datalink.Link
import Leodos.Packing.Batches
import Mathlib.Data.List.Forall2

namespace Leodos
namespace Datalink

open Memory Spp Packing

def size (batch : List Bytes) : Nat := load List.length batch

theorem size_cons (p : Bytes) (batch : List Bytes) : size (p :: batch) = p.length + size batch :=
  rfl

theorem size_append (xs ys : List Bytes) : size (xs ++ ys) = size xs + size ys := load_append xs ys

theorem length_flatten (batch : List Bytes) : batch.flatten.length = size batch := by
  induction batch with
  | nil => rfl
  | cons p batch ih => rw [List.flatten_cons, List.length_append, ih, size_cons]

/-- The reader finds the packets of the batch, and nothing else, in the frame. -/
structure Carries (F : WriterFormat) (R : ReaderFormat) (frame : Bytes) (batch : List Bytes) :
    Prop where
  length : frame.length = F.dataOffset + size batch + F.trailerLen
  layout : R.layout frame = .ok (F.dataOffset, F.dataOffset + size batch)
  data : slice frame F.dataOffset (size batch) = batch.flatten
  pos : 0 < size batch
  fits : size batch ≤ F.maxDataLen

namespace FrameWriter

variable {F : WriterFormat} {R : ReaderFormat} {w : FrameWriter F} {opened : List Bytes}
  {p : Bytes} {room : Nat}

/-- The buffer of `room` octets holds the packets. -/
structure Holds (w : FrameWriter F) (room : Nat) (opened : List Bytes) : Prop where
  buf : w.buf.length = room
  dataLen : w.dataLen = size opened
  fits : size opened ≤ F.maxDataLen
  data : slice w.buf F.dataOffset (size opened) = opened.flatten

theorem holds_new (F : WriterFormat) (room : Nat) : (new F room).Holds room [] where
  buf := List.length_replicate
  dataLen := rfl
  fits := Nat.zero_le _
  data := slice_zero ..

theorem Holds.isEmpty (h : w.Holds room opened) : w.isEmpty = true ↔ size opened = 0 := by
  rw [FrameWriter.isEmpty, h.dataLen, beq_iff_eq]

theorem Holds.push (h : w.Holds room opened)
    (hroom : F.dataOffset + F.maxDataLen + F.trailerLen ≤ room)
    (hp : size opened + p.length ≤ F.maxDataLen) :
    ∃ next, w.push p = .ok next ∧ next.Holds room (opened ++ [p]) := by
  have hsize : size (opened ++ [p]) = size opened + p.length := size_append ..
  have hwrite : F.dataOffset + size opened + p.length ≤ w.buf.length := by
    rw [h.buf]
    omega
  have hpush : w.push p = .ok ⟨w.counters, size opened + p.length,
      write w.buf (F.dataOffset + size opened) p⟩ := by
    rw [FrameWriter.push, FrameWriter.remaining, h.dataLen, if_neg (by omega), if_neg (by omega)]
    dsimp only
    rw [if_neg (Nat.not_lt.2 hwrite)]
  have hold : slice (write w.buf (F.dataOffset + size opened) p) F.dataOffset (size opened) =
      opened.flatten := by
    rw [slice_write_of_disjoint (Or.inl (Nat.le_refl _))]
    exact h.data
  refine ⟨_, hpush, (write_length ..).trans h.buf, hsize.symm, by rw [hsize]; exact hp, ?_⟩
  rw [hsize, slice_add, hold, slice_write_self hwrite, List.flatten_append, List.flatten_singleton]

theorem Holds.push_full (h : w.Holds room opened) (hp : p.length ≤ F.maxDataLen)
    (hfull : F.maxDataLen < size opened + p.length) : w.push p = .error (.error .full) := by
  have hfits := h.fits
  rw [FrameWriter.push, FrameWriter.remaining, h.dataLen, if_neg (by omega), if_pos (by omega)]

theorem Holds.finish (h : w.Holds room opened) (hagree : Agrees F R)
    (hroom : F.dataOffset + F.maxDataLen + F.trailerLen ≤ room) (hpos : 0 < size opened) :
    ∃ frame next, w.finish = (.ok frame, next) ∧ next.Holds room [] ∧
      Carries F R frame opened := by
  have hfits := h.fits
  have htotal : w.total = F.dataOffset + size opened + F.trailerLen := by
    rw [FrameWriter.total, h.dataLen]
  have hlen : (w.buf.take w.total).length = F.dataOffset + size opened + F.trailerLen := by
    rw [List.length_take, h.buf, htotal, Nat.min_eq_left (by omega)]
  obtain ⟨frame, hstamp, hframe, hslice, hlayout⟩ :=
    hagree w.buf.length w.counters (size opened) (w.buf.take w.total) hpos hfits hlen
  have hdata : slice (w.buf.take w.total) F.dataOffset (size opened) = opened.flatten := by
    rw [← h.data, slice, slice, List.drop_take, List.take_take, htotal, Nat.min_eq_left (by omega)]
  have hfinish : w.finish =
      (.ok frame, ⟨F.advance w.counters, 0, write w.buf 0 frame⟩) := by
    rw [FrameWriter.finish]
    dsimp only
    rw [if_neg (by rw [h.buf, htotal]; omega), h.dataLen, hstamp]
  exact ⟨frame, _, hfinish, ⟨(write_length ..).trans h.buf, rfl, Nat.zero_le _, slice_zero ..⟩,
    ⟨hframe.trans hlen, hlayout, hslice.trans hdata, hpos, hfits⟩⟩

end FrameWriter

namespace DatalinkWriter

variable {F : WriterFormat} {R : ReaderFormat} {σ γ ε ε' : Type}

def step (S : SecurityProcessor σ ε') (C : CodingWrite γ ε) (w : DatalinkWriter F σ γ) :
    Op Bytes → Except (Fault (DatalinkError ε)) Unit × DatalinkWriter F σ γ
  | .put data => write S C w data
  | .flush => flush S C w

/-- Calls up to the first that fails. -/
def run (S : SecurityProcessor σ ε') (C : CodingWrite γ ε) :
    List (Op Bytes) → DatalinkWriter F σ γ →
      Except (Fault (DatalinkError ε)) Unit × DatalinkWriter F σ γ
  | [], w => (.ok (), w)
  | op :: ops, w =>
    match step S C w op with
    | (.error fault, w) => (.error fault, w)
    | (.ok (), w) => run S C ops w

/-- A frame that fits the scratch buffer and that the security processor returns at its own length
goes out as it was returned. -/
theorem send_applied {S : SecurityProcessor σ ε'} {w : DatalinkWriter F σ (List Bytes)}
    {frame sealed : Bytes} {security : σ} (hscratch : w.scratch.length = SCRATCH_SIZE)
    (hframe : frame.length ≤ SCRATCH_SIZE)
    (happly : S.apply w.security frame = (.ok frame.length, sealed, security))
    (hsealed : sealed.length = frame.length) :
    ∃ next, send S passWrite w frame = (.ok (), next) ∧ next.frameWriter = w.frameWriter ∧
      next.security = security ∧ next.scratch.length = SCRATCH_SIZE ∧
      next.codingWriter = w.codingWriter ++ [sealed] := by
  have hlen : min frame.length SCRATCH_SIZE = frame.length := Nat.min_eq_left hframe
  have hfits : frame.length ≤ w.scratch.length := by
    rw [hscratch]
    exact hframe
  have hagain : (Memory.write (Memory.write w.scratch 0 frame) 0 sealed).take frame.length =
      sealed := by
    rw [← hsealed]
    exact take_write (by rw [write_length, hsealed]; exact hfits)
  refine ⟨⟨w.frameWriter, security, w.codingWriter ++ [sealed],
    Memory.write (Memory.write w.scratch 0 frame) 0 sealed⟩, ?_, rfl, rfl,
    (write_length ..).trans ((write_length ..).trans hscratch), rfl⟩
  rw [send]
  dsimp only
  rw [hlen, List.take_length, take_write hfits, happly]
  dsimp only [passWrite]
  rw [if_neg (by rw [write_length, write_length]; exact Nat.not_lt.2 hfits), hagain]

theorem send_plain {w : DatalinkWriter F Unit (List Bytes)} {frame : Bytes}
    (hscratch : w.scratch.length = SCRATCH_SIZE) (hframe : frame.length ≤ SCRATCH_SIZE) :
    ∃ next, send (NoSecurity : SecurityProcessor Unit Empty) passWrite w frame = (.ok (), next) ∧
      next.frameWriter = w.frameWriter ∧ next.scratch.length = SCRATCH_SIZE ∧
      next.codingWriter = w.codingWriter ++ [frame] := by
  obtain ⟨next, hsend, hwriter, -, hnext, hsent⟩ :=
    send_applied (S := NoSecurity) hscratch hframe rfl rfl
  exact ⟨next, hsend, hwriter, hnext, hsent⟩

structure Collects (F : WriterFormat) (R : ReaderFormat) (room : Nat)
    (w : DatalinkWriter F Unit (List Bytes)) (b : Batches Bytes) : Prop where
  holds : w.frameWriter.Holds room b.opened
  scratch : w.scratch.length = SCRATCH_SIZE
  sent : List.Forall₂ (Carries F R) w.codingWriter b.closed
  pos : ∀ p ∈ b.opened, 0 < p.length

theorem collects_new (F : WriterFormat) (R : ReaderFormat) (room : Nat) :
    Collects F R room (new (.new F room) [] ()) Batches.empty where
  holds := FrameWriter.holds_new F room
  scratch := List.length_replicate
  sent := .nil
  pos := fun _ hp => absurd hp List.not_mem_nil

section Plain

variable {room : Nat} {w : DatalinkWriter F Unit (List Bytes)} {b : Batches Bytes}
  (hagree : Agrees F R) (hroom : F.dataOffset + F.maxDataLen + F.trailerLen ≤ room)
  (hscratch : F.dataOffset + F.maxDataLen + F.trailerLen ≤ SCRATCH_SIZE)

include hagree hroom hscratch

theorem Collects.flush (h : Collects F R room w b) :
    ∃ next, flush (NoSecurity : SecurityProcessor Unit Empty) passWrite w = (.ok (), next) ∧
      Collects F R room next b.close := by
  obtain ⟨closed, opened⟩ := b
  have hholds : w.frameWriter.Holds room opened := h.holds
  cases opened with
  | nil =>
    have hempty : w.frameWriter.isEmpty = true := hholds.isEmpty.2 rfl
    refine ⟨w, ?_, h⟩
    rw [DatalinkWriter.flush, if_pos hempty]
  | cons p rest =>
    have hpos : 0 < size (p :: rest) := by
      have hp := h.pos p List.mem_cons_self
      rw [size_cons]
      omega
    obtain ⟨frame, frameWriter, hfinish, hnext, hcarries⟩ := hholds.finish hagree hroom hpos
    have hframe : frame.length ≤ SCRATCH_SIZE := by
      have hfits := hcarries.fits
      rw [hcarries.length]
      omega
    obtain ⟨next, hsend, hwriter, hscratch', hsent⟩ :=
      send_plain (w := { w with frameWriter := frameWriter }) h.scratch hframe
    refine ⟨next, ?_, ?_, hscratch', ?_, fun q hq => absurd hq List.not_mem_nil⟩
    · rw [DatalinkWriter.flush, if_neg (fun he => by rw [hholds.isEmpty] at he; omega), hfinish]
      exact hsend
    · rw [hwriter]
      exact hnext
    · rw [hsent]
      exact List.rel_append h.sent (.cons hcarries .nil)

theorem Collects.write {p : Bytes} (h : Collects F R room w b) (hpos : 0 < p.length)
    (hp : p.length ≤ F.maxDataLen) :
    ∃ next, write (NoSecurity : SecurityProcessor Unit Empty) passWrite w p = (.ok (), next) ∧
      Collects F R room next (b.put List.length F.maxDataLen p) := by
  by_cases hfits : size b.opened + p.length ≤ F.maxDataLen
  · obtain ⟨frameWriter, hpush, hnext⟩ := h.holds.push hroom hfits
    have hput : b.put List.length F.maxDataLen p = { b with opened := b.opened ++ [p] } :=
      if_pos hfits
    refine ⟨{ w with frameWriter := frameWriter }, ?_, ?_⟩
    · rw [DatalinkWriter.write, hpush]
    · rw [hput]
      refine ⟨hnext, h.scratch, h.sent, fun q hq => ?_⟩
      rcases List.mem_append.1 hq with hold | hnew
      · exact h.pos q hold
      · rw [List.mem_singleton.1 hnew]
        exact hpos
  · have hput : b.put List.length F.maxDataLen p = ⟨b.closed ++ [b.opened], [p]⟩ := if_neg hfits
    have hclose : b.close = ⟨b.closed ++ [b.opened], []⟩ := by
      obtain ⟨closed, opened⟩ := b
      cases opened with
      | nil => exact absurd ((Nat.zero_add p.length).symm ▸ hp) hfits
      | cons q rest => rfl
    obtain ⟨flushed, hflush, hcollects⟩ := h.flush hagree hroom hscratch
    rw [hclose] at hcollects
    have hholds : flushed.frameWriter.Holds room [] := hcollects.holds
    obtain ⟨frameWriter, hpush, hnext⟩ := hholds.push hroom
      (show size [] + p.length ≤ F.maxDataLen from (Nat.zero_add p.length).symm ▸ hp)
    refine ⟨{ flushed with frameWriter := frameWriter }, ?_, ?_⟩
    · rw [DatalinkWriter.write, h.holds.push_full hp (Nat.lt_of_not_le hfits), hflush]
      dsimp only
      rw [hpush]
    · rw [hput]
      refine ⟨hnext, hcollects.scratch, hcollects.sent, fun q hq => ?_⟩
      rw [List.mem_singleton.1 hq]
      exact hpos

theorem Collects.step {op : Op Bytes} (h : Collects F R room w b)
    (hop : ∀ p ∈ puts [op], 0 < p.length ∧ p.length ≤ F.maxDataLen) :
    ∃ next, step (NoSecurity : SecurityProcessor Unit Empty) passWrite w op = (.ok (), next) ∧
      Collects F R room next (b.step List.length F.maxDataLen op) := by
  cases op with
  | put p =>
    obtain ⟨hpos, hp⟩ := hop p List.mem_cons_self
    exact h.write hagree hroom hscratch hpos hp
  | flush => exact h.flush hagree hroom hscratch

theorem Collects.run {ops : List (Op Bytes)} (h : Collects F R room w b)
    (hops : ∀ p ∈ puts ops, 0 < p.length ∧ p.length ≤ F.maxDataLen) :
    ∃ next, run (NoSecurity : SecurityProcessor Unit Empty) passWrite ops w = (.ok (), next) ∧
      Collects F R room next (ops.foldl (Batches.step List.length F.maxDataLen) b) := by
  induction ops generalizing w b with
  | nil => exact ⟨w, rfl, h⟩
  | cons op ops ih =>
    rw [puts_cons] at hops
    obtain ⟨mid, hstep, hmid⟩ :=
      h.step hagree hroom hscratch fun p hp => hops p (List.mem_append_left _ hp)
    obtain ⟨next, hrun, hnext⟩ := ih hmid fun p hp => hops p (List.mem_append_right _ hp)
    refine ⟨next, ?_, hnext⟩
    rw [DatalinkWriter.run, hstep]
    exact hrun

theorem run_flushed {ops : List (Op Bytes)}
    (hops : ∀ p ∈ puts ops, 0 < p.length ∧ p.length ≤ F.maxDataLen) :
    ∃ next batches, DatalinkWriter.run (NoSecurity : SecurityProcessor Unit Empty) passWrite
        (ops ++ [.flush]) (new (.new F room) [] ()) = (.ok (), next) ∧
      List.Forall₂ (Carries F R) next.codingWriter batches ∧ batches.flatten = puts ops := by
  have hops : ∀ p ∈ puts (ops ++ [.flush]), 0 < p.length ∧ p.length ≤ F.maxDataLen := by
    rw [puts_append]
    exact fun p hp => hops p ((List.append_nil (puts ops)).subst hp)
  obtain ⟨next, hrun, hcollects⟩ :=
    (collects_new F R room).run hagree hroom hscratch hops
  rw [List.foldl_append] at hcollects
  let b := Batches.run List.length F.maxDataLen ops
  have hcollects : Collects F R room next b.close := hcollects
  refine ⟨next, b.close.closed, hrun, hcollects.sent, ?_⟩
  -- The last flush leaves nothing open, so the closed batches hold all packets.
  have hitems : b.close.items = puts ops := Batches.items_close.trans (Batches.items_run ops)
  rw [Batches.items, Batches.opened_close, List.append_nil] at hitems
  exact hitems

end Plain

end DatalinkWriter

end Datalink
end Leodos
