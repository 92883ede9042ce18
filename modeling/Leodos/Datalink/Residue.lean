/-
Octets of earlier frames in a later one.

A frame writer uses one buffer for all its frames and never clears it.  The header of a frame
does not depend on the frames before it, and the data are those of the packets.  The octets of
the trailer are not written, so they are what the latest frame that reached so far left there.
-/
import Leodos.Datalink.Scrubbing
import Leodos.Transition.System

namespace Leodos
namespace Datalink

open Memory Spp Transition

variable {F : WriterFormat}

/-- A writer, the data of the frames that it finished, the latest first, and the packets pushed
since. -/
structure History (F : WriterFormat) where
  writer : FrameWriter F
  finished : List Bytes
  pending : List Bytes

inductive History.Call where
  | push (p : Bytes)
  | finish

namespace History

def new (F : WriterFormat) (room : Nat) : History F := ⟨.new F room, [], []⟩

/-- Packets that are refused and frames that are not built do not count. -/
def next (s : History F) : Call → History F
  | .push p =>
    match s.writer.push p with
    | .ok writer => { s with writer := writer, pending := s.pending ++ [p] }
    | .error _ => s
  | .finish =>
    match s.writer.finish with
    | (.ok _, writer) => ⟨writer, s.pending.flatten :: s.finished, []⟩
    | (.error _, writer) => { s with writer := writer }

/-- The call does not panic. -/
def Survives (s : History F) : Call → Prop
  | .push p => Returns (s.writer.push p)
  | .finish => Returns s.writer.finish.1

instance (s : History F) : (call : Call) → Decidable (s.Survives call)
  | .push p => inferInstanceAs (Decidable (Returns (s.writer.push p)))
  | .finish => inferInstanceAs (Decidable (Returns s.writer.finish.1))

end History

/-- A call that panics ends the history. -/
def histories (F : WriterFormat) (room : Nat) : System (History F) History.Call where
  init := fun s => s = .new F room
  step := fun s call s' => s.Survives call ∧ s' = s.next call

/-- What frames with these data, the latest first, leave at a place behind the header. -/
def left : List Bytes → Nat → UInt8
  | [], _ => 0
  | data :: earlier, i => if i < data.length then data.getD i 0 else left earlier i

namespace History

/-- The frame that would be stamped is not built. -/
def Stuck (F : WriterFormat) (n : Nat) : Prop :=
  ∃ bufLen counters k bytes e, bytes.length = F.dataOffset + k + F.trailerLen ∧ k ≤ n ∧
    F.stamp bufLen counters k bytes = .error e

structure Inv (Clean : Bytes → Prop) (room : Nat) (s : History F) : Prop where
  holds : s.writer.Holds room s.pending
  clean : Clean s.writer.buf
  behind : ∀ i, size s.pending ≤ i → F.dataOffset + i < room →
    s.writer.buf.getD (F.dataOffset + i) 0 = left s.finished i
  counters : s.writer.counters = Nat.repeat F.advance s.finished.length F.start ∨
    Stuck F (size s.pending)

variable {Clean : Bytes → Prop} {room : Nat} {s : History F}

theorem inv_new (hscrubs : Scrubs F Clean) (room : Nat) : (new F room).Inv Clean room where
  holds := FrameWriter.holds_new F room
  clean := hscrubs.blank room
  behind := fun _ _ _ => getD_replicate ..
  counters := Or.inl rfl

theorem getD_write_of_le {bytes src : Bytes} {off i : Nat} (h : off + src.length ≤ i) :
    (write bytes off src).getD i 0 = bytes.getD i 0 := by
  rw [List.getD_eq_getElem?_getD, write_getElem?, if_neg (by omega), List.getD_eq_getElem?_getD]

theorem Inv.push {p : Bytes} {writer : FrameWriter F} (h : s.Inv Clean room)
    (hscrubs : Scrubs F Clean) (hpush : s.writer.push p = .ok writer) :
    ({ s with writer := writer, pending := s.pending ++ [p] } : History F).Inv Clean room := by
  obtain ⟨hholds, hwriter⟩ := h.holds.push_ok hpush
  have hsize : size (s.pending ++ [p]) = size s.pending + p.length := size_append ..
  have hbuf : writer.buf = write s.writer.buf (F.dataOffset + size s.pending) p := by rw [hwriter]
  refine ⟨hholds, ?_, fun i hi hroom => ?_, ?_⟩
  · apply hscrubs.front _ h.clean
    show _ = writer.buf.take F.dataOffset
    rw [hbuf, take_write_of_le (Nat.le_add_right ..)]
  · have hi : size (s.pending ++ [p]) ≤ i := hi
    show writer.buf.getD (F.dataOffset + i) 0 = _
    rw [hbuf, getD_write_of_le (by omega)]
    exact h.behind i (by omega) hroom
  · have hcounters : writer.counters = s.writer.counters := by rw [hwriter]
    show writer.counters = _ ∨ _
    rw [hcounters]
    rcases h.counters with hcounts | hstuck
    · exact Or.inl hcounts
    · obtain ⟨bufLen, counters, k, bytes, e, hlen, hk, hstamp⟩ := hstuck
      exact Or.inr ⟨bufLen, counters, k, bytes, e, hlen,
        Nat.le_trans hk (by show _ ≤ size (s.pending ++ [p]); omega), hstamp⟩

theorem Inv.length_stamped (h : s.Inv Clean room) (hroom : s.writer.total ≤ room) :
    (s.writer.buf.take s.writer.total).length =
      F.dataOffset + size s.pending + F.trailerLen := by
  rw [List.length_take, h.holds.buf, Nat.min_eq_left hroom, h.holds.total_eq]

theorem Inv.clean_stamped (h : s.Inv Clean room) (hscrubs : Scrubs F Clean) :
    Clean (s.writer.buf.take s.writer.total) := by
  apply hscrubs.front _ h.clean
  rw [List.take_take, h.holds.total_eq, Nat.add_assoc, Nat.min_eq_left (Nat.le_add_right ..)]

theorem Inv.not_stuck (h : s.Inv Clean room) (hscrubs : Scrubs F Clean)
    (hroom : s.writer.total ≤ room) {frame : Bytes}
    (hstamp : F.stamp s.writer.buf.length s.writer.counters (size s.pending)
      (s.writer.buf.take s.writer.total) = .ok frame) : ¬ Stuck F (size s.pending) := by
  intro hstuck
  obtain ⟨bufLen, counters, k, bytes, e, hlen, hk, herror⟩ := hstuck
  obtain ⟨e', he'⟩ := hscrubs.stuck s.writer.buf.length hlen (h.length_stamped hroom) hk herror
  rw [hstamp] at he'
  cases he'

theorem getD_append_right {header bytes : Bytes} (i : Nat) :
    (header ++ bytes).getD (header.length + i) 0 = bytes.getD i 0 := by
  rw [List.getD_eq_getElem?_getD, List.getElem?_append_right (Nat.le_add_right ..),
    Nat.add_sub_cancel_left, List.getD_eq_getElem?_getD]

theorem getD_drop {bytes : Bytes} (k i : Nat) : (bytes.drop k).getD i 0 = bytes.getD (k + i) 0 := by
  rw [List.getD_eq_getElem?_getD, List.getElem?_drop, List.getD_eq_getElem?_getD]

theorem Inv.finished_buf {writer : FrameWriter F} {frame : Bytes} (h : s.Inv Clean room)
    (hF : StampsHeader F) (hfinish : s.writer.finish = (.ok frame, writer)) :
    ∃ header : Bytes, header.length = F.dataOffset ∧
      frame = header ++ slice s.writer.buf F.dataOffset (size s.pending + F.trailerLen) ∧
      writer.buf = header ++ s.writer.buf.drop F.dataOffset := by
  obtain ⟨hwriter, -, hroom, -, header, hheader, hframe⟩ := h.holds.finish_ok hF hfinish
  have hbuf : writer.buf = write s.writer.buf 0 frame := by rw [hwriter]
  have hlen := h.holds.buf
  have htotal := h.holds.total_eq
  have hslice : (slice s.writer.buf F.dataOffset (size s.pending + F.trailerLen)).length =
    size s.pending + F.trailerLen := slice_length (by omega)
  have hframeLen : frame.length = F.dataOffset + (size s.pending + F.trailerLen) := by
    rw [hframe, List.length_append, hheader, hslice]
  refine ⟨header, hheader, hframe, ?_⟩
  rw [hbuf, write_zero (by omega), hframeLen, hframe, List.append_assoc]
  have hdrop : s.writer.buf.drop F.dataOffset =
      slice s.writer.buf F.dataOffset (size s.pending + F.trailerLen) ++
        s.writer.buf.drop (F.dataOffset + (size s.pending + F.trailerLen)) := by
    rw [slice, ← List.drop_drop, List.take_append_drop]
  rw [hdrop]

theorem Inv.finish_ok {writer : FrameWriter F} {frame : Bytes} (h : s.Inv Clean room)
    (hF : StampsHeader F) (hscrubs : Scrubs F Clean)
    (hfinish : s.writer.finish = (.ok frame, writer)) :
    (⟨writer, s.pending.flatten :: s.finished, []⟩ : History F).Inv Clean room := by
  obtain ⟨hwriter, hholds, hroom, hstamp, -⟩ := h.holds.finish_ok hF hfinish
  obtain ⟨header, hheader, hframe, hbuf⟩ := h.finished_buf hF hfinish
  have hlen := h.holds.buf
  refine ⟨hholds, ?_, fun i _ hi => ?_, Or.inl ?_⟩
  · apply hscrubs.front _ (hscrubs.keeps (h.length_stamped hroom) (h.clean_stamped hscrubs) hstamp)
    show frame.take F.dataOffset = writer.buf.take F.dataOffset
    rw [hframe, hbuf, List.take_left' hheader, List.take_left' hheader]
  · have hi : F.dataOffset + i < room := hi
    show writer.buf.getD (F.dataOffset + i) 0 =
      if i < s.pending.flatten.length then s.pending.flatten.getD i 0 else left s.finished i
    rw [hbuf, ← hheader, getD_append_right, hheader, getD_drop, length_flatten]
    by_cases hdata : i < size s.pending
    · rw [if_pos hdata, ← h.holds.data, List.getD_eq_getElem?_getD, List.getD_eq_getElem?_getD,
        slice_getElem?, if_pos hdata]
    · rw [if_neg hdata]
      exact h.behind i (Nat.le_of_not_lt hdata) hi
  · have hcounters : writer.counters = F.advance s.writer.counters := by rw [hwriter]
    show writer.counters = F.advance (Nat.repeat F.advance s.finished.length F.start)
    rw [hcounters, h.counters.resolve_right (h.not_stuck hscrubs hroom hstamp)]

theorem Inv.finish_error {writer : FrameWriter F} {e : F.BuildError} (h : s.Inv Clean room)
    (hfinish : s.writer.finish = (.error (.error e), writer)) :
    ({ s with writer := writer } : History F).Inv Clean room := by
  obtain ⟨hwriter, hholds⟩ := h.holds.finish_error hfinish
  obtain ⟨hroom, hstamp⟩ := h.holds.finish_unbuilt hfinish
  have hbuf : writer.buf = s.writer.buf := by rw [hwriter]
  refine ⟨hholds, ?_, fun i hi hroom => ?_,
    Or.inr ⟨_, _, _, _, e, h.length_stamped hroom, Nat.le_refl _, hstamp⟩⟩
  · show Clean writer.buf
    rw [hbuf]
    exact h.clean
  · show writer.buf.getD _ 0 = _
    rw [hbuf]
    exact h.behind i hi hroom

theorem Inv.next {call : Call} (h : s.Inv Clean room) (hF : StampsHeader F)
    (hscrubs : Scrubs F Clean) (hsurvives : s.Survives call) : (s.next call).Inv Clean room := by
  cases call with
  | push p =>
    unfold History.next
    dsimp only
    split
    · rename_i writer hpush
      exact h.push hscrubs hpush
    · exact h
  | finish =>
    have hsurvives : Returns s.writer.finish.1 := hsurvives
    unfold History.next
    dsimp only
    split
    · rename_i frame writer hfinish
      exact h.finish_ok hF hscrubs hfinish
    · rename_i fault writer hfinish
      rw [hfinish] at hsurvives
      cases fault with
      | panic => exact absurd hsurvives not_returns_panic
      | error e => exact h.finish_error hfinish

theorem inv_of_reachable (hF : StampsHeader F) (hscrubs : Scrubs F Clean)
    (h : (histories F room).Reachable s) : s.Inv Clean room := by
  apply h.invariant (Inv Clean room)
  · intro s hinit
    rw [hinit]
    exact inv_new hscrubs room
  · intro s call s' hinv _ hstep
    rw [hstep.2]
    exact hinv.next hF hscrubs hstep.1

theorem Inv.finish_of_finish {s' : History F} {frame : Bytes} (h : s.Inv Clean room)
    (h' : s'.Inv Clean room) (hF : StampsHeader F) (hscrubs : Scrubs F Clean)
    (hfinished : s.finished.length = s'.finished.length) (hpending : s.pending = s'.pending)
    (hframe : s.writer.finish.1 = .ok frame) :
    s'.writer.finish.1 = .ok (frame.take F.dataOffset ++
      slice s'.writer.buf F.dataOffset (size s'.pending + F.trailerLen)) := by
  rcases hfinish : s.writer.finish with ⟨_ | built, writer⟩
  · rw [hfinish] at hframe
    cases hframe
  rw [hfinish] at hframe
  cases hframe
  obtain ⟨-, -, hroom, hstamp, -⟩ := h.holds.finish_ok hF hfinish
  have htotal : s'.writer.total = s.writer.total := by
    rw [h'.holds.total_eq, h.holds.total_eq, hpending]
  have hroom' : s'.writer.total ≤ room := by rw [htotal]; exact hroom
  -- neither history is stuck, so both have counted the same frames
  have hstuck : ¬ Stuck F (size s.pending) := h.not_stuck hscrubs hroom hstamp
  have hcounters : s'.writer.counters = s.writer.counters := by
    rw [h.counters.resolve_right hstuck,
      h'.counters.resolve_right (by rw [← hpending]; exact hstuck), hfinished]
  have hlen := h.length_stamped hroom
  have hlen' := h'.length_stamped hroom'
  rw [← hpending] at hlen'
  have hagain := hscrubs.stamp s'.writer.buf.length hlen (hlen'.trans hlen.symm)
    (h.clean_stamped hscrubs) (h'.clean_stamped hscrubs) hstamp
  have hdrop : (s'.writer.buf.take s'.writer.total).drop F.dataOffset =
      slice s'.writer.buf F.dataOffset (size s'.pending + F.trailerLen) := by
    rw [slice, List.drop_take, h'.holds.total_eq, Nat.add_assoc, Nat.add_sub_cancel_left]
  unfold FrameWriter.finish
  dsimp only
  rw [if_neg (by rw [h'.holds.buf]; exact Nat.not_lt.2 hroom'), hcounters, h'.holds.dataLen,
    ← hpending, hagain, hdrop, ← hpending]

theorem slice_eq_iff {bytes bytes' : Bytes} {off len : Nat} (h : off + len ≤ bytes.length)
    (h' : off + len ≤ bytes'.length) :
    slice bytes off len = slice bytes' off len ↔
      ∀ j, j < len → bytes.getD (off + j) 0 = bytes'.getD (off + j) 0 := by
  constructor
  · intro heq j hj
    have hget : (slice bytes off len)[j]? = (slice bytes' off len)[j]? := by rw [heq]
    rw [slice_getElem?, slice_getElem?, if_pos hj, if_pos hj] at hget
    rw [List.getD_eq_getElem?_getD, List.getD_eq_getElem?_getD, hget]
  · intro hall
    apply List.ext_getElem?
    intro j
    rw [slice_getElem?, slice_getElem?]
    by_cases hj : j < len
    · have hsame := hall j hj
      rw [List.getD_eq_getElem?_getD, List.getD_eq_getElem?_getD,
        List.getElem?_eq_getElem (by omega), List.getElem?_eq_getElem (by omega),
        Option.getD_some, Option.getD_some] at hsame
      rw [if_pos hj, if_pos hj, List.getElem?_eq_getElem (by omega),
        List.getElem?_eq_getElem (by omega), hsame]
    · rw [if_neg hj, if_neg hj]

theorem Inv.trailer_eq_iff {s' : History F} (h : s.Inv Clean room) (h' : s'.Inv Clean room)
    (hpending : s.pending = s'.pending) (hroom : s.writer.total ≤ room) :
    slice s.writer.buf F.dataOffset (size s.pending + F.trailerLen) =
        slice s'.writer.buf F.dataOffset (size s'.pending + F.trailerLen) ↔
      ∀ j, j < F.trailerLen →
        left s.finished (size s.pending + j) = left s'.finished (size s.pending + j) := by
  have htotal := h.holds.total_eq
  have hlen := h.holds.buf
  have hlen' := h'.holds.buf
  rw [slice_add, slice_add, h.holds.data, h'.holds.data, ← hpending, List.append_right_inj,
    slice_eq_iff (by omega) (by omega)]
  refine forall₂_congr fun j hj => ?_
  rw [Nat.add_assoc, h.behind _ (Nat.le_add_right ..) (by omega),
    h'.behind _ (by rw [hpending]; exact Nat.le_add_right ..) (by omega)]

theorem Inv.finish_eq_iff {s' : History F} {frame : Bytes} (h : s.Inv Clean room)
    (h' : s'.Inv Clean room) (hF : StampsHeader F) (hscrubs : Scrubs F Clean)
    (hfinished : s.finished.length = s'.finished.length) (hpending : s.pending = s'.pending)
    (hframe : s.writer.finish.1 = .ok frame) :
    s'.writer.finish.1 = .ok frame ↔ ∀ j, j < F.trailerLen →
      left s.finished (size s.pending + j) = left s'.finished (size s.pending + j) := by
  rcases hfinish : s.writer.finish with ⟨_ | built, writer⟩
  · rw [hfinish] at hframe
    cases hframe
  have hagain := h.finish_of_finish h' hF hscrubs hfinished hpending hframe
  rw [hfinish] at hframe
  cases hframe
  obtain ⟨-, -, hroom, -⟩ := h.holds.finish_ok hF hfinish
  obtain ⟨header, hheader, hbuilt, -⟩ := h.finished_buf hF hfinish
  rw [hagain, Except.ok.injEq, ← h.trailer_eq_iff h' hpending hroom, hbuilt,
    List.take_left' hheader, List.append_right_inj, eq_comm]

theorem Inv.clean_frame {frame : Bytes} (h : s.Inv Clean room) (hF : StampsHeader F)
    (hscrubs : Scrubs F Clean) (hframe : s.writer.finish.1 = .ok frame) : Clean frame := by
  rcases hfinish : s.writer.finish with ⟨_ | built, writer⟩
  · rw [hfinish] at hframe
    cases hframe
  rw [hfinish] at hframe
  cases hframe
  obtain ⟨-, -, hroom, hstamp, -⟩ := h.holds.finish_ok hF hfinish
  exact hscrubs.keeps (h.length_stamped hroom) (h.clean_stamped hscrubs) hstamp

end History

open History

section Pairs

variable {config : FrameConfig} {room : Nat} {s s' : History config.writer} {frame : Bytes}

/-- Two histories that have finished as many frames and hold the same packets finish the same
frame exactly when the frames before have left the same octets where the trailer is. -/
theorem finish_eq_iff_left (h : (histories config.writer room).Reachable s)
    (h' : (histories config.writer room).Reachable s')
    (hfinished : s.finished.length = s'.finished.length) (hpending : s.pending = s'.pending)
    (hframe : s.writer.finish.1 = .ok frame) :
    s'.writer.finish.1 = .ok frame ↔ ∀ j, j < config.writer.trailerLen →
      left s.finished (size s.pending + j) = left s'.finished (size s.pending + j) :=
  (inv_of_reachable config.stampsHeader config.scrubs h).finish_eq_iff
    (inv_of_reachable config.stampsHeader config.scrubs h') config.stampsHeader config.scrubs
    hfinished hpending hframe

theorem finish_eq_of_no_trailer (htrailer : config.writer.trailerLen = 0)
    (h : (histories config.writer room).Reachable s)
    (h' : (histories config.writer room).Reachable s')
    (hfinished : s.finished.length = s'.finished.length) (hpending : s.pending = s'.pending)
    (hframe : s.writer.finish.1 = .ok frame) : s'.writer.finish.1 = .ok frame := by
  rw [(inv_of_reachable config.stampsHeader config.scrubs h).finish_eq_iff
    (inv_of_reachable config.stampsHeader config.scrubs h') config.stampsHeader config.scrubs
    hfinished hpending hframe, htrailer]
  intro j hj
  exact absurd hj (Nat.not_lt_zero j)

end Pairs

theorem insertZone_empty {config : Uslp.UslpFrameWriterConfig} {room : Nat}
    {s : History (Uslp.UslpFrameWriter.format config)} {frame : Bytes}
    (h : (histories (Uslp.UslpFrameWriter.format config) room).Reachable s)
    (hframe : s.writer.finish.1 = .ok frame) : Uslp.Clean config frame :=
  (inv_of_reachable (Uslp.stampsHeader config) (Uslp.scrubs config) h).clean_frame
    (Uslp.stampsHeader config) (Uslp.scrubs config) hframe

theorem reachable_foldl {room : Nat} {calls : List Call}
    (h : System.Meets next Survives (new F room) calls) :
    (histories F room).Reachable (calls.foldl next (new F room)) := by
  have hinit : (histories F room).Reachable (new F room) := .init rfl
  refine hinit.foldl (r := Survives) ?_ h
  intro s call hsurvives
  exact ⟨trivial, hsurvives, rfl⟩

/-- A writer of the unified format whose frames have an operational control field. -/
def controlled : FrameConfig :=
  .uslp ⟨1, 2, 3, false, false, true, 1, 0, .noSegmentation, 0, false, 16⟩

instance : DecidableEq controlled.writer.BuildError :=
  inferInstanceAs (DecidableEq Uslp.BuildError)

/-- Frames that are as short as the next one leave nothing where its trailer is. -/
theorem finish_eq_iff_left_short :
    ([Call.push [7], .finish, .push [9]].foldl next (new controlled.writer 64)).writer.finish.1 =
      .ok [192, 0, 16, 70, 0, 13, 9, 1, 224, 9, 0, 0, 0, 0] := by
  have hframe : ([Call.push [8], .finish, .push [9]].foldl next
      (new controlled.writer 64)).writer.finish.1 =
        .ok [192, 0, 16, 70, 0, 13, 9, 1, 224, 9, 0, 0, 0, 0] := by decide +kernel
  apply (finish_eq_iff_left (reachable_foldl (by decide))
    (reachable_foldl (by decide)) (by decide) (by decide) hframe).2
  decide

/-- A frame of six octets leaves four of them where the control field of the next frame is. -/
theorem longer_frame_leaves_residue :
    ∃ s s' : History controlled.writer, (histories controlled.writer 64).Reachable s ∧
      (histories controlled.writer 64).Reachable s' ∧ s.finished.length = s'.finished.length ∧
      s.pending = s'.pending ∧
      s.writer.finish.1 = .ok [192, 0, 16, 70, 0, 13, 9, 1, 224, 9, 0, 0, 0, 0] ∧
      s'.writer.finish.1 = .ok [192, 0, 16, 70, 0, 13, 9, 1, 224, 9, 2, 3, 4, 5] :=
  ⟨[Call.push [8], .finish, .push [9]].foldl next (new controlled.writer 64),
    [Call.push [1, 2, 3, 4, 5, 6], .finish, .push [9]].foldl next (new controlled.writer 64),
    reachable_foldl (by decide), reachable_foldl (by decide),
    by decide +kernel, by decide +kernel, by decide +kernel, by decide +kernel⟩

end Datalink
end Leodos
