/-
Packets lost by a failing flush, `datalink/link/framed.rs`.

A run of calls is watched with the packets that were accepted and the frames that the coding
writer took.  The frame writer is emptied before the frame goes through security and coding,
and a frame is cut to the scratch buffer, so a packet is lost exactly when one of the two
reports an error or when the frame is longer than the buffer.
-/
import Leodos.Datalink.Stamping
import Leodos.Transition.System

namespace Leodos
namespace Datalink

open Memory Spp Packing Transition

variable {F : WriterFormat} {σ γ ε ε' : Type}

structure Carried (F : WriterFormat) (frame : Bytes) (batch : List Bytes) : Prop where
  length : frame.length = F.dataOffset + size batch + F.trailerLen
  data : slice frame F.dataOffset (size batch) = batch.flatten

namespace DatalinkWriter

/-! ## What a call sends -/

/-- The frame that a flush sends when there are packets and the frame is built. -/
def outgoing (w : DatalinkWriter F σ γ) : Option Bytes :=
  if w.frameWriter.isEmpty then none
  else
    match w.frameWriter.finish.1 with
    | .ok frame => some frame
    | .error _ => none

/-- A packet that finds the frame full causes a flush. -/
def flushes (w : DatalinkWriter F σ γ) : Op Bytes → Bool
  | .flush => true
  | .put p =>
    match w.frameWriter.push p with
    | .error (.error .full) => true
    | _ => false

def sends (w : DatalinkWriter F σ γ) (op : Op Bytes) : Option Bytes :=
  if w.flushes op then w.outgoing else none

/-- The octets of the frame that went through security to a coding writer that took them. -/
def handed (S : SecurityProcessor σ ε') (C : CodingWrite γ ε) (w : DatalinkWriter F σ γ) :
    List Bytes :=
  match w.outgoing, (flush S C w).1 with
  | some frame, .ok () => [frame.take SCRATCH_SIZE]
  | _, _ => []

/-- The security processor and then the coding writer take the frame. -/
def Taken (S : SecurityProcessor σ ε') (C : CodingWrite γ ε) (w : DatalinkWriter F σ γ)
    (frame : Bytes) : Prop :=
  match S.apply w.security frame with
  | (.error _, _, _) => False
  | (.ok len, bytes, _) =>
    (C.write w.codingWriter
      ((Memory.write (Memory.write w.scratch 0 frame) 0 bytes).take len)).1 = .ok ()

/-- A frame that the call sends fits the scratch buffer and is taken. -/
def HandsOn (S : SecurityProcessor σ ε') (C : CodingWrite γ ε) (w : DatalinkWriter F σ γ)
    (op : Op Bytes) : Prop :=
  ∀ frame, w.sends op = some frame → frame.length ≤ SCRATCH_SIZE ∧ Taken S C w frame

end DatalinkWriter

/-! ## Runs -/

/-- A writer, the packets that it accepted, the frames that were handed on, and whether the
last call was a flush that succeeded. -/
structure Ledger (F : WriterFormat) (σ γ : Type) where
  writer : DatalinkWriter F σ γ
  accepted : List Bytes
  sent : List Bytes
  flushed : Bool

namespace Ledger

def new (F : WriterFormat) (room : Nat) (codingWriter : γ) (security : σ) : Ledger F σ γ :=
  ⟨.new (.new F room) codingWriter security, [], [], false⟩

def next (S : SecurityProcessor σ ε') (C : CodingWrite γ ε) (s : Ledger F σ γ) (op : Op Bytes) :
    Ledger F σ γ where
  writer := (s.writer.step S C op).2
  accepted :=
    match op, (s.writer.step S C op).1 with
    | .put p, .ok () => s.accepted ++ [p]
    | _, _ => s.accepted
  sent := if s.writer.flushes op then s.sent ++ s.writer.handed S C else s.sent
  flushed :=
    match op, (s.writer.step S C op).1 with
    | .flush, .ok () => true
    | _, _ => false

/-- Every accepted packet is in a frame that was handed on or in the open frame, in order and
once, and none is in the open frame after a flush that succeeded. -/
structure Lossless (s : Ledger F σ γ) : Prop where
  kept : ∃ batches opened, s.accepted = batches.flatten ++ opened ∧
    s.writer.frameWriter.Holds s.writer.frameWriter.buf.length opened ∧
    List.Forall₂ (Carried F) s.sent batches
  drained : s.flushed = true → ∃ batches rest, s.accepted = batches.flatten ++ rest ∧
    rest.flatten = [] ∧ List.Forall₂ (Carried F) s.sent batches

end Ledger

/-- A call that panics ends the run. -/
def ledger (S : SecurityProcessor σ ε') (C : CodingWrite γ ε) (F : WriterFormat) :
    System (Ledger F σ γ) (Op Bytes) where
  init := fun s => ∃ room codingWriter security, s = .new F room codingWriter security
  step := fun s op s' => Returns (s.writer.step S C op).1 ∧ s' = s.next S C op

/-! ## Sending -/

namespace DatalinkWriter

variable {S : SecurityProcessor σ ε'} {C : CodingWrite γ ε} {w : DatalinkWriter F σ γ}

theorem send_frameWriter (frame : Bytes) : (send S C w frame).2.frameWriter = w.frameWriter := by
  unfold send
  dsimp only
  split
  · rfl
  · split
    · rfl
    · split <;> rfl

theorem send_scratch (frame : Bytes) : (send S C w frame).2.scratch.length = w.scratch.length := by
  unfold send
  dsimp only
  split
  · exact (write_length ..).trans (write_length ..)
  · split
    · exact (write_length ..).trans (write_length ..)
    · split <;> exact (write_length ..).trans (write_length ..)

theorem send_ok_iff {frame : Bytes} (frameWriter : FrameWriter F)
    (hscratch : w.scratch.length = SCRATCH_SIZE) (hfits : frame.length ≤ SCRATCH_SIZE)
    (hreturns : Returns (send S C { w with frameWriter := frameWriter } frame).1) :
    (send S C { w with frameWriter := frameWriter } frame).1 = .ok () ↔ Taken S C w frame := by
  have hlen : min frame.length SCRATCH_SIZE = frame.length := Nat.min_eq_left hfits
  have htake : (Memory.write w.scratch 0 frame).take frame.length = frame :=
    take_write (by rw [hscratch]; exact hfits)
  unfold send at hreturns ⊢
  unfold Taken
  dsimp only at hreturns ⊢
  rw [hlen, List.take_length, htake] at hreturns ⊢
  generalize S.apply w.security frame = applied at hreturns ⊢
  rcases applied with ⟨_ | len, bytes, security⟩
  · exact iff_of_false (fun h => by cases h) id
  · dsimp only at hreturns ⊢
    by_cases hover : (Memory.write (Memory.write w.scratch 0 frame) 0 bytes).length < len
    · rw [if_pos hover] at hreturns
      exact absurd hreturns not_returns_panic
    · rw [if_neg hover]
      generalize C.write w.codingWriter
        ((Memory.write (Memory.write w.scratch 0 frame) 0 bytes).take len) = written
      rcases written with ⟨_ | _, codingWriter⟩
      · exact iff_of_false (fun h => by cases h) (fun h => by cases h)
      · exact iff_of_true rfl rfl

/-- What a flush does with the open packets. -/
inductive Flushing (S : SecurityProcessor σ ε') (C : CodingWrite γ ε) (w : DatalinkWriter F σ γ)
    (room : Nat) (opened : List Bytes) : Prop where
  | idle : w.frameWriter.isEmpty = true → w.outgoing = none → flush S C w = (.ok (), w) →
      Flushing S C w room opened
  | unbuilt (fault : Fault (DatalinkError ε)) (frameWriter : FrameWriter F) :
      frameWriter.Holds room opened → w.outgoing = none →
      flush S C w = (.error fault, { w with frameWriter := frameWriter }) →
      Flushing S C w room opened
  | built (frame : Bytes) (frameWriter : FrameWriter F) :
      0 < size opened → frameWriter.Holds room [] → Carried F frame opened →
      w.outgoing = some frame →
      flush S C w = send S C { w with frameWriter := frameWriter } frame →
      Flushing S C w room opened

theorem flushing {room : Nat} {opened : List Bytes} (hF : StampsHeader F)
    (h : w.frameWriter.Holds room opened) : Flushing S C w room opened := by
  by_cases hempty : w.frameWriter.isEmpty = true
  · refine .idle hempty ?_ ?_
    · rw [outgoing, if_pos hempty]
    · rw [flush, if_pos hempty]
  rcases hfinish : w.frameWriter.finish with ⟨fault | frame, frameWriter⟩
  · refine .unbuilt (fault.map fun _ => .buildError) frameWriter (h.finish_error hfinish).2 ?_ ?_
    · rw [outgoing, if_neg hempty, hfinish]
    · rw [flush, if_neg hempty, hfinish]
  · obtain ⟨-, hopened, hroom, -, header, hheader, hframe⟩ := h.finish_ok hF hfinish
    have hbuf := h.buf
    have htotal := h.total_eq
    have hslice : (slice w.frameWriter.buf F.dataOffset (size opened + F.trailerLen)).length =
      size opened + F.trailerLen := slice_length (by omega)
    have hpos : 0 < size opened := Nat.pos_of_ne_zero fun hz => hempty (h.isEmpty.2 hz)
    refine .built frame frameWriter hpos hopened ⟨?_, ?_⟩ ?_ ?_
    · rw [hframe, List.length_append, hheader, hslice, Nat.add_assoc]
    · have hdata := slice_append_right header
        (slice w.frameWriter.buf F.dataOffset (size opened + F.trailerLen)) 0 (size opened)
      rw [Nat.add_zero, hheader] at hdata
      rw [hframe, hdata, ← h.data, slice, slice, slice, List.drop_zero, List.take_take,
        Nat.min_eq_left (Nat.le_add_right ..)]
    · rw [outgoing, if_neg hempty, hfinish]
    · rw [flush, if_neg hempty, hfinish]

theorem handed_of_outgoing_none (h : w.outgoing = none) : w.handed S C = [] := by
  rw [handed, h]

theorem handed_of_ok {frame : Bytes} (h : w.outgoing = some frame)
    (hok : (flush S C w).1 = .ok ()) : w.handed S C = [frame.take SCRATCH_SIZE] := by
  rw [handed, h, hok]

theorem handed_of_error {fault : Fault (DatalinkError ε)} (h : (flush S C w).1 = .error fault) :
    w.handed S C = [] := by
  rw [handed, h]
  cases w.outgoing <;> rfl

/-! ## Accounts -/

/-- The accepted packets are split over the frames handed on and the open frame. -/
def Accounts (w : DatalinkWriter F σ γ) (accepted sent : List Bytes) : Prop :=
  ∃ batches opened, accepted = batches.flatten ++ opened ∧
    w.frameWriter.Holds w.frameWriter.buf.length opened ∧ List.Forall₂ (Carried F) sent batches

/-- As many octets as were accepted are in the frames handed on and in the open frame. -/
def Balanced (w : DatalinkWriter F σ γ) (accepted sent : List Bytes) : Prop :=
  size accepted + sent.length * (F.dataOffset + F.trailerLen) = size sent + w.frameWriter.dataLen

variable {accepted sent : List Bytes}

theorem Accounts.balanced (h : w.Accounts accepted sent) : w.Balanced accepted sent := by
  obtain ⟨batches, opened, haccepted, hholds, hsent⟩ := h
  have hbatches : size batches.flatten + sent.length * (F.dataOffset + F.trailerLen) =
      size sent := by
    clear haccepted
    induction hsent with
    | nil =>
      rw [List.length_nil, Nat.zero_mul]
      rfl
    | @cons frame batch sent batches hcarried _ ih =>
      rw [List.flatten_cons, size_append, size_cons, hcarried.length, List.length_cons,
        Nat.succ_mul]
      omega
  rw [Balanced, haccepted, size_append, hholds.dataLen]
  omega

theorem accounts_of_holds {w' : DatalinkWriter F σ γ} {room : Nat} {batches : List (List Bytes)}
    {opened : List Bytes} (hholds : w'.frameWriter.Holds room opened)
    (hsent : List.Forall₂ (Carried F) sent batches) :
    w'.Accounts (batches.flatten ++ opened) sent := by
  refine ⟨batches, opened, rfl, ?_, hsent⟩
  rw [hholds.buf]
  exact hholds

/-- A flush that keeps to the condition moves the open packets into a frame handed on, or
leaves them where they are. -/
theorem accounts_flush (hF : StampsHeader F) (h : w.Accounts accepted sent)
    (hscratch : w.scratch.length = SCRATCH_SIZE) (hreturns : Returns (flush S C w).1)
    (hkeeps : ∀ frame, w.outgoing = some frame → frame.length ≤ SCRATCH_SIZE ∧ Taken S C w frame) :
    (flush S C w).2.Accounts accepted (sent ++ w.handed S C) := by
  obtain ⟨batches, opened, rfl, hholds, hsent⟩ := h
  cases @flushing _ _ _ _ _ S C _ _ _ hF hholds with
  | idle _ hout hflush =>
    rw [hflush, handed_of_outgoing_none hout, List.append_nil]
    exact accounts_of_holds hholds hsent
  | unbuilt fault frameWriter hopened hout hflush =>
    rw [hflush, handed_of_outgoing_none hout, List.append_nil]
    exact accounts_of_holds hopened hsent
  | built frame frameWriter _ hopened hcarried hout hflush =>
    obtain ⟨hfits, htaken⟩ := hkeeps frame hout
    rw [hflush] at hreturns
    have hok : (send S C { w with frameWriter := frameWriter } frame).1 = .ok () :=
      (send_ok_iff frameWriter hscratch hfits hreturns).2 htaken
    rw [handed_of_ok hout (by rw [hflush]; exact hok), List.take_of_length_le hfits, hflush]
    have hnext : (send S C { w with frameWriter := frameWriter } frame).2.frameWriter.Holds
        w.frameWriter.buf.length [] := by
      rw [send_frameWriter]
      exact hopened
    have haccounts := accounts_of_holds hnext (List.rel_append hsent (.cons hcarried .nil))
    rw [List.flatten_append, List.flatten_singleton, List.append_nil] at haccounts
    exact haccounts

theorem not_balanced_flush (hF : StampsHeader F) (h : w.Accounts accepted sent)
    (hscratch : w.scratch.length = SCRATCH_SIZE) (hreturns : Returns (flush S C w).1)
    {frame : Bytes} (hout : w.outgoing = some frame)
    (hbreaks : ¬ (frame.length ≤ SCRATCH_SIZE ∧ Taken S C w frame)) :
    ¬ (flush S C w).2.Balanced accepted (sent ++ w.handed S C) := by
  have hbalanced := h.balanced
  obtain ⟨batches, opened, rfl, hholds, hsent⟩ := h
  cases @flushing _ _ _ _ _ S C _ _ _ hF hholds with
  | idle _ hnone _ =>
    rw [hout] at hnone
    cases hnone
  | unbuilt _ _ _ hnone _ =>
    rw [hout] at hnone
    cases hnone
  | built frame' frameWriter hpos hopened hcarried hsome hflush =>
    rw [hout] at hsome
    cases hsome
    have hlen : (flush S C w).2.frameWriter.dataLen = 0 := by
      rw [hflush, send_frameWriter]
      exact hopened.dataLen
    have hframe := hcarried.length
    unfold Balanced at hbalanced ⊢
    rw [hlen]
    rw [hholds.dataLen] at hbalanced
    cases hresult : (flush S C w).1 with
    | error fault =>
      rw [handed_of_error hresult, List.append_nil]
      omega
    | ok _ =>
      have hover : ¬ frame.length ≤ SCRATCH_SIZE := by
        intro hfits
        rw [hflush] at hreturns hresult
        exact hbreaks ⟨hfits, (send_ok_iff frameWriter hscratch hfits hreturns).1 hresult⟩
      have hcut : size (sent ++ [frame.take SCRATCH_SIZE]) = size sent + SCRATCH_SIZE := by
        rw [size_append, size_cons, List.length_take, Nat.min_eq_left (Nat.le_of_not_le hover)]
        rfl
      rw [handed_of_ok hout hresult, hcut, List.length_append, List.length_singleton,
        Nat.succ_mul]
      omega

theorem flush_scratch : (flush S C w).2.scratch.length = w.scratch.length := by
  unfold flush
  split
  · rfl
  · split
    · rfl
    · exact send_scratch _

theorem flush_ok_isEmpty {room : Nat} {opened : List Bytes} (hF : StampsHeader F)
    (h : w.frameWriter.Holds room opened) (hok : (flush S C w).1 = .ok ()) :
    (flush S C w).2.frameWriter.dataLen = 0 := by
  cases @flushing _ _ _ _ _ S C _ _ _ hF h with
  | idle hempty _ hflush =>
    rw [hflush, h.dataLen]
    exact h.isEmpty.1 hempty
  | unbuilt _ _ _ _ hflush =>
    rw [hflush] at hok
    cases hok
  | built frame frameWriter _ hopened _ _ hflush =>
    rw [hflush, send_frameWriter]
    exact hopened.dataLen

/-! ## Pushes -/

theorem Accounts.push {p : Bytes} {frameWriter : FrameWriter F} (h : w.Accounts accepted sent)
    (hpush : w.frameWriter.push p = .ok frameWriter) :
    Accounts { w with frameWriter := frameWriter } (accepted ++ [p]) sent := by
  obtain ⟨batches, opened, rfl, hholds, hsent⟩ := h
  rw [List.append_assoc]
  exact accounts_of_holds (hholds.push_ok hpush).1 hsent

theorem dataLen_of_push {fw fw' : FrameWriter F} {p : Bytes} (hpush : fw.push p = .ok fw') :
    fw'.dataLen = fw.dataLen + p.length := by
  unfold FrameWriter.push at hpush
  split at hpush
  · cases hpush
  split at hpush
  · cases hpush
  dsimp only at hpush
  split at hpush
  · cases hpush
  cases hpush
  rfl

theorem balanced_push_iff {p : Bytes} {frameWriter : FrameWriter F}
    (hpush : w.frameWriter.push p = .ok frameWriter) :
    Balanced { w with frameWriter := frameWriter } (accepted ++ [p]) sent ↔
      w.Balanced accepted sent := by
  have hlen := dataLen_of_push hpush
  have hsize : size (accepted ++ [p]) = size accepted + p.length := size_append ..
  unfold Balanced
  rw [hsize]
  show _ = _ + frameWriter.dataLen ↔ _
  rw [hlen]
  omega

end DatalinkWriter

/-! ## Steps and runs -/

namespace Ledger

open DatalinkWriter

variable {S : SecurityProcessor σ ε'} {C : CodingWrite γ ε} {s s' : Ledger F σ γ} {op : Op Bytes}

/-- The account of a state is in order, and so is its scratch buffer. -/
structure Inv (s : Ledger F σ γ) : Prop where
  accounts : s.writer.Accounts s.accepted s.sent
  scratch : s.writer.scratch.length = SCRATCH_SIZE

theorem inv_new (room : Nat) (codingWriter : γ) (security : σ) :
    (new F room codingWriter security).Inv := by
  refine ⟨⟨[], [], rfl, ?_, .nil⟩, List.length_replicate⟩
  have h := FrameWriter.holds_new F room
  have hbuf := h.buf
  show FrameWriter.Holds (.new F room) (FrameWriter.new F room).buf.length []
  rw [hbuf]
  exact h

theorem sends_of_not_flushes {w : DatalinkWriter F σ γ} (h : w.flushes op = false) :
    w.sends op = none := by
  rw [sends, h]
  rfl

theorem sends_of_flushes {w : DatalinkWriter F σ γ} (h : w.flushes op = true) :
    w.sends op = w.outgoing := by
  rw [sends, h]
  rfl

theorem scratch_step (w : DatalinkWriter F σ γ) (op : Op Bytes) :
    (w.step S C op).2.scratch.length = w.scratch.length := by
  cases op with
  | flush => exact flush_scratch
  | put p =>
    show (w.write S C p).2.scratch.length = _
    unfold DatalinkWriter.write
    split
    · rfl
    · rfl
    · rfl
    · have hscratch : (w.flush S C).2.scratch.length = w.scratch.length := flush_scratch
      split
      · rename_i hflush
        rw [hflush] at hscratch
        exact hscratch
      · rename_i hflush
        rw [hflush] at hscratch
        split <;> exact hscratch

theorem accounts_next_iff (hF : StampsHeader F) (h : s.Inv)
    (hreturns : Returns (s.writer.step S C op).1) :
    (s.next S C op).writer.Accounts (s.next S C op).accepted (s.next S C op).sent ↔
      s.writer.HandsOn S C op := by
  obtain ⟨haccounts, hscratch⟩ := h
  have hbroken : ∀ frame, s.writer.outgoing = some frame → Returns (s.writer.flush S C).1 →
      (s.writer.flush S C).2.Balanced s.accepted (s.sent ++ s.writer.handed S C) →
      frame.length ≤ SCRATCH_SIZE ∧ Taken S C s.writer frame := by
    intro frame hout hflush hbalanced
    apply Classical.byContradiction
    intro hbreaks
    exact not_balanced_flush hF haccounts hscratch hflush hout hbreaks hbalanced
  cases op with
  | flush =>
    have hsends : s.writer.sends .flush = s.writer.outgoing := sends_of_flushes rfl
    unfold HandsOn
    rw [hsends]
    exact ⟨fun hnext frame hout => hbroken frame hout hreturns hnext.balanced,
      fun hkeeps => accounts_flush hF haccounts hscratch hreturns hkeeps⟩
  | put p =>
    have hstep : s.writer.step S C (.put p) = s.writer.write S C p := rfl
    have hquiet : s.writer.flushes (.put p) = false → s.writer.HandsOn S C (.put p) := by
      intro hflushes frame hsends
      rw [sends_of_not_flushes hflushes] at hsends
      cases hsends
    unfold next
    rw [hstep] at hreturns ⊢
    unfold DatalinkWriter.write at hreturns ⊢
    cases hpush : s.writer.frameWriter.push p with
    | ok frameWriter =>
      have hflushes : s.writer.flushes (.put p) = false := by rw [flushes, hpush]
      rw [hflushes]
      exact iff_of_true (haccounts.push hpush) (hquiet hflushes)
    | error fault =>
      rw [hpush] at hreturns
      rcases fault with ⟨_ | _⟩ | _
      · have hflushes : s.writer.flushes (.put p) = true := by rw [flushes, hpush]
        have hback := accounts_flush (S := S) (C := C) hF haccounts hscratch
        unfold HandsOn
        rw [sends_of_flushes hflushes, hflushes]
        dsimp only at hreturns ⊢
        generalize s.writer.flush S C = flushed at *
        rcases flushed with ⟨fault | _, flushed⟩
        · exact ⟨fun hnext frame hout => hbroken frame hout hreturns hnext.balanced, hback hreturns⟩
        · dsimp only at hreturns ⊢
          cases hagain : flushed.frameWriter.push p with
          | error fault =>
            exact ⟨fun hnext frame hout => hbroken frame hout (returns_ok _) hnext.balanced,
              hback (returns_ok _)⟩
          | ok frameWriter =>
            refine ⟨fun hnext frame hout => hbroken frame hout (returns_ok _) ?_,
              fun hkeeps => (hback (returns_ok _) hkeeps).push hagain⟩
            exact (balanced_push_iff hagain).1 hnext.balanced
      · have hflushes : s.writer.flushes (.put p) = false := by rw [flushes, hpush]
        rw [hflushes]
        exact iff_of_true haccounts (hquiet hflushes)
      · exact absurd hreturns not_returns_panic

theorem Inv.next (hF : StampsHeader F) (h : s.Inv) (hreturns : Returns (s.writer.step S C op).1)
    (hkeeps : s.writer.HandsOn S C op) : (s.next S C op).Inv :=
  ⟨(accounts_next_iff hF h hreturns).2 hkeeps, (scratch_step ..).trans h.scratch⟩

theorem inv_of_reaches (hF : StampsHeader F)
    (h : (ledger S C F).Reaches (fun s op => s.writer.HandsOn S C op) s) : s.Inv := by
  apply h.invariant Inv
  · intro s hinit
    obtain ⟨room, codingWriter, security, rfl⟩ := hinit
    exact inv_new room codingWriter security
  · intro s op s' hinv hkeeps hstep
    rw [hstep.2]
    exact hinv.next hF hstep.1 hkeeps

theorem dataLen_of_flushed (hF : StampsHeader F) (h : s.Inv)
    (hflushed : (s.next S C op).flushed = true) :
    (s.next S C op).writer.frameWriter.dataLen = 0 := by
  obtain ⟨batches, opened, -, hholds, -⟩ := h.accounts
  cases op with
  | put p => cases hflushed
  | flush =>
    show (s.writer.flush S C).2.frameWriter.dataLen = 0
    apply flush_ok_isEmpty hF hholds
    unfold Ledger.next at hflushed
    dsimp only at hflushed
    have hstep : s.writer.step S C .flush = s.writer.flush S C := rfl
    rw [hstep] at hflushed
    split at hflushed
    · assumption
    · cases hflushed

theorem lossless_of_accounts (h : s.writer.Accounts s.accepted s.sent)
    (hflushed : s.flushed = true → s.writer.frameWriter.dataLen = 0) : s.Lossless := by
  refine ⟨h, fun hf => ?_⟩
  obtain ⟨batches, opened, haccepted, hholds, hsent⟩ := h
  refine ⟨batches, opened, haccepted, ?_, hsent⟩
  have hlen := hflushed hf
  rw [hholds.dataLen] at hlen
  apply List.eq_nil_of_length_eq_zero
  rw [length_flatten, hlen]

end Ledger

open Ledger

/-- Nothing is lost as long as every frame that a call sends fits the scratch buffer and is
taken by the security processor and the coding writer, and the first call that breaks this
loses packets. -/
theorem lossless_iff_handsOn {config : FrameConfig} {S : SecurityProcessor σ ε'}
    {C : CodingWrite γ ε} {s : Ledger config.writer σ γ}
    (h : (ledger S C config.writer).Reaches (fun s op => s.writer.HandsOn S C op) s) :
    s.Lossless ∧ ∀ op s', (ledger S C config.writer).step s op s' →
      (s'.Lossless ↔ s.writer.HandsOn S C op) := by
  have hF := config.stampsHeader
  refine ⟨?_, fun op s' hstep => ?_⟩
  · cases h with
    | init hinit =>
      obtain ⟨room, codingWriter, security, rfl⟩ := hinit
      exact lossless_of_accounts (inv_new room codingWriter security).accounts fun hf => by cases hf
    | step op hbefore hkeeps hstep =>
      have hinv := inv_of_reaches hF hbefore
      rw [hstep.2]
      exact lossless_of_accounts (hinv.next hF hstep.1 hkeeps).accounts
        (dataLen_of_flushed hF hinv)
  · have hinv := inv_of_reaches hF h
    rw [hstep.2, ← accounts_next_iff hF hinv hstep.1]
    exact ⟨fun hlossless => hlossless.kept,
      fun haccounts => lossless_of_accounts haccounts (dataLen_of_flushed hF hinv)⟩

/-- A packet of three octets that is sent over a telecommand link. -/
theorem lossless_iff_handsOn_sent :
    (((Ledger.new (FrameConfig.tc ⟨1, 2, .typeB, .typeD, 64⟩).writer 16 ([] : List Bytes) ()).next
      (NoSecurity : SecurityProcessor Unit Empty) passWrite (.put [1, 2, 3])).next
      (NoSecurity : SecurityProcessor Unit Empty) passWrite .flush).Lossless := by
  refine (lossless_iff_handsOn (S := (NoSecurity : SecurityProcessor Unit Empty)) (C := passWrite)
    (.step .flush (.step (.put [1, 2, 3]) (.init ⟨16, [], (), rfl⟩) ?_ ⟨?_, rfl⟩) ?_
      ⟨?_, rfl⟩)).1
  · intro frame hsends
    cases hsends
  · decide
  · intro frame hsends
    have hfits : (DatalinkWriter.sends ((Ledger.new
        (FrameConfig.tc ⟨1, 2, .typeB, .typeD, 64⟩).writer 16 ([] : List Bytes) ()).next
        (NoSecurity : SecurityProcessor Unit Empty) passWrite (.put [1, 2, 3])).writer .flush).all
        (fun frame => decide (frame.length ≤ SCRATCH_SIZE)) = true := by decide
    rw [hsends] at hfits
    exact ⟨of_decide_eq_true hfits, rfl⟩
  · decide +kernel

/-- The coding writer fails once, and the packet in the frame is gone.  The next flush succeeds
and sends nothing. -/
theorem failing_flush_loses :
    ∃ s, (ledger (NoSecurity : SecurityProcessor Unit Empty)
        (⟨fun up _ => (if up then .ok () else .error (), true)⟩ : CodingWrite Bool Unit)
        (FrameConfig.tc ⟨1, 2, .typeB, .typeD, 64⟩).writer).Reachable s ∧
      s.flushed = true ∧ s.accepted = [[1, 2, 3]] ∧ s.sent = [] ∧ ¬ s.Lossless := by
  let C : CodingWrite Bool Unit := ⟨fun up _ => (if up then .ok () else .error (), true)⟩
  let S : SecurityProcessor Unit Empty := NoSecurity
  let s₁ := (Ledger.new (FrameConfig.tc ⟨1, 2, .typeB, .typeD, 64⟩).writer 16 false ()).next S C
    (.put [1, 2, 3])
  refine ⟨(s₁.next S C .flush).next S C .flush,
    .step .flush (.step .flush (.step (.put [1, 2, 3]) (.init ⟨16, false, (), rfl⟩) trivial
      ⟨?_, rfl⟩) trivial ⟨?_, rfl⟩) trivial ⟨?_, rfl⟩, by decide +kernel,
    by decide +kernel, by decide +kernel, fun h => ?_⟩
  · decide
  · decide +kernel
  · decide +kernel
  · obtain ⟨batches, rest, haccepted, hrest, hsent⟩ := h.drained (by decide +kernel)
    have hnone : ((s₁.next S C .flush).next S C .flush).sent = [] := by decide +kernel
    have hone : ((s₁.next S C .flush).next S C .flush).accepted = [[1, 2, 3]] := by decide
    rw [hnone] at hsent
    rw [hone] at haccepted
    cases hsent
    have haccepted : [[1, 2, 3]] = rest := haccepted
    rw [← haccepted] at hrest
    cases hrest

end Datalink
end Leodos
