/-
Frames secured on their way out.

A link with security collects packets as one without does, so it sends the frames that the
plain link would send, each secured with the state that the frame before left.  A frame that
cannot be secured stops it.
-/
import Leodos.Datalink.Accumulation

namespace Leodos
namespace Datalink

open Memory Packing Spp

variable {σ ε' : Type} {S : SecurityProcessor σ ε'}

def ReturnsLength (S : SecurityProcessor σ ε') : Prop :=
  ∀ s frame n sealed next, S.apply s frame = (.ok n, sealed, next) →
    n = frame.length ∧ sealed.length = frame.length

/-- The frames are secured one after the other. -/
inductive Seals (S : SecurityProcessor σ ε') : σ → List Bytes → σ → List Bytes → Prop
  | nil (s : σ) : Seals S s [] s []
  | cons {s mid next : σ} {frame sealed : Bytes} {n : Nat} {frames sealeds : List Bytes}
      (apply : S.apply s frame = (.ok n, sealed, mid)) (rest : Seals S mid frames next sealeds) :
      Seals S s (frame :: frames) next (sealed :: sealeds)

namespace Seals

variable {s mid next next' : σ} {frames frames' sealeds sealeds' : List Bytes}

theorem append (h : Seals S s frames mid sealeds) (h' : Seals S mid frames' next sealeds') :
    Seals S s (frames ++ frames') next (sealeds ++ sealeds') := by
  induction h with
  | nil s => exact h'
  | cons happly _ ih => exact .cons happly (ih h')

theorem of_append {s : σ} (h : Seals S s (frames ++ frames') next sealeds) :
    ∃ mid sealed sealed', Seals S s frames mid sealed ∧ Seals S mid frames' next sealed' := by
  induction frames generalizing s sealeds with
  | nil => exact ⟨s, [], sealeds, .nil s, h⟩
  | cons frame frames ih =>
    cases h with
    | cons happly hrest =>
      obtain ⟨mid, sealed, sealed', hfirst, hlast⟩ := ih hrest
      exact ⟨mid, _, sealed', .cons happly hfirst, hlast⟩

theorem unique {s : σ} (h : Seals S s frames next sealeds)
    (h' : Seals S s frames next' sealeds') : next' = next ∧ sealeds' = sealeds := by
  induction h generalizing next' sealeds' with
  | nil s =>
    cases h'
    exact ⟨rfl, rfl⟩
  | cons happly _ ih =>
    cases h' with
    | cons happly' hrest =>
      rw [happly] at happly'
      cases happly'
      obtain ⟨hnext, hsealeds⟩ := ih hrest
      exact ⟨hnext, by rw [hsealeds]⟩

end Seals

namespace DatalinkWriter

variable {F : WriterFormat} {R : ReaderFormat} {start : σ}
  {w : DatalinkWriter F σ (List Bytes)} {plain plain' : DatalinkWriter F Unit (List Bytes)}
  {room : Nat} {b : Batches Bytes} {frame : Bytes}

theorem send_sealed {n : Nat} {sealed : Bytes} {security : σ} (hS : ReturnsLength S)
    (hscratch : w.scratch.length = SCRATCH_SIZE) (hframe : frame.length ≤ SCRATCH_SIZE)
    (happly : S.apply w.security frame = (.ok n, sealed, security)) :
    ∃ next, send S passWrite w frame = (.ok (), next) ∧ next.frameWriter = w.frameWriter ∧
      next.security = security ∧ next.scratch.length = SCRATCH_SIZE ∧
      next.codingWriter = w.codingWriter ++ [sealed] := by
  obtain ⟨hn, hsealed⟩ := hS _ _ _ _ _ happly
  rw [hn] at happly
  exact send_applied hscratch hframe happly hsealed

theorem send_refused {fault : Fault ε'} {bytes : Bytes} {security : σ}
    (hscratch : w.scratch.length = SCRATCH_SIZE) (hframe : frame.length ≤ SCRATCH_SIZE)
    (happly : S.apply w.security frame = (.error fault, bytes, security)) :
    ∃ fault' next, send S passWrite w frame = (.error fault', next) := by
  have hlen : min frame.length SCRATCH_SIZE = frame.length := Nat.min_eq_left hframe
  have hfits : frame.length ≤ w.scratch.length := by
    rw [hscratch]
    exact hframe
  refine ⟨fault.map fun _ => .security, ?_⟩
  rw [send]
  dsimp only
  rw [hlen, List.take_length, take_write hfits, happly]
  exact ⟨_, rfl⟩

/-! ## Frames in flight stay in flight -/

theorem send_extends (S : SecurityProcessor σ ε') (w : DatalinkWriter F σ (List Bytes))
    (frame : Bytes) :
    ∃ more, (send S passWrite w frame).2.codingWriter = w.codingWriter ++ more := by
  rw [send]
  dsimp only [passWrite]
  split
  · exact ⟨[], (List.append_nil _).symm⟩
  · split
    · exact ⟨[], (List.append_nil _).symm⟩
    · exact ⟨_, rfl⟩

theorem flush_extends (S : SecurityProcessor σ ε') (w : DatalinkWriter F σ (List Bytes)) :
    ∃ more, (flush S passWrite w).2.codingWriter = w.codingWriter ++ more := by
  rw [DatalinkWriter.flush]
  split
  · exact ⟨[], (List.append_nil _).symm⟩
  · split
    · exact ⟨[], (List.append_nil _).symm⟩
    · exact send_extends S _ _

theorem step_extends (S : SecurityProcessor σ ε') (w : DatalinkWriter F σ (List Bytes))
    (op : Op Bytes) : ∃ more, (step S passWrite w op).2.codingWriter = w.codingWriter ++ more := by
  cases op with
  | flush => exact flush_extends S w
  | put data =>
    show ∃ more, (write S passWrite w data).2.codingWriter = w.codingWriter ++ more
    rw [DatalinkWriter.write]
    split
    · exact ⟨[], (List.append_nil _).symm⟩
    · exact ⟨[], (List.append_nil _).symm⟩
    · exact ⟨[], (List.append_nil _).symm⟩
    · have hflush := flush_extends S w
      split
      · rename_i heq
        rw [heq] at hflush
        exact hflush
      · rename_i heq
        rw [heq] at hflush
        split <;> exact hflush

theorem run_extends (S : SecurityProcessor σ ε') (ops : List (Op Bytes))
    (w : DatalinkWriter F σ (List Bytes)) :
    ∃ more, (run S passWrite ops w).2.codingWriter = w.codingWriter ++ more := by
  induction ops generalizing w with
  | nil => exact ⟨[], (List.append_nil _).symm⟩
  | cons op ops ih =>
    have hstep := step_extends S w op
    rw [DatalinkWriter.run]
    split
    · rename_i heq
      rw [heq] at hstep
      exact hstep
    · rename_i next heq
      rw [heq] at hstep
      obtain ⟨first, hfirst⟩ := hstep
      obtain ⟨more, hmore⟩ := ih next
      exact ⟨first ++ more, by rw [hmore, hfirst, List.append_assoc]⟩

/-! ## The secured link beside the plain one -/

/-- The secured link has sent the frames of the plain one. -/
structure Follows (S : SecurityProcessor σ ε') (start : σ) (w : DatalinkWriter F σ (List Bytes))
    (plain : DatalinkWriter F Unit (List Bytes)) : Prop where
  frameWriter : w.frameWriter = plain.frameWriter
  scratch : w.scratch.length = SCRATCH_SIZE
  sent : Seals S start plain.codingWriter w.security w.codingWriter

theorem follows_new (S : SecurityProcessor σ ε') (start : σ) (frameWriter : FrameWriter F) :
    Follows S start (new frameWriter [] start) (new frameWriter [] ()) where
  frameWriter := rfl
  scratch := List.length_replicate
  sent := .nil start

/-- A call of the plain link that succeeds: the secured link follows, or it fails at a frame
that cannot be secured. -/
def Keeps (S : SecurityProcessor σ ε') (start : σ)
    (result : Except (Fault (DatalinkError Empty)) Unit × DatalinkWriter F σ (List Bytes))
    (plain : DatalinkWriter F Unit (List Bytes)) : Prop :=
  (∃ next, result = (.ok (), next) ∧ Follows S start next plain) ∨
    (∃ fault next, result = (.error fault, next)) ∧
      ∀ next sealeds, ¬ Seals S start plain.codingWriter next sealeds

section Run

variable (hS : ReturnsLength S) (hagree : Agrees F R)
  (hroom : F.dataOffset + F.maxDataLen + F.trailerLen ≤ room)
  (hscratch : F.dataOffset + F.maxDataLen + F.trailerLen ≤ SCRATCH_SIZE)

include hS hagree hroom hscratch

theorem Follows.flush (h : Follows S start w plain) (hplain : Collects F R room plain b)
    (hflush : flush (NoSecurity : SecurityProcessor Unit Empty) passWrite plain =
      (.ok (), plain')) : Keeps S start (flush S passWrite w) plain' := by
  rw [DatalinkWriter.flush] at hflush ⊢
  rw [h.frameWriter]
  by_cases hempty : plain.frameWriter.isEmpty = true
  · rw [if_pos hempty] at hflush ⊢
    cases hflush
    exact Or.inl ⟨w, rfl, h⟩
  · rw [if_neg hempty] at hflush ⊢
    have hpos : 0 < size b.opened :=
      Nat.pos_of_ne_zero fun hzero => hempty (hplain.holds.isEmpty.2 hzero)
    obtain ⟨frame, frameWriter, hfinish, -, hcarries⟩ := hplain.holds.finish hagree hroom hpos
    have hframe : frame.length ≤ SCRATCH_SIZE := by
      have hfits := hcarries.fits
      rw [hcarries.length]
      omega
    rw [hfinish] at hflush ⊢
    dsimp only at hflush ⊢
    obtain ⟨next, hsend, hwriter, -, hsent⟩ :=
      send_plain (w := { plain with frameWriter := frameWriter }) hplain.scratch hframe
    rw [hsend] at hflush
    cases hflush
    have hsent : plain'.codingWriter = plain.codingWriter ++ [frame] := hsent
    cases happly : S.apply w.security frame with
    | mk result rest =>
      obtain ⟨sealed, security⟩ := rest
      cases result with
      | ok n =>
        obtain ⟨next, hnext, hnextWriter, hsecurity, hnextScratch, hcoding⟩ :=
          send_sealed (w := { w with frameWriter := frameWriter }) hS h.scratch hframe happly
        refine Or.inl ⟨next, hnext, hnextWriter.trans hwriter.symm, hnextScratch, ?_⟩
        rw [hsent, hsecurity, hcoding]
        exact h.sent.append (.cons happly (.nil security))
      | error fault =>
        refine Or.inr ⟨send_refused (w := { w with frameWriter := frameWriter }) h.scratch hframe
          happly, fun next sealeds hseals => ?_⟩
        rw [hsent] at hseals
        obtain ⟨mid, sealed, sealed', hfirst, hlast⟩ := hseals.of_append
        rw [(h.sent.unique hfirst).1] at hlast
        cases hlast with
        | cons happly' _ =>
          rw [happly] at happly'
          cases happly'

theorem Follows.write {data : Bytes} (h : Follows S start w plain)
    (hplain : Collects F R room plain b)
    (hwrite : write (NoSecurity : SecurityProcessor Unit Empty) passWrite plain data =
      (.ok (), plain')) : Keeps S start (write S passWrite w data) plain' := by
  rw [DatalinkWriter.write] at hwrite ⊢
  rw [h.frameWriter]
  cases hpush : plain.frameWriter.push data with
  | ok frameWriter =>
    rw [hpush] at hwrite
    cases hwrite
    exact Or.inl ⟨_, rfl, rfl, h.scratch, h.sent⟩
  | error fault =>
    rw [hpush] at hwrite
    cases fault with
    | panic => cases hwrite
    | error e =>
      cases e with
      | tooLarge => cases hwrite
      | full =>
        dsimp only at hwrite ⊢
        cases hflush : DatalinkWriter.flush (NoSecurity : SecurityProcessor Unit Empty) passWrite
            plain with
        | mk result mid =>
          rw [hflush] at hwrite
          cases result with
          | error fault => cases hwrite
          | ok u =>
            dsimp only at hwrite
            cases hagain : mid.frameWriter.push data with
            | error fault =>
              rw [hagain] at hwrite
              cases hwrite
            | ok frameWriter =>
              rw [hagain] at hwrite
              cases hwrite
              rcases h.flush hS hagree hroom hscratch hplain hflush with hfollows | hfails
              · obtain ⟨next, hnext, hfollows⟩ := hfollows
                refine Or.inl ⟨{ next with frameWriter := frameWriter }, ?_, rfl,
                  hfollows.scratch, hfollows.sent⟩
                rw [hnext]
                dsimp only
                rw [hfollows.frameWriter, hagain]
              · obtain ⟨⟨fault, next, hnext⟩, hnone⟩ := hfails
                exact Or.inr ⟨⟨fault, next, by rw [hnext]⟩, hnone⟩

theorem Follows.run {ops : List (Op Bytes)} (h : Follows S start w plain)
    (hplain : Collects F R room plain b)
    (hops : ∀ p ∈ puts ops, 0 < p.length ∧ p.length ≤ F.maxDataLen)
    (hrun : run (NoSecurity : SecurityProcessor Unit Empty) passWrite ops plain =
      (.ok (), plain')) : Keeps S start (run S passWrite ops w) plain' := by
  induction ops generalizing w plain b with
  | nil =>
    cases hrun
    exact Or.inl ⟨w, rfl, h⟩
  | cons op ops ih =>
    rw [puts_cons] at hops
    obtain ⟨mid, hstep, hmid⟩ :=
      hplain.step hagree hroom hscratch fun p hp => hops p (List.mem_append_left _ hp)
    have hkeeps : Keeps S start (step S passWrite w op) mid := by
      cases op with
      | put p => exact h.write hS hagree hroom hscratch hplain hstep
      | flush => exact h.flush hS hagree hroom hscratch hplain hstep
    rw [DatalinkWriter.run, hstep] at hrun
    have hrun : DatalinkWriter.run (NoSecurity : SecurityProcessor Unit Empty) passWrite ops mid =
        (.ok (), plain') := hrun
    rw [DatalinkWriter.run]
    rcases hkeeps with hfollows | hfails
    · obtain ⟨next, hnext, hfollows⟩ := hfollows
      rw [hnext]
      exact ih hfollows hmid (fun p hp => hops p (List.mem_append_right _ hp)) hrun
    · obtain ⟨⟨fault, next, hnext⟩, hnone⟩ := hfails
      refine Or.inr ⟨⟨fault, next, by rw [hnext]⟩, fun last sealeds hseals => ?_⟩
      obtain ⟨more, hmore⟩ := run_extends (NoSecurity : SecurityProcessor Unit Empty) ops mid
      rw [hrun] at hmore
      have hmore : plain'.codingWriter = mid.codingWriter ++ more := hmore
      rw [hmore] at hseals
      obtain ⟨between, sealed, -, hfirst, -⟩ := hseals.of_append
      exact hnone between sealed hfirst

end Run

end DatalinkWriter

end Datalink
end Leodos
