/-
Reliability wrappers of the data link, `datalink/reliability/mod.rs`.
-/
import Leodos.Cop1.Farm
import Leodos.Datalink.Framing.Aos
import Leodos.Datalink.Framing.Proximity1
import Leodos.Datalink.Framing.Tc
import Leodos.Datalink.Framing.Tm
import Leodos.Datalink.Framing.Uslp
import Leodos.Datalink.Sdls

namespace Leodos
namespace Datalink

open Cop1 Spp Tc

inductive Cop1ReadResult where
  | accept
  | discard
  deriving DecidableEq, Repr

def accepts : FarmAction → Bool
  | .accept _ => true
  | _ => false

/-- Frames of control commands are left to the caller. -/
def Cop1Reader.read (farm : FarmMachine) (frame : Bytes) :
    Except (Fault Empty) Cop1ReadResult × FarmMachine :=
  match TelecommandTransferFrame.parse frame with
  | .error .panic => (.error .panic, farm)
  | .error (.error _) => (.ok .discard, (farm.handle .invalidFrame).1)
  | .ok tcFrame =>
    let fed := fun event =>
      let result := farm.handle event
      (.ok (if result.2.any accepts then .accept else .discard), result.1)
    match tcFrame.header.bypassFlag, tcFrame.header.controlFlag with
    | .typeA, .typeD => fed (.adFrame tcFrame.header.sequenceNum true tcFrame.dataField)
    | .typeB, .typeD => fed (.bdFrame tcFrame.dataField)
    | _, _ => (.ok .discard, (farm.handle .invalidFrame).1)

end Datalink
end Leodos

/-
What a received frame can do to the reading side of the link.

Slices and casts of the readers rest on lengths that the frame announces.  A reader that has
not panicked keeps bounds that are those of a slice, and from there a read panics exactly on
the frames that a format or the security processor does not tolerate.
-/

namespace Leodos
namespace Datalink

open Memory Spp

namespace FrameReader

/-- The bounds are those of a slice. -/
def Ready (r : FrameReader) : Prop := r.dataStart ≤ r.dataEnd ∧ r.dataEnd ≤ r.buf.length

theorem ready_new (size : Nat) : (new size).Ready := ⟨Nat.le_refl 0, Nat.zero_le _⟩

theorem dataField_of_ready {r : FrameReader} (h : r.Ready) :
    r.dataField = some (slice r.buf r.dataStart (r.dataEnd - r.dataStart)) := if_pos h

theorem feed_safe_iff {R : ReaderFormat} {r : FrameReader} {len : Nat} (hlen : len ≤ r.buf.length) :
    (Returns (r.feed R len).1 ∧ ((r.feed R len).1 = .ok () → (r.feed R len).2.Ready)) ↔
      R.Safe (r.buf.take len) := by
  rw [feed, if_neg (Nat.not_lt.2 hlen), ReaderFormat.Safe]
  cases hlayout : R.layout (r.buf.take len) with
  | error fault =>
    cases fault with
    | error e => exact iff_of_true ⟨returns_error _, fun h => by cases h⟩ trivial
    | panic => exact iff_of_false (fun h => not_returns_panic h.1) id
  | ok bounds =>
    have hend := R.layout_le hlayout
    rw [List.length_take, Nat.min_eq_left hlen] at hend
    exact ⟨fun h => (h.2 rfl).1,
      fun h => ⟨returns_ok _, fun _ => ⟨h, Nat.le_trans hend hlen⟩⟩⟩

end FrameReader

namespace DatalinkReader

variable {σ ρ ε ε' : Type} {r : DatalinkReader σ ρ} {R : ReaderFormat}
  {S : SecurityProcessor σ ε'} {C : CodingRead ρ ε} {frame : Bytes} {room : Nat}

theorem extractPacket_of_ready (h : r.frameReader.Ready) (room : Nat) :
    extractPacket r room = some (none, r) ∨
      ∃ packet next, extractPacket r room = some (some packet, next) ∧
        next.frameReader = r.frameReader := by
  rw [extractPacket, FrameReader.dataField_of_ready h]
  dsimp only
  split
  · exact Or.inl rfl
  · split
    · exact Or.inl rfl
    · exact Or.inr ⟨_, _, rfl, rfl⟩

theorem extractPacket_of_not_ready (h : ¬ r.frameReader.Ready) (room : Nat) :
    extractPacket r room = none := by
  have hnone : r.frameReader.dataField = none := if_neg h
  rw [extractPacket, hnone]

theorem accept_returns_iff {len : Nat} (hlen : len ≤ r.frameReader.buf.length) :
    Returns (accept (ε := ε) R r len room).1 ↔ R.Safe (r.frameReader.buf.take len) := by
  rw [← FrameReader.feed_safe_iff hlen, accept]
  cases r.frameReader.feed R len with
  | mk result fed =>
    cases result with
    | error fault =>
      cases fault with
      | error e => exact iff_of_true (returns_error _) ⟨returns_error _, fun h => by cases h⟩
      | panic => exact iff_of_false not_returns_panic (fun h => not_returns_panic h.1)
    | ok u =>
      dsimp only
      by_cases hready : fed.Ready
      · refine iff_of_true ?_ ⟨returns_ok _, fun _ => hready⟩
        rcases extractPacket_of_ready (show (DatalinkReader.mk fed r.security r.codingReader
            0).frameReader.Ready from hready) room with hnone | hsome
        · rw [hnone]
          exact returns_ok _
        · obtain ⟨packet, next, hsome, -⟩ := hsome
          rw [hsome]
          exact returns_ok _
      · have hextract := extractPacket_of_not_ready (show ¬ (DatalinkReader.mk fed r.security
          r.codingReader 0).frameReader.Ready from hready) room
        refine iff_of_false ?_ (fun h => hready (h.2 rfl))
        rw [hextract]
        exact not_returns_panic

/-- The reader keeps the bounds of a slice in a buffer of its size. -/
def Keeps (r next : DatalinkReader σ ρ) : Prop :=
  next.frameReader.Ready ∧ next.frameReader.buf.length = r.frameReader.buf.length

theorem accept_keeps {len : Nat} (hlen : len ≤ r.frameReader.buf.length)
    (h : r.frameReader.Ready) (hreturns : Returns (accept (ε := ε) R r len room).1) :
    Keeps r (accept (ε := ε) R r len room).2 := by
  rw [accept, FrameReader.feed, if_neg (Nat.not_lt.2 hlen)] at hreturns ⊢
  cases hlayout : R.layout (r.frameReader.buf.take len) with
  | error fault => exact ⟨h, rfl⟩
  | ok bounds =>
    rw [hlayout] at hreturns
    let fed : DatalinkReader σ ρ :=
      ⟨{ r.frameReader with dataStart := bounds.1, dataEnd := bounds.2 }, r.security,
        r.codingReader, 0⟩
    by_cases hready : fed.frameReader.Ready
    · dsimp only
      rcases extractPacket_of_ready hready room with hnone | hsome
      · rw [hnone]
        exact ⟨hready, rfl⟩
      · obtain ⟨packet, next, hsome, hnext⟩ := hsome
        rw [hsome]
        show Keeps r next
        rw [Keeps, hnext]
        exact ⟨hready, rfl⟩
    · dsimp only at hreturns
      rw [extractPacket_of_not_ready hready room] at hreturns
      exact absurd hreturns not_returns_panic

theorem receive_returns_iff
    (hkeeps : (S.process r.security frame).2.1.length = frame.length)
    (hpos : frame ≠ []) (hfits : frame.length ≤ r.frameReader.buf.length) :
    Returns (receive (ε := ε) R S r frame room).1 ↔
      Returns (S.process r.security frame).1 ∧
        ∀ n opened s, S.process r.security frame = (.ok n, opened, s) → R.Safe opened := by
  have hlen : frame.length ≠ 0 := fun h => hpos (List.length_eq_zero_iff.1 h)
  rw [receive, if_neg hlen, if_neg (Nat.not_lt.2 hfits)]
  dsimp only
  rw [take_write hfits]
  cases hprocess : S.process r.security frame with
  | mk result rest =>
    obtain ⟨opened, security⟩ := rest
    rw [hprocess] at hkeeps
    have hkeeps : opened.length = frame.length := hkeeps
    cases result with
    | error fault =>
      cases fault with
      | error e => exact iff_of_true (returns_error _) ⟨returns_error _, fun n _ _ h => by cases h⟩
      | panic => exact iff_of_false not_returns_panic (fun h => not_returns_panic h.1)
    | ok n =>
      dsimp only
      have hbuf : opened.length ≤ (Memory.write r.frameReader.buf 0 frame).length := by
        rw [hkeeps, write_length]
        exact hfits
      rw [accept_returns_iff (by rw [write_length, write_length]; exact hfits)]
      dsimp only
      rw [← hkeeps, take_write hbuf]
      constructor
      · intro h
        refine ⟨returns_ok _, fun _ _ _ he => ?_⟩
        cases he
        exact h
      · intro h
        exact h.2 n opened security rfl

theorem receive_keeps (h : r.frameReader.Ready)
    (hreturns : Returns (receive (ε := ε) R S r frame room).1) :
    Keeps r (receive (ε := ε) R S r frame room).2 := by
  rw [receive] at hreturns ⊢
  by_cases hlen : frame.length = 0
  · rw [if_pos hlen]
    exact ⟨h, rfl⟩
  · rw [if_neg hlen] at hreturns ⊢
    by_cases hfits : r.frameReader.buf.length < frame.length
    · rw [if_pos hfits] at hreturns
      exact absurd hreturns not_returns_panic
    · rw [if_neg hfits] at hreturns ⊢
      dsimp only at hreturns ⊢
      rw [take_write (Nat.le_of_not_lt hfits)] at hreturns ⊢
      cases hprocess : S.process r.security frame with
      | mk result rest =>
        obtain ⟨opened, security⟩ := rest
        rw [hprocess] at hreturns
        let buf := Memory.write (Memory.write r.frameReader.buf 0 frame) 0 opened
        have hbuf : buf.length = r.frameReader.buf.length :=
          (write_length _ _ _).trans (write_length _ _ _)
        have hready : FrameReader.Ready { r.frameReader with buf := buf } :=
          ⟨h.1, Nat.le_trans h.2 (Nat.le_of_eq hbuf.symm)⟩
        cases result with
        | error fault => exact ⟨hready, hbuf⟩
        | ok n =>
          have hnext := accept_keeps (r := ⟨{ r.frameReader with buf := buf }, security,
            r.codingReader, r.pos⟩)
            (Nat.le_trans (Nat.le_of_not_lt hfits) (Nat.le_of_eq hbuf.symm)) hready hreturns
          exact ⟨hnext.1, hnext.2.trans hbuf⟩

/-- The frame that a read gets from the coding layer, when no packet is left of the one
before. -/
def Offered (C : CodingRead ρ ε) (r : DatalinkReader σ ρ) (room : Nat) (frame : Bytes) : Prop :=
  extractPacket r room = some (none, r) ∧ frame ≠ [] ∧
    (C.read r.codingReader r.frameReader.buf.length).1 = .ok frame

/-- A coding layer puts no more octets into a buffer than it holds. -/
def Fits (C : CodingRead ρ ε) : Prop :=
  ∀ c size frame, (C.read c size).1 = .ok frame → frame.length ≤ size

def KeepsLength (S : SecurityProcessor σ ε') : Prop :=
  ∀ s frame, (S.process s frame).2.1.length = frame.length

theorem read_returns_iff (hS : KeepsLength S) (hC : Fits C) (h : r.frameReader.Ready) :
    Returns (read R S C r room).1 ↔
      ∀ frame, Offered C r room frame → Returns (S.process r.security frame).1 ∧
        ∀ n opened s, S.process r.security frame = (.ok n, opened, s) → R.Safe opened := by
  rw [read]
  rcases extractPacket_of_ready h room with hnone | hsome
  · rw [hnone]
    dsimp only
    have hfits := hC r.codingReader r.frameReader.buf.length
    cases hread : C.read r.codingReader r.frameReader.buf.length with
    | mk result codingReader =>
      rw [hread] at hfits
      cases result with
      | error e =>
        refine iff_of_true (returns_error _) fun frame hoffered => ?_
        obtain ⟨-, -, hok⟩ := hoffered
        rw [hread] at hok
        cases hok
      | ok frame =>
        dsimp only
        by_cases hpos : frame = []
        · refine iff_of_true ?_ fun frame' hoffered => ?_
          · rw [hpos]
            exact returns_ok _
          · obtain ⟨-, hne, hok⟩ := hoffered
            rw [hread] at hok
            cases hok
            exact absurd hpos hne
        · rw [receive_returns_iff (r := { r with codingReader := codingReader }) (hS _ _) hpos
            (hfits frame rfl)]
          constructor
          · intro hsafe frame' hoffered
            obtain ⟨-, -, hok⟩ := hoffered
            rw [hread] at hok
            cases hok
            exact hsafe
          · intro hall
            exact hall frame ⟨hnone, hpos, by rw [hread]⟩
  · obtain ⟨packet, next, hsome, -⟩ := hsome
    rw [hsome]
    refine iff_of_true (returns_ok _) fun frame hoffered => ?_
    rw [hoffered.1] at hsome
    cases hsome

theorem read_keeps (h : r.frameReader.Ready)
    (hreturns : Returns (read R S C r room).1) : Keeps r (read R S C r room).2 := by
  rw [read] at hreturns ⊢
  rcases extractPacket_of_ready h room with hnone | hsome
  · rw [hnone] at hreturns ⊢
    dsimp only at hreturns ⊢
    cases hread : C.read r.codingReader r.frameReader.buf.length with
    | mk result codingReader =>
      rw [hread] at hreturns
      cases result with
      | error e => exact ⟨h, rfl⟩
      | ok frame =>
        exact receive_keeps (r := { r with codingReader := codingReader }) h hreturns
  · obtain ⟨packet, next, hsome, hnext⟩ := hsome
    rw [hsome]
    show Keeps r next
    rw [Keeps, hnext]
    exact ⟨h, rfl⟩

/-- Readers after any number of reads that returned, each with a buffer of its own size. -/
inductive Reached (R : ReaderFormat) (S : SecurityProcessor σ ε') (C : CodingRead ρ ε) :
    DatalinkReader σ ρ → Prop where
  | new (size : Nat) (codingReader : ρ) (security : σ) :
      Reached R S C (new (FrameReader.new size) codingReader security)
  | read {r : DatalinkReader σ ρ} (room : Nat) (h : Reached R S C r)
      (hreturns : Returns (read R S C r room).1) : Reached R S C (read R S C r room).2

theorem ready_of_reached (h : Reached R S C r) : r.frameReader.Ready := by
  induction h with
  | new size codingReader security => exact FrameReader.ready_new size
  | read room _ hreturns ih => exact (read_keeps ih hreturns).1

end DatalinkReader

/-! ## The formats and the security processors of the link -/

inductive Framing where
  | tc
  | tm
  | aos
  | proximity1
  | uslp (insertZoneLen : Nat) (fecfPresent : Bool)
  deriving DecidableEq, Repr

namespace Framing

def reader : Framing → ReaderFormat
  | tc => Tc.TcFrameReader.format
  | tm => Tm.TmFrameReader.format
  | aos => Aos.AosFrameReader.format
  | proximity1 => Proximity1.Prox1FrameReader.format
  | uslp insertZoneLen fecfPresent => Uslp.UslpFrameReader.format insertZoneLen fecfPresent

/-- What the reader of the format takes for granted about a frame. -/
def Tolerates : Framing → Bytes → Prop
  | tc => Tc.Tolerates
  | tm => fun _ => True
  | aos => fun _ => True
  | proximity1 => Proximity1.Tolerates
  | uslp insertZoneLen fecfPresent => Uslp.Tolerates insertZoneLen fecfPresent

theorem safe_iff (framing : Framing) (frame : Bytes) :
    framing.reader.Safe frame ↔ framing.Tolerates frame := by
  cases framing with
  | tc => exact Tc.safe_iff
  | tm => exact iff_of_true (Tm.safe frame) trivial
  | aos => exact iff_of_true (Aos.safe frame) trivial
  | proximity1 => exact Proximity1.safe_iff
  | uslp insertZoneLen fecfPresent => exact Uslp.safe_iff

end Framing

inductive Security where
  | noSecurity
  | sdls (crypto : Sdls.CryptoProvider) (headerEnd : Nat)

namespace Security

def processor : Security → SecurityProcessor Sdls.SecurityAssociation Sdls.Error
  | noSecurity => NoSecurity
  | sdls crypto headerEnd => Sdls.SdlsProcessor crypto headerEnd

/-- What the processor takes for granted about a frame. -/
def Tolerates : Security → Sdls.SecurityAssociation → Bytes → Prop
  | noSecurity, _, _ => True
  | sdls _ headerEnd, sa, frame => Sdls.Tolerates sa headerEnd frame

/-- The processor accepts the frame and leaves these octets. -/
def Opens (security : Security) (sa : Sdls.SecurityAssociation) (frame opened : Bytes) : Prop :=
  ∃ n next, security.processor.process sa frame = (.ok n, opened, next)

theorem process_returns_iff (security : Security) (sa : Sdls.SecurityAssociation)
    (frame : Bytes) :
    Returns (security.processor.process sa frame).1 ↔ security.Tolerates sa frame := by
  cases security with
  | noSecurity => exact iff_of_true (returns_ok _) trivial
  | sdls crypto headerEnd => exact Sdls.process_returns_iff

theorem keepsLength (security : Security) : DatalinkReader.KeepsLength security.processor := by
  intro sa frame
  cases security with
  | noSecurity => rfl
  | sdls crypto headerEnd => exact Sdls.process_length crypto headerEnd sa frame

end Security

theorem cop1Reader_returns_iff (farm : Cop1.FarmMachine) (frame : Bytes) :
    Returns (Cop1Reader.read farm frame).1 ↔ Tc.Tolerates frame := by
  rw [Cop1Reader.read, ← Tc.parse_returns_iff]
  cases Tc.TelecommandTransferFrame.parse frame with
  | error fault =>
    cases fault with
    | error e => exact iff_of_true (returns_ok _) (returns_error _)
    | panic => exact iff_of_false not_returns_panic not_returns_panic
  | ok tcFrame =>
    refine iff_of_true ?_ (returns_ok _)
    dsimp only
    split <;> exact returns_ok _

/-- A read panics exactly when the frame that it gets is one that the security processor or,
once it is accepted, the format does not tolerate.  The reader of COP-1 panics exactly on
telecommand frames of the same kind. -/
theorem receive_path_returns_iff {ρ ε : Type} {framing : Framing} {security : Security}
    {C : CodingRead ρ ε} (hC : DatalinkReader.Fits C) :
    (∀ (r : DatalinkReader Sdls.SecurityAssociation ρ) (room : Nat),
      DatalinkReader.Reached framing.reader security.processor C r →
        (Returns (DatalinkReader.read framing.reader security.processor C r room).1 ↔
          ∀ frame, DatalinkReader.Offered C r room frame →
            security.Tolerates r.security frame ∧
              ∀ opened, security.Opens r.security frame opened → framing.Tolerates opened)) ∧
      ∀ (farm : Cop1.FarmMachine) (frame : Bytes),
        Returns (Cop1Reader.read farm frame).1 ↔ Tc.Tolerates frame := by
  refine ⟨fun r room hr => ?_, cop1Reader_returns_iff⟩
  rw [DatalinkReader.read_returns_iff security.keepsLength hC
    (DatalinkReader.ready_of_reached hr)]
  refine forall_congr' fun frame => imp_congr_right fun _ => ?_
  rw [security.process_returns_iff]
  refine and_congr_right fun _ => ?_
  constructor
  · intro h opened hopens
    obtain ⟨n, next, hprocess⟩ := hopens
    exact (framing.safe_iff opened).1 (h n opened next hprocess)
  · intro h n opened next hprocess
    exact (framing.safe_iff opened).2 (h opened ⟨n, next, hprocess⟩)

theorem passRead_fits : DatalinkReader.Fits passRead := by
  intro pending size frame h
  cases h
  rw [List.length_take]
  exact Nat.min_le_left ..

def blankAssociation : Sdls.SecurityAssociation :=
  ⟨1, .authentication, 0, 0, 0, 0, 0, 0, [], Nat.zero_le _⟩

/-- A telecommand frame of seven octets that says so. -/
theorem receive_path_returns_seven_octets :
    Returns (DatalinkReader.read Framing.tc.reader Security.noSecurity.processor passRead
      (.new (FrameReader.new 8) [[0, 0, 0, 6, 0, 1, 2]] blankAssociation) 64).1 := by
  refine ((@receive_path_returns_iff _ _ .tc .noSecurity passRead passRead_fits).1 _ 64
    (.new 8 [[0, 0, 0, 6, 0, 1, 2]] blankAssociation)).2 fun frame hoffered => ⟨trivial, ?_⟩
  intro opened hopens
  obtain ⟨-, -, hframe⟩ := hoffered
  obtain ⟨n, next, hprocess⟩ := hopens
  cases hframe
  cases hprocess
  intro _ _
  decide

/-- Five octets whose header announces a frame of one octet. -/
theorem one_octet_length_panics :
    ¬ Returns (DatalinkReader.read Framing.tc.reader Security.noSecurity.processor passRead
      (.new (FrameReader.new 8) [[0, 0, 0, 0, 0]] blankAssociation) 64).1 :=
  fun h => h rfl

end Datalink
end Leodos
