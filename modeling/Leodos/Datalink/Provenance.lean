/-
Where the packets of a reader come from.

The bounds of the data field and the read position are those of the last accepted frame, while
the buffer already holds the next one.  A rejected frame is out of reach when the position was
at the end of the field.  It may stop short of it: where the rest does not parse.
-/
import Leodos.Datalink.Reception
import Leodos.Transition.System

namespace Leodos
namespace Datalink
namespace DatalinkReader

open Memory Spp

variable {R : ReaderFormat} {σ ρ ε ε' : Type} {S : SecurityProcessor σ ε'}
  {C : CodingRead ρ ε} {r : DatalinkReader σ ρ} {room : Nat}

def fieldOf (R : ReaderFormat) (frame : Bytes) : Option Bytes :=
  match R.layout frame with
  | .error _ => none
  | .ok (dataStart, dataEnd) => some (slice frame dataStart (dataEnd - dataStart))

def acceptedField (R : ReaderFormat) (S : SecurityProcessor σ ε') (security : σ) (frame : Bytes) :
    Option Bytes :=
  match S.process security frame with
  | (.error _, _, _) => none
  | (.ok _, opened, _) => fieldOf R opened

/-- Nothing is left of the data field. -/
def Spent (r : DatalinkReader σ ρ) : Prop :=
  r.frameReader.dataEnd - r.frameReader.dataStart ≤ r.pos

/-- A reader that has not spent the field has it in its buffer. -/
def Current (r : DatalinkReader σ ρ) (field : Bytes) : Prop :=
  r.frameReader.Ready ∧ (r.Spent ∨ r.frameReader.dataField = some field)

theorem length_dataField {r : FrameReader} (h : r.Ready) {data : Bytes}
    (hdata : r.dataField = some data) : data.length = r.dataEnd - r.dataStart := by
  rw [FrameReader.dataField_of_ready h] at hdata
  cases hdata
  exact slice_length (by have := h.1; have := h.2; omega)

theorem Current.extract {field : Bytes} (h : r.Current field) :
    extractPacket r room = some (none, r) ∨ ∃ packet next,
      extractPacket r room = some (some packet, next) ∧ packet <:+: field ∧ next.Current field := by
  obtain ⟨hready, hfield⟩ := h
  have hdata := FrameReader.dataField_of_ready hready
  have hlen := length_dataField hready hdata
  rw [extractPacket, hdata]
  dsimp only
  split
  · exact Or.inl rfl
  · rename_i hleft
    split
    · exact Or.inl rfl
    · rename_i pkt _
      refine Or.inr ⟨_, _, rfl, ?_, hready, ?_⟩
      · rcases hfield with hspent | hfield
        · unfold Spent at hspent
          omega
        · rw [hdata] at hfield
          cases hfield
          exact ((List.take_prefix _ _).isInfix).trans (List.drop_suffix _ _).isInfix
      · rcases hfield with hspent | hfield
        · unfold Spent at hspent
          omega
        · exact Or.inr hfield

/-! ## Runs of reads -/

/-- The data field of the frame accepted last, when a read that finds no packet gets a frame. -/
def fieldAfter (R : ReaderFormat) (S : SecurityProcessor σ ε') (C : CodingRead ρ ε)
    (r : DatalinkReader σ ρ) (room : Nat) (field : Bytes) : Bytes :=
  match extractPacket r room with
  | some (none, _) =>
    match (C.read r.codingReader r.frameReader.buf.length).1 with
    | .ok frame =>
      if frame.length = 0 then field else (acceptedField R S r.security frame).getD field
    | .error _ => field
  | _ => field

/-- A reader, the data field of the last accepted frame, and the packets handed out, each with
the field that was the last one at that time. -/
structure Session (σ ρ : Type) where
  reader : DatalinkReader σ ρ
  field : Bytes
  handed : List (Bytes × Bytes)

def packetOf (result : Except (Fault (DatalinkError ε)) Bytes) : List Bytes :=
  match result with
  | .ok packet => if packet = [] then [] else [packet]
  | .error _ => []

theorem mem_packetOf_ok {packet packet' : Bytes}
    (h : packet' ∈ packetOf (.ok packet : Except (Fault (DatalinkError ε)) Bytes)) :
    packet' = packet := by
  rw [packetOf] at h
  split at h
  · cases h
  · exact List.mem_singleton.1 h

/-- A read that does not panic, with a buffer of any size. -/
inductive Session.Step (R : ReaderFormat) (S : SecurityProcessor σ ε') (C : CodingRead ρ ε) :
    Session σ ρ → Nat → Session σ ρ → Prop where
  | read {s : Session σ ρ} {room : Nat} : Returns (read R S C s.reader room).1 →
      Step R S C s room
        ⟨(read R S C s.reader room).2, fieldAfter R S C s.reader room s.field,
          s.handed ++ (packetOf (read R S C s.reader room).1).map fun packet =>
            (packet, fieldAfter R S C s.reader room s.field)⟩

def sessionSystem (R : ReaderFormat) (S : SecurityProcessor σ ε') (C : CodingRead ρ ε) :
    Transition.System (Session σ ρ) Nat where
  init s := ∃ size codingReader security,
    s = ⟨new (FrameReader.new size) codingReader security, [], []⟩
  step := Session.Step R S C

/-- A frame that is rejected finds nothing left of the field before it. -/
def RejectsSpent (R : ReaderFormat) (S : SecurityProcessor σ ε') (C : CodingRead ρ ε)
    (s : Session σ ρ) (room : Nat) : Prop :=
  ∀ frame, Offered C s.reader room frame →
    acceptedField R S s.reader.security frame = none → s.reader.Spent

/-- What a read returns is a piece of the last field, and the reader keeps to that field. -/
def Honest (result : Except (Fault (DatalinkError ε)) Bytes × DatalinkReader σ ρ)
    (field : Bytes) : Prop :=
  result.2.Current field ∧ ∀ packet ∈ packetOf result.1, packet <:+: field

theorem current_new (size : Nat) (codingReader : ρ) (security : σ) :
    (new (FrameReader.new size) codingReader security).Current [] :=
  ⟨FrameReader.ready_new size, Or.inl (Nat.le_refl 0)⟩

theorem accept_honest {len : Nat} {field opened : Bytes} (hlen : len ≤ r.frameReader.buf.length)
    (hready : r.frameReader.Ready) (hopened : r.frameReader.buf.take len = opened)
    (hrejects : fieldOf R opened = none → r.Spent)
    (hreturns : Returns (accept (ε := ε) R r len room).1) :
    Honest (accept (ε := ε) R r len room) ((fieldOf R opened).getD field) := by
  rw [accept, FrameReader.feed, if_neg (Nat.not_lt.2 hlen), hopened] at hreturns ⊢
  rw [fieldOf] at hrejects ⊢
  cases hlayout : R.layout opened with
  | error fault =>
    rw [hlayout] at hrejects
    exact ⟨⟨hready, Or.inl (hrejects rfl)⟩, fun packet hp => by cases hp⟩
  | ok bounds =>
    obtain ⟨dataStart, dataEnd⟩ := bounds
    have hend := R.layout_le hlayout
    rw [hlayout] at hreturns
    let fed : DatalinkReader σ ρ :=
      ⟨{ r.frameReader with dataStart := dataStart, dataEnd := dataEnd }, r.security,
        r.codingReader, 0⟩
    by_cases hfed : fed.frameReader.Ready
    · have hle : dataStart ≤ dataEnd := hfed.1
      have hfield : slice opened dataStart (dataEnd - dataStart) =
          slice r.frameReader.buf dataStart (dataEnd - dataStart) := by
        rw [← hopened, slice, slice, List.drop_take, List.take_take, Nat.min_eq_left]
        have htake : opened.length ≤ len := by
          rw [← hopened, List.length_take]
          exact Nat.min_le_left ..
        omega
      have hcurrent : fed.Current (slice opened dataStart (dataEnd - dataStart)) := by
        refine ⟨hfed, Or.inr ?_⟩
        rw [FrameReader.dataField_of_ready hfed, hfield]
      dsimp only [Option.getD_some]
      rcases hcurrent.extract with hnone | ⟨packet, next, hsome, hpiece, hnext⟩
      · rw [hnone]
        exact ⟨hcurrent, fun packet hp => by cases hp⟩
      · rw [hsome]
        refine ⟨hnext, fun packet' hp => ?_⟩
        rw [mem_packetOf_ok hp]
        exact hpiece
    · dsimp only at hreturns
      rw [extractPacket_of_not_ready hfed room] at hreturns
      exact absurd hreturns not_returns_panic

theorem receive_honest (hS : KeepsLength S) (hready : r.frameReader.Ready) {frame field : Bytes}
    (hfits : frame.length ≤ r.frameReader.buf.length) (hpos : frame ≠ [])
    (hrejects : acceptedField R S r.security frame = none → r.Spent)
    (hreturns : Returns (receive (ε := ε) R S r frame room).1) :
    Honest (receive (ε := ε) R S r frame room)
      ((acceptedField R S r.security frame).getD field) := by
  have hlen : frame.length ≠ 0 := fun h => hpos (List.length_eq_zero_iff.1 h)
  have hkeeps := hS r.security frame
  rw [receive, if_neg hlen, if_neg (Nat.not_lt.2 hfits)] at hreturns ⊢
  dsimp only at hreturns ⊢
  rw [take_write hfits] at hreturns ⊢
  rw [acceptedField] at hrejects ⊢
  cases hprocess : S.process r.security frame with
  | mk result rest =>
    obtain ⟨opened, security⟩ := rest
    rw [hprocess] at hreturns hrejects hkeeps
    replace hkeeps : opened.length = frame.length := hkeeps
    let buf := Memory.write (Memory.write r.frameReader.buf 0 frame) 0 opened
    have hbuf : buf.length = r.frameReader.buf.length :=
      (write_length _ _ _).trans (write_length _ _ _)
    have hready' : FrameReader.Ready { r.frameReader with buf := buf } :=
      ⟨hready.1, Nat.le_trans hready.2 (Nat.le_of_eq hbuf.symm)⟩
    cases result with
    | error fault => exact ⟨⟨hready', Or.inl (hrejects rfl)⟩, fun packet hp => by cases hp⟩
    | ok n =>
      have hopened : buf.take frame.length = opened := by
        rw [← hkeeps]
        exact take_write (by rw [write_length, hkeeps]; exact hfits)
      exact accept_honest (r := ⟨{ r.frameReader with buf := buf }, security, r.codingReader,
        r.pos⟩) (Nat.le_trans hfits (Nat.le_of_eq hbuf.symm)) hready' hopened hrejects hreturns

theorem Current.read (hS : KeepsLength S) {field : Bytes} (h : r.Current field)
    (hrejects : ∀ frame, Offered C r room frame →
      acceptedField R S r.security frame = none → r.Spent)
    (hreturns : Returns (read R S C r room).1) :
    Honest (read R S C r room) (fieldAfter R S C r room field) := by
  rw [DatalinkReader.read] at hreturns ⊢
  rw [fieldAfter]
  rcases h.extract with hnone | ⟨packet, next, hsome, hpiece, hnext⟩
  · have hoffered := fun frame (hne : frame ≠ []) hok =>
      hrejects frame ⟨hnone, hne, hok⟩
    rw [hnone] at hreturns ⊢
    dsimp only at hreturns ⊢
    cases hread : C.read r.codingReader r.frameReader.buf.length with
    | mk result codingReader =>
      rw [hread] at hreturns hoffered
      cases result with
      | error e => exact ⟨h, fun packet hp => by cases hp⟩
      | ok frame =>
        dsimp only at hreturns ⊢
        by_cases hlen : frame.length = 0
        · rw [receive, if_pos hlen, if_pos hlen]
          exact ⟨h, fun packet hp => by cases hp⟩
        · have hne : frame ≠ [] := fun hnil => hlen (congrArg List.length hnil)
          rw [if_neg hlen]
          by_cases hfits : r.frameReader.buf.length < frame.length
          · rw [receive, if_neg hlen, if_pos hfits] at hreturns
            exact absurd hreturns not_returns_panic
          · exact receive_honest (r := { r with codingReader := codingReader }) hS h.1
              (Nat.le_of_not_lt hfits) hne (hoffered frame hne rfl) hreturns
  · rw [hsome]
    refine ⟨hnext, fun packet' hp => ?_⟩
    rw [mem_packetOf_ok hp]
    exact hpiece

/-- When every frame that is rejected comes after the field before it was used up, each packet
handed out is a piece of the data field of the frame accepted last. -/
theorem packets_from_accepted (hS : KeepsLength S) {s : Session σ ρ}
    (h : (sessionSystem R S C).Reaches (RejectsSpent R S C) s) :
    ∀ p ∈ s.handed, p.1 <:+: p.2 := by
  have hinv : s.reader.Current s.field ∧ ∀ p ∈ s.handed, p.1 <:+: p.2 := by
    refine h.invariant (fun s : Session σ ρ =>
      s.reader.Current s.field ∧ ∀ p ∈ s.handed, p.1 <:+: p.2) ?_ ?_
    · intro s hs
      obtain ⟨size, codingReader, security, rfl⟩ := hs
      exact ⟨current_new size codingReader security, fun p hp => (List.not_mem_nil hp).elim⟩
    · intro s room s' hs hrejects hstep
      obtain ⟨hcurrent, hhanded⟩ := hs
      cases hstep with
      | read hreturns =>
        obtain ⟨hnext, hpieces⟩ := hcurrent.read hS hrejects hreturns
        refine ⟨hnext, fun p hp => ?_⟩
        rcases List.mem_append.1 hp with hold | hnew
        · exact hhanded p hold
        · obtain ⟨packet, hpacket, rfl⟩ := List.mem_map.1 hnew
          exact hpieces packet hpacket
  exact hinv.2

/-- Two frames of the association, and between them one of an association that does not exist. -/
def acceptedAroundForged : List Bytes :=
  [[0, 0, 0, 0, 0, 0, 0, 1, 192, 0, 0, 0, 7], [0, 0, 0, 0, 0, 0, 0, 2, 192, 0, 0, 0, 7],
    [0, 0, 0, 0, 0, 0, 0, 1, 192, 0, 0, 0, 9]]

/-- The forged frame comes when the packet before it was handed out, and so nothing of it is. -/
theorem packets_from_accepted_one :
    ∃ s, (sessionSystem Framing.tm.reader (Security.sdls Sdls.ClearModeCrypto 6).processor
      passRead).Reaches (RejectsSpent Framing.tm.reader
        (Security.sdls Sdls.ClearModeCrypto 6).processor passRead) s ∧
      s.handed.map Prod.fst = [[0, 1, 192, 0, 0, 0, 7], [0, 1, 192, 0, 0, 0, 9]] ∧
      ∀ p ∈ s.handed, p.1 <:+: p.2 := by
  have hreaches : (sessionSystem Framing.tm.reader
      (Security.sdls Sdls.ClearModeCrypto 6).processor passRead).Reaches (RejectsSpent
        Framing.tm.reader (Security.sdls Sdls.ClearModeCrypto 6).processor passRead) _ :=
    .step 64 (.step 64 (.step 64 (.init ⟨13, acceptedAroundForged, blankAssociation, rfl⟩)
      (fun _ _ _ => Nat.le_refl 0) (.read (returns_ok [0, 1, 192, 0, 0, 0, 7])))
      (fun _ _ _ => Nat.le_refl 7) (.read (returns_error DatalinkError.security)))
      (fun _ _ _ => Nat.le_refl 7) (.read (returns_ok [0, 1, 192, 0, 0, 0, 9]))
  exact ⟨_, hreaches, rfl, packets_from_accepted (Security.keepsLength _) hreaches⟩

/-- An accepted frame whose data field does not parse, and a frame for an association that
does not exist. -/
def unparsedThenForged : List Bytes :=
  [[0, 0, 0, 0, 0, 0, 0, 1, 255, 255, 255, 255, 255],
    [0, 0, 0, 0, 0, 0, 0, 2, 192, 0, 0, 0, 7]]

/-- The octets of the rejected frame come out of the third read. -/
theorem rejected_frame_handed_out :
    ∃ s, (sessionSystem Framing.tm.reader (Security.sdls Sdls.ClearModeCrypto 6).processor
      passRead).Reachable s ∧
      s.handed = [([0, 2, 192, 0, 0, 0, 7], [0, 1, 255, 255, 255, 255, 255])] := by
  refine ⟨_, .step 64 (.step 64 (.step 64 (.init ⟨13, unparsedThenForged, blankAssociation, rfl⟩)
    trivial (.read ?_)) trivial (.read ?_)) trivial (.read ?_), ?_⟩
  · exact returns_ok []
  · exact returns_error DatalinkError.security
  · exact returns_ok [0, 2, 192, 0, 0, 0, 7]
  · rfl

end DatalinkReader
end Datalink
end Leodos
