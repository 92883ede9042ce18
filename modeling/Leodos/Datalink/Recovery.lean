/-
What the results of reads say about the frames.

A read hands out octets of the current data field or of the next frame's, and no octet
twice.  When the packets that come out are as long as all data fields together, every frame
was accepted and its whole data field was read.
-/
import Leodos.Datalink.Extraction
import Leodos.Datalink.Reception

namespace Leodos
namespace Datalink

open Memory Spp

namespace DatalinkReader

variable {F : WriterFormat} {R : ReaderFormat} {σ ρ ε ε' : Type} {r : DatalinkReader σ ρ}
  {S : SecurityProcessor σ ε'} {p : Bytes} {room : Nat}

def left (r : DatalinkReader σ ρ) : Bytes :=
  match r.frameReader.dataField with
  | none => []
  | some data => data.drop r.pos

theorem length_left_le (r : DatalinkReader σ ρ) : r.left.length ≤ r.frameReader.buf.length := by
  rw [left, FrameReader.dataField]
  split
  · exact Nat.zero_le _
  · next data hdata =>
    split at hdata
    · rename_i hbounds
      cases hdata
      rw [List.length_drop, slice, List.length_take, List.length_drop]
      omega
    · cases hdata

theorem extract_left {next : DatalinkReader σ ρ} (hroom : r.frameReader.buf.length ≤ room)
    (h : extractPacket r room = some (some p, next)) :
    r.left = p ++ next.left ∧ next.frameReader = r.frameReader ∧ next.security = r.security ∧
      next.codingReader = r.codingReader := by
  have hleft := r.length_left_le
  rw [left] at hleft
  rw [extractPacket] at h
  cases hdata : r.frameReader.dataField with
  | none =>
    rw [hdata] at h
    cases h
  | some data =>
    rw [hdata] at h hleft
    dsimp only at h hleft
    split at h
    · cases h
    · cases hparse : SpacePacket.parse (data.drop r.pos) with
      | error e =>
        rw [hparse] at h
        cases h
      | ok pkt =>
        rw [hparse] at h
        obtain ⟨-, hle, hpkt⟩ := SpacePacket.parse_ok_iff.1 hparse
        have hlen : pkt.primaryHeader.packetLen ≤ (data.drop r.pos).length := by
          rw [hpkt]
          exact hle
        dsimp only at h
        rw [Nat.min_eq_left (by omega)] at h
        cases h
        refine ⟨?_, rfl, rfl, rfl⟩
        show r.left = _ ++ left _
        rw [left, left, hdata]
        dsimp only
        rw [← List.drop_drop, List.take_append_drop]

theorem extract_none {next : DatalinkReader σ ρ} (h : extractPacket r room = some (none, next)) :
    next = r := by
  rw [extractPacket] at h
  split at h
  · cases h
  · dsimp only at h
    split at h
    · cases h
      rfl
    · split at h
      · cases h
        rfl
      · cases h

/-- The processor accepts the frame, and the format finds these data in what it leaves. -/
def Yields (R : ReaderFormat) (S : SecurityProcessor σ ε') (s : σ) (frame data : Bytes)
    (next : σ) : Prop :=
  ∃ n opened dataStart dataEnd, S.process s frame = (.ok n, opened, next) ∧
    R.layout opened = .ok (dataStart, dataEnd) ∧ dataStart ≤ dataEnd ∧
    slice opened dataStart (dataEnd - dataStart) = data

theorem accept_left {len : Nat} {next : DatalinkReader σ ρ}
    (hlen : len ≤ r.frameReader.buf.length) (hroom : r.frameReader.buf.length ≤ room)
    (hp : p ≠ []) (h : accept (ε := ε) R r len room = (.ok p, next)) :
    ∃ dataStart dataEnd, R.layout (r.frameReader.buf.take len) = .ok (dataStart, dataEnd) ∧
      dataStart ≤ dataEnd ∧
      slice (r.frameReader.buf.take len) dataStart (dataEnd - dataStart) = p ++ next.left ∧
      next.security = r.security ∧ next.codingReader = r.codingReader ∧
      next.frameReader.buf.length = r.frameReader.buf.length := by
  rw [accept, FrameReader.feed, if_neg (Nat.not_lt.2 hlen)] at h
  cases hlayout : R.layout (r.frameReader.buf.take len) with
  | error fault =>
    rw [hlayout] at h
    cases h
  | ok bounds =>
    obtain ⟨dataStart, dataEnd⟩ := bounds
    have hend := R.layout_le hlayout
    rw [List.length_take, Nat.min_eq_left hlen] at hend
    rw [hlayout] at h
    dsimp only at h
    let fed : DatalinkReader σ ρ :=
      ⟨{ r.frameReader with dataStart := dataStart, dataEnd := dataEnd }, r.security,
        r.codingReader, 0⟩
    cases hextract : extractPacket fed room with
    | none =>
      rw [hextract] at h
      cases h
    | some taken =>
      rw [hextract] at h
      obtain ⟨packet, rest⟩ := taken
      cases packet with
      | none =>
        cases h
        exact absurd rfl hp
      | some packet =>
        cases h
        obtain ⟨hleft, hreader, hsecurity, hcoding⟩ :=
          extract_left (show fed.frameReader.buf.length ≤ room from hroom) hextract
        by_cases hbounds : dataStart ≤ dataEnd
        · refine ⟨dataStart, dataEnd, rfl, hbounds, ?_, hsecurity, hcoding, by rw [hreader]⟩
          rw [← hleft, left, FrameReader.dataField, if_pos ⟨hbounds, Nat.le_trans hend hlen⟩]
          show slice (List.take len _) _ _ = List.drop 0 (slice _ _ _)
          rw [List.drop_zero, slice, slice, List.drop_take, List.take_take,
            Nat.min_eq_left (Nat.sub_le_sub_right hend dataStart)]
        · have hnone : extractPacket fed room = none :=
            extractPacket_of_not_ready (fun hready => hbounds hready.1) room
          rw [hnone] at hextract
          cases hextract

theorem receive_left {frame : Bytes} {next : DatalinkReader σ ρ} (hS : KeepsLength S)
    (hroom : r.frameReader.buf.length ≤ room) (hp : p ≠ [])
    (h : receive (ε := ε) R S r frame room = (.ok p, next)) :
    Yields R S r.security frame (p ++ next.left) next.security ∧
      next.codingReader = r.codingReader ∧
      next.frameReader.buf.length = r.frameReader.buf.length := by
  rw [receive] at h
  split at h
  · cases h
    exact absurd rfl hp
  · split at h
    · cases h
    · rename_i hfits
      have hfits := Nat.le_of_not_lt hfits
      dsimp only at h
      rw [take_write hfits] at h
      have hkeeps := hS r.security frame
      cases hprocess : S.process r.security frame with
      | mk result rest =>
        obtain ⟨opened, security⟩ := rest
        rw [hprocess] at h hkeeps
        have hkeeps : opened.length = frame.length := hkeeps
        cases result with
        | error fault => cases h
        | ok n =>
          dsimp only at h
          have hbuf : (Memory.write (Memory.write r.frameReader.buf 0 frame) 0 opened).length =
              r.frameReader.buf.length := (write_length ..).trans (write_length ..)
          have htake : (Memory.write (Memory.write r.frameReader.buf 0 frame) 0 opened).take
              frame.length = opened := by
            rw [← hkeeps]
            exact take_write (by rw [write_length, hkeeps]; exact hfits)
          obtain ⟨dataStart, dataEnd, hlayout, hle, hslice, hsecurity, hcoding, hlen⟩ :=
            accept_left (by rw [hbuf]; exact hfits) (by rw [hbuf]; exact hroom) hp h
          dsimp only at hlayout hslice hsecurity hcoding hlen
          rw [htake] at hlayout hslice
          refine ⟨⟨n, opened, dataStart, dataEnd, ?_, hlayout, hle, hslice⟩, hcoding,
            hlen.trans hbuf⟩
          rw [hsecurity]
          exact hprocess

section Reads

variable {r next : DatalinkReader σ (List Bytes)} {rooms : List Nat} {packets : List Bytes}

theorem read_left (hS : KeepsLength S) (hroom : r.frameReader.buf.length ≤ room) (hp : p ≠ [])
    (hfits : ∀ frame ∈ r.codingReader, frame.length ≤ r.frameReader.buf.length)
    (h : read R S passRead r room = (.ok p, next)) :
    next.frameReader.buf.length = r.frameReader.buf.length ∧
      ((r.left = p ++ next.left ∧ next.security = r.security ∧
          next.codingReader = r.codingReader) ∨
        ∃ frame, r.codingReader = frame :: next.codingReader ∧
          Yields R S r.security frame (p ++ next.left) next.security) := by
  rw [read] at h
  cases hextract : extractPacket r room with
  | none =>
    rw [hextract] at h
    cases h
  | some taken =>
    rw [hextract] at h
    obtain ⟨packet, rest⟩ := taken
    cases packet with
    | some packet =>
      cases h
      obtain ⟨hleft, hreader, hsecurity, hcoding⟩ := extract_left hroom hextract
      exact ⟨by rw [hreader], Or.inl ⟨hleft, hsecurity, hcoding⟩⟩
    | none =>
      rw [extract_none hextract] at h
      obtain ⟨frameReader, security, coding, pos⟩ := r
      cases coding with
      | nil =>
        dsimp only [passRead] at h
        rw [List.headD_nil, List.take_nil, receive, if_pos List.length_nil] at h
        cases h
        exact absurd rfl hp
      | cons frame frames =>
        dsimp only [passRead] at h
        rw [List.headD_cons, List.take_of_length_le (hfits frame List.mem_cons_self)] at h
        obtain ⟨hyields, hcoding, hlen⟩ :=
          receive_left (r := ⟨frameReader, security, frames, pos⟩) hS hroom hp h
        have hcoding : next.codingReader = frames := hcoding
        exact ⟨hlen, Or.inr ⟨frame, by rw [hcoding], hyields⟩⟩

/-- The octets behind the place where a data field begins. -/
def share (F : WriterFormat) (frame : Bytes) : Nat := frame.length - F.dataOffset

/-- No data field begins before the writer's. -/
def StartsAfter (F : WriterFormat) (R : ReaderFormat) : Prop :=
  ∀ frame dataStart dataEnd, R.layout frame = .ok (dataStart, dataEnd) →
    F.dataOffset ≤ dataStart

theorem Yields.length_le {s s' : σ} {frame data : Bytes} (hS : KeepsLength S)
    (hR : StartsAfter F R) (h : Yields R S s frame data s') : data.length ≤ share F frame := by
  obtain ⟨n, opened, dataStart, dataEnd, hprocess, hlayout, -, hslice⟩ := h
  have hkeeps := hS s frame
  rw [hprocess] at hkeeps
  have hkeeps : opened.length = frame.length := hkeeps
  have hstart := hR opened dataStart dataEnd hlayout
  have hend := R.layout_le hlayout
  rw [← hslice, slice, List.length_take, List.length_drop, share]
  omega

/-- The processor accepts the frames one after the other, and each data field is what lies
behind the header. -/
inductive Accepts (F : WriterFormat) (R : ReaderFormat) (S : SecurityProcessor σ ε') :
    σ → List Bytes → List Bytes → Prop
  | nil (s : σ) : Accepts F R S s [] []
  | cons {s next : σ} {frame opened : Bytes} {n : Nat} {frames datas : List Bytes}
      (process : S.process s frame = (.ok n, opened, next))
      (length : opened.length = frame.length)
      (layout : R.layout opened = .ok (F.dataOffset, opened.length))
      (rest : Accepts F R S next frames datas) :
      Accepts F R S s (frame :: frames) (opened.drop F.dataOffset :: datas)

theorem Yields.whole {s s' : σ} {frame data : Bytes} (hS : KeepsLength S)
    (hR : StartsAfter F R) (h : Yields R S s frame data s') (hpos : 0 < share F frame)
    (hwhole : share F frame ≤ data.length) :
    ∃ n opened, S.process s frame = (.ok n, opened, s') ∧ opened.length = frame.length ∧
      R.layout opened = .ok (F.dataOffset, opened.length) ∧ opened.drop F.dataOffset = data := by
  obtain ⟨n, opened, dataStart, dataEnd, hprocess, hlayout, -, hslice⟩ := h
  have hkeeps := hS s frame
  rw [hprocess] at hkeeps
  have hkeeps : opened.length = frame.length := hkeeps
  have hstart := hR opened dataStart dataEnd hlayout
  have hend := R.layout_le hlayout
  rw [share] at hpos hwhole
  rw [← hslice, slice, List.length_take, List.length_drop] at hwhole
  have hstart : dataStart = F.dataOffset := by omega
  have hend : dataEnd = opened.length := by omega
  rw [hstart, hend] at hlayout hslice
  refine ⟨n, opened, hprocess, hkeeps, hlayout, ?_⟩
  rw [← hslice, slice, List.take_of_length_le (Nat.le_of_eq (List.length_drop ..))]

/-- Packets never come out in more octets than there are, and only from frames whose whole data
field was read when they come out in as many. -/
theorem reads_left (hS : KeepsLength S) (hR : StartsAfter F R)
    (hrooms : ∀ room ∈ rooms, r.frameReader.buf.length ≤ room)
    (hfits : ∀ frame ∈ r.codingReader, frame.length ≤ r.frameReader.buf.length)
    (hpos : ∀ frame ∈ r.codingReader, 0 < share F frame)
    (hpackets : ∀ p ∈ packets, p ≠ []) (h : reads R S passRead rooms r = packets.map .ok) :
    packets.flatten.length ≤ r.left.length + Packing.load (share F) r.codingReader ∧
      (r.left.length + Packing.load (share F) r.codingReader ≤ packets.flatten.length →
        ∃ datas, r.left ++ datas.flatten = packets.flatten ∧
          Accepts F R S r.security r.codingReader datas) := by
  induction packets generalizing r rooms with
  | nil =>
    refine ⟨Nat.zero_le _, fun hle => ?_⟩
    rw [List.flatten_nil, List.length_nil] at hle
    have hleft : r.left = [] := List.length_eq_zero_iff.1 (by omega)
    cases hcoding : r.codingReader with
    | nil => exact ⟨[], by rw [hleft]; rfl, .nil _⟩
    | cons frame frames =>
      have hframe := hpos frame (by rw [hcoding]; exact List.mem_cons_self)
      rw [hcoding, Packing.load_cons] at hle
      omega
  | cons p packets ih =>
    cases rooms with
    | nil => cases h
    | cons room rooms =>
      rw [reads, List.map_cons, List.cons.injEq] at h
      obtain ⟨hfirst, hrest⟩ := h
      have hread : read R S passRead r room = (.ok p, (read R S passRead r room).2) :=
        Prod.ext hfirst rfl
      obtain ⟨hlen, hcases⟩ := read_left hS (hrooms room List.mem_cons_self)
        (hpackets p List.mem_cons_self) hfits hread
      have hpackets := fun q hq => hpackets q (List.mem_cons_of_mem p hq)
      have hrooms : ∀ room' ∈ rooms,
          (read R S passRead r room).2.frameReader.buf.length ≤ room' := by
        intro room' hroom'
        rw [hlen]
        exact hrooms room' (List.mem_cons_of_mem room hroom')
      rcases hcases with hsame | hframe
      · -- The packet comes from the current data field.
        obtain ⟨hleft, hsecurity, hcoding⟩ := hsame
        have hlater := ih hrooms (by rw [hcoding, hlen]; exact hfits) (by rw [hcoding]; exact hpos)
          hpackets hrest
        rw [hcoding, hsecurity] at hlater
        rw [hleft, List.flatten_cons, List.length_append, List.length_append]
        refine ⟨by omega, fun hle => ?_⟩
        obtain ⟨datas, hdatas, haccepts⟩ := hlater.2 (by omega)
        exact ⟨datas, by rw [List.append_assoc, hdatas], haccepts⟩
      · -- The packet is the first of the next frame, and what was left is lost.
        obtain ⟨frame, hcoding, hyields⟩ := hframe
        have hlater := ih hrooms
          (fun f hf => by
            rw [hlen]
            exact hfits f (by rw [hcoding]; exact List.mem_cons_of_mem _ hf))
          (fun f hf => hpos f (by rw [hcoding]; exact List.mem_cons_of_mem _ hf)) hpackets hrest
        have hdata := hyields.length_le hS hR
        have hshare := hpos frame (by rw [hcoding]; exact List.mem_cons_self)
        rw [List.length_append] at hdata
        rw [hcoding, Packing.load_cons, List.flatten_cons, List.length_append]
        refine ⟨by omega, fun hle => ?_⟩
        have hleft : r.left = [] := List.length_eq_zero_iff.1 (by omega)
        obtain ⟨datas, hdatas, haccepts⟩ := hlater.2 (by omega)
        obtain ⟨n, opened, hprocess, hopened, hlayout, hdrop⟩ :=
          hyields.whole hS hR hshare (by rw [List.length_append]; omega)
        refine ⟨_, ?_, .cons hprocess hopened hlayout haccepts⟩
        rw [hleft, List.nil_append, List.flatten_cons, hdrop, List.append_assoc, hdatas]

structure Sized (F : WriterFormat) (frame : Bytes) (batch : List Bytes) : Prop where
  length : frame.length = F.dataOffset + size batch
  pos : 0 < size batch
  fits : size batch ≤ F.maxDataLen

theorem Sized.share {frame : Bytes} {batch : List Bytes} (h : Sized F frame batch) :
    share F frame = size batch := by
  rw [DatalinkReader.share, h.length, Nat.add_sub_cancel_left]

theorem load_share {frames : List Bytes} {batches : List (List Bytes)}
    (h : List.Forall₂ (Sized F) frames batches) :
    Packing.load (share F) frames = batches.flatten.flatten.length := by
  induction h with
  | nil => rfl
  | @cons frame batch _ _ hframe _ ih =>
    rw [Packing.load_cons, ih, hframe.share, List.flatten_cons, List.flatten_append,
      List.length_append, length_flatten batch]

theorem sized_of_mem {frame : Bytes} {frames : List Bytes} {batches : List (List Bytes)}
    (h : List.Forall₂ (Sized F) frames batches) (hmem : frame ∈ frames) :
    ∃ batch, Sized F frame batch := by
  induction h with
  | nil => cases hmem
  | @cons first batch _ _ hframe _ ih =>
    rcases List.mem_cons.1 hmem with heq | hrest
    · exact ⟨batch, heq ▸ hframe⟩
    · exact ih hrest

theorem Accepts.lengths {s : σ} {frames datas : List Bytes} {batches : List (List Bytes)}
    (h : Accepts F R S s frames datas) (hsizes : List.Forall₂ (Sized F) frames batches) :
    datas.map List.length = (batches.map List.flatten).map List.length := by
  induction h generalizing batches with
  | nil s =>
    cases hsizes
    rfl
  | cons _ hlength _ _ ih =>
    cases hsizes with
    | cons hframe hrest =>
      rw [List.map_cons, List.map_cons, List.map_cons, ih hrest, length_flatten,
        List.length_drop, hlength, ← hframe.share]
      rfl

theorem Accepts.opens {s : σ} {frames datas : List Bytes} {batches : List (List Bytes)}
    (h : Accepts F R S s frames datas) (htrailer : F.trailerLen = 0)
    (hsizes : List.Forall₂ (Sized F) frames batches) (hdatas : datas = batches.map List.flatten) :
    Opens F R S s frames batches := by
  induction h generalizing batches with
  | nil s =>
    cases hsizes
    exact .nil s
  | @cons _ _ frame opened _ _ _ hprocess hlength hlayout _ ih =>
    cases hsizes with
    | @cons _ batch _ batches hframe hrest =>
      rw [List.map_cons, List.cons.injEq] at hdatas
      have hopened : opened.length = F.dataOffset + size batch := hlength.trans hframe.length
      refine .cons hprocess hlength ⟨?_, ?_, ?_, hframe.pos, hframe.fits⟩ (ih hrest hdatas.2)
      · rw [hopened, htrailer, Nat.add_zero]
      · rw [hlayout, hopened]
      · rw [slice, List.take_of_length_le (by rw [List.length_drop, hopened]; omega)]
        exact hdatas.1

theorem reads_iff {s : σ} {frames : List Bytes} {batches : List (List Bytes)} {bufLen : Nat}
    (hS : KeepsLength S) (hR : StartsAfter F R) (htrailer : F.trailerLen = 0)
    (hbuf : F.dataOffset + F.maxDataLen + F.trailerLen ≤ bufLen)
    (hsizes : List.Forall₂ (Sized F) frames batches)
    (hvalid : ∀ p ∈ batches.flatten, SpacePacket.Valid p ∧ p.length ≤ F.maxDataLen) :
    (∀ rooms : List Nat, (∀ p ∈ batches.flatten, ∀ room ∈ rooms, p.length ≤ room) →
      reads R S passRead rooms (new (FrameReader.new bufLen) frames s) =
        ((batches.flatten ++ List.replicate rooms.length []).take rooms.length).map .ok) ↔
      Opens F R S s frames batches := by
  constructor
  · intro h
    let reader : DatalinkReader σ (List Bytes) := new (FrameReader.new bufLen) frames s
    have hlen : reader.frameReader.buf.length = bufLen := List.length_replicate
    have hleft : reader.left = [] := by
      have hdata : reader.frameReader.dataField = some [] :=
        if_pos ⟨Nat.le_refl 0, Nat.zero_le _⟩
      rw [left, hdata]
      rfl
    have hreads := h (List.replicate batches.flatten.length bufLen) fun p hp room hroom => by
      have hp := (hvalid p hp).2
      rw [List.eq_of_mem_replicate hroom]
      omega
    rw [List.length_replicate, List.take_left] at hreads
    have hframe : ∀ frame ∈ frames, frame.length ≤ bufLen ∧ 0 < share F frame := by
      intro frame hframe
      obtain ⟨batch, hsized⟩ := sized_of_mem hsizes hframe
      have hlength := hsized.length
      have hpos := hsized.pos
      have hmax := hsized.fits
      rw [hsized.share]
      omega
    obtain ⟨-, hall⟩ := reads_left (r := reader) hS hR
      (fun room hroom => Nat.le_of_eq (hlen.trans (List.eq_of_mem_replicate hroom).symm))
      (fun frame hmem => by rw [hlen]; exact (hframe frame hmem).1)
      (fun frame hmem => (hframe frame hmem).2)
      (fun p hp hnil => by
        have hpos := (hvalid p hp).1.pos
        rw [hnil] at hpos
        exact Nat.lt_irrefl 0 hpos) hreads
    obtain ⟨datas, hdatas, haccepts⟩ := hall (by
      rw [hleft, List.length_nil, Nat.zero_add]
      exact Nat.le_of_eq (load_share hsizes))
    refine haccepts.opens htrailer hsizes (List.eq_iff_flatten_eq.2 ⟨?_, haccepts.lengths hsizes⟩)
    rw [hleft, List.nil_append] at hdatas
    rw [hdatas, List.flatten_flatten]
  · intro h rooms hrooms
    have hoffers := offers_new bufLen h
    rw [hoffers.reads hbuf (fun p hp => ⟨(hvalid p hp).1, hrooms p hp⟩)]
    rfl

end Reads

end DatalinkReader
end Datalink
end Leodos
