/-
Packets taken out of received frames.

What is left of the current frame is a window on its data field.  A read takes the next packet
of the window, and goes on to the next frame when the window is used up.
-/
import Leodos.Datalink.Accumulation

namespace Leodos
namespace Datalink

open Memory Spp

namespace DatalinkReader

variable {F : WriterFormat} {R : ReaderFormat} {σ ρ ε ε' : Type} {r : DatalinkReader σ ρ}
  {S : SecurityProcessor σ ε'} {C : CodingRead ρ ε} {p : Bytes} {rest : List Bytes} {room : Nat}

/-- The packets that are left of the current frame. -/
def Window (r : DatalinkReader σ ρ) (rest : List Bytes) : Prop :=
  ∃ data, r.frameReader.dataField = some data ∧ data.drop r.pos = rest.flatten

theorem Window.extract_nil (h : r.Window []) : extractPacket r room = some (none, r) := by
  obtain ⟨data, hdata, hdrop⟩ := h
  have hlen : data.length ≤ r.pos := List.drop_eq_nil_iff.1 hdrop
  rw [extractPacket, hdata]
  dsimp only
  rw [if_pos hlen]

theorem Window.extract_cons (h : r.Window (p :: rest)) (hp : SpacePacket.Valid p)
    (hroom : p.length ≤ room) :
    ∃ next, extractPacket r room = some (some p, next) ∧ next.Window rest ∧
      next.frameReader = r.frameReader ∧ next.security = r.security ∧
      next.codingReader = r.codingReader := by
  obtain ⟨data, hdata, hdrop⟩ := h
  rw [List.flatten_cons] at hdrop
  obtain ⟨pkt, hparse, hlen⟩ := hp.parse_append rest.flatten
  have hpos : ¬ data.length ≤ r.pos := by
    intro hle
    rw [List.drop_eq_nil_iff.2 hle] at hdrop
    have hzero := congrArg List.length hdrop
    rw [List.length_append, List.length_nil] at hzero
    have := hp.pos
    omega
  refine ⟨{ r with pos := r.pos + p.length }, ?_, ⟨data, hdata, ?_⟩, rfl, rfl, rfl⟩
  · rw [extractPacket, hdata]
    dsimp only
    rw [if_neg hpos, hdrop, hparse]
    dsimp only
    rw [hlen, Nat.min_eq_left hroom, List.take_left]
  · show data.drop (r.pos + p.length) = rest.flatten
    rw [← List.drop_drop, hdrop, List.drop_left]

theorem accept_batch {len : Nat} (hlen : len ≤ r.frameReader.buf.length)
    (hframe : Carries F R (r.frameReader.buf.take len) (p :: rest)) (hp : SpacePacket.Valid p)
    (hroom : p.length ≤ room) :
    ∃ next, accept (ε := ε) R r len room = (.ok p, next) ∧ next.Window rest ∧
      next.frameReader.buf = r.frameReader.buf ∧ next.security = r.security ∧
      next.codingReader = r.codingReader := by
  have hend : F.dataOffset + size (p :: rest) ≤ len := by
    have htake := hframe.length
    rw [List.length_take, Nat.min_eq_left hlen] at htake
    omega
  have hdata : slice r.frameReader.buf F.dataOffset (size (p :: rest)) = (p :: rest).flatten := by
    rw [← hframe.data, slice, slice, List.drop_take, List.take_take, Nat.min_eq_left (by omega)]
  let fed : FrameReader :=
    { r.frameReader with
      dataStart := F.dataOffset
      dataEnd := F.dataOffset + size (p :: rest) }
  have hfeed : r.frameReader.feed R len = (.ok (), fed) := by
    rw [FrameReader.feed, if_neg (Nat.not_lt.2 hlen), hframe.layout]
  have hwindow : Window (⟨fed, r.security, r.codingReader, 0⟩ : DatalinkReader σ ρ)
      (p :: rest) := by
    refine ⟨(p :: rest).flatten, ?_, rfl⟩
    show fed.dataField = _
    rw [FrameReader.dataField, if_pos ⟨Nat.le_add_right .., Nat.le_trans hend hlen⟩]
    show some (slice _ _ (_ - _)) = _
    rw [Nat.add_sub_cancel_left, hdata]
  obtain ⟨next, hextract, hnext, hreader, hsecurity, hcoding⟩ := hwindow.extract_cons hp hroom
  refine ⟨next, ?_, hnext, by rw [hreader], hsecurity, hcoding⟩
  rw [accept, hfeed]
  dsimp only
  rw [hextract]

theorem take_pad_succ (items : List Bytes) (n : Nat) :
    (items ++ List.replicate (n + 1) []).take (n + 1) =
      items.headD [] :: (items.tail ++ List.replicate n []).take n := by
  cases items with
  | nil =>
    show List.take (n + 1) (List.replicate (n + 1) []) = [] :: List.take n (List.replicate n [])
    rw [List.take_replicate, List.take_replicate, Nat.min_self, Nat.min_self,
      List.replicate_succ]
  | cons item items =>
    show List.take (n + 1) (item :: (items ++ List.replicate (n + 1) [])) =
      item :: List.take n (items ++ List.replicate n [])
    rw [List.take_succ_cons, List.take_append, List.take_append, List.take_replicate,
      List.take_replicate, Nat.min_eq_left (by omega), Nat.min_eq_left (by omega)]

/-- The results of consecutive reads, each with a buffer of its own size. -/
def reads (R : ReaderFormat) (S : SecurityProcessor σ ε') (C : CodingRead ρ ε) :
    List Nat → DatalinkReader σ ρ → List (Except (Fault (DatalinkError ε)) Bytes)
  | [], _ => []
  | room :: rooms, r => (read R S C r room).1 :: reads R S C rooms (read R S C r room).2

/-- The security processor accepts the frames one after the other and leaves the batches in
them. -/
inductive Opens (F : WriterFormat) (R : ReaderFormat) (S : SecurityProcessor σ ε') :
    σ → List Bytes → List (List Bytes) → Prop
  | nil (s : σ) : Opens F R S s [] []
  | cons {s next : σ} {frame opened : Bytes} {n : Nat} {frames : List Bytes}
      {batch : List Bytes} {batches : List (List Bytes)}
      (process : S.process s frame = (.ok n, opened, next))
      (length : opened.length = frame.length) (carries : Carries F R opened batch)
      (rest : Opens F R S next frames batches) :
      Opens F R S s (frame :: frames) (batch :: batches)

theorem opens_plain {frames : List Bytes} {batches : List (List Bytes)}
    (h : List.Forall₂ (Carries F R) frames batches) :
    Opens F R (NoSecurity : SecurityProcessor Unit Empty) () frames batches := by
  induction h with
  | nil => exact .nil ()
  | cons hframe _ ih => exact .cons rfl rfl hframe ih

/-- The reader has the packets of the current frame and frames to come. -/
structure Offers (F : WriterFormat) (R : ReaderFormat) (S : SecurityProcessor σ ε') (bufLen : Nat)
    (r : DatalinkReader σ (List Bytes)) (rest : List Bytes) (pending : List (List Bytes)) :
    Prop where
  buf : r.frameReader.buf.length = bufLen
  window : r.Window rest
  frames : Opens F R S r.security r.codingReader pending

theorem offers_new {frames : List Bytes} {batches : List (List Bytes)} {security : σ}
    (bufLen : Nat) (h : Opens F R S security frames batches) :
    Offers F R S bufLen (new (FrameReader.new bufLen) frames security) [] batches where
  buf := List.length_replicate
  window := ⟨[], if_pos ⟨Nat.le_refl 0, Nat.zero_le _⟩, rfl⟩
  frames := h

theorem receive_batch {frame opened : Bytes} {n : Nat} {security : σ}
    (hfits : frame.length ≤ r.frameReader.buf.length)
    (hprocess : S.process r.security frame = (.ok n, opened, security))
    (hlength : opened.length = frame.length) (hframe : Carries F R opened (p :: rest))
    (hp : SpacePacket.Valid p) (hroom : p.length ≤ room) :
    ∃ next, receive (ε := ε) R S r frame room = (.ok p, next) ∧
      next.Window rest ∧ next.frameReader.buf.length = r.frameReader.buf.length ∧
      next.security = security ∧ next.codingReader = r.codingReader := by
  have hpos : frame.length ≠ 0 := by
    have hlen := hframe.length
    have hsize := hframe.pos
    omega
  have htake : (Memory.write r.frameReader.buf 0 frame).take frame.length = frame :=
    take_write hfits
  have hwrite : opened.length ≤ (Memory.write r.frameReader.buf 0 frame).length := by
    rw [write_length, hlength]
    exact hfits
  have hagain : (Memory.write (Memory.write r.frameReader.buf 0 frame) 0 opened).take
      frame.length = opened := by
    rw [← hlength, take_write hwrite]
  let taken : DatalinkReader σ ρ :=
    { r with
      frameReader :=
        { r.frameReader with
          buf := Memory.write (Memory.write r.frameReader.buf 0 frame) 0 opened }
      security := security }
  have hcarries : Carries F R (taken.frameReader.buf.take frame.length) (p :: rest) := by
    show Carries F R (List.take _ (Memory.write _ _ _)) _
    rw [hagain]
    exact hframe
  have hlen : frame.length ≤ taken.frameReader.buf.length := by
    show _ ≤ (Memory.write _ _ _).length
    rw [write_length, ← hlength]
    exact hwrite
  obtain ⟨next, haccept, hwindow, hbuf, hsecurity, hcoding⟩ :=
    accept_batch hlen hcarries hp hroom
  refine ⟨next, ?_, hwindow, ?_, hsecurity, hcoding⟩
  · rw [receive, if_neg hpos, if_neg (Nat.not_lt.2 hfits)]
    dsimp only
    rw [htake, hprocess]
    exact haccept
  · rw [hbuf]
    exact (write_length ..).trans (write_length ..)

section Reads

variable {bufLen : Nat} {r : DatalinkReader σ (List Bytes)} {pending : List (List Bytes)}

theorem Offers.read (h : Offers F R S bufLen r rest pending)
    (hbuf : F.dataOffset + F.maxDataLen + F.trailerLen ≤ bufLen)
    (hvalid : ∀ p ∈ rest ++ pending.flatten, SpacePacket.Valid p ∧ p.length ≤ room) :
    ∃ next rest' pending',
      read R S passRead r room = (.ok ((rest ++ pending.flatten).headD []), next) ∧
      rest' ++ pending'.flatten = (rest ++ pending.flatten).tail ∧
      Offers F R S bufLen next rest' pending' := by
  cases rest with
  | cons p rest =>
    obtain ⟨hp, hroom⟩ := hvalid p List.mem_cons_self
    obtain ⟨next, hextract, hwindow, hreader, hsecurity, hcoding⟩ :=
      h.window.extract_cons hp hroom
    refine ⟨next, rest, pending, ?_, rfl, by rw [hreader]; exact h.buf, hwindow, ?_⟩
    · rw [DatalinkReader.read, hextract]
      rfl
    · rw [hsecurity, hcoding]
      exact h.frames
  | nil =>
    have hnone : extractPacket r room = some (none, r) := h.window.extract_nil
    obtain ⟨frameReader, security, coding, pos⟩ := r
    have hframes : Opens F R S security coding pending := h.frames
    cases hframes with
    | nil =>
      refine ⟨_, [], [], ?_, rfl, h.buf, h.window, .nil security⟩
      rw [DatalinkReader.read, hnone]
      dsimp only [passRead]
      rw [List.headD_nil, List.take_nil, receive, if_pos List.length_nil]
      rfl
    | cons hprocess hlength hframe hrest =>
      rename_i next frame opened n frames batch pending
      have hfits : frame.length ≤ frameReader.buf.length := by
        have hlen := hframe.length
        have hmax := hframe.fits
        have hsize : frameReader.buf.length = bufLen := h.buf
        omega
      cases batch with
      | nil => exact absurd hframe.pos (Nat.lt_irrefl 0)
      | cons p rest =>
        obtain ⟨hp, hroom⟩ := hvalid p List.mem_cons_self
        obtain ⟨next, hreceive, hwindow, hlen, hsecurity, hcoding⟩ :=
          receive_batch (r := ⟨frameReader, security, frames, pos⟩) hfits hprocess hlength hframe
            hp hroom
        refine ⟨next, rest, pending, ?_, rfl, hlen.trans h.buf, hwindow, ?_⟩
        · rw [DatalinkReader.read, hnone]
          dsimp only [passRead]
          rw [List.headD_cons, List.take_of_length_le hfits]
          exact hreceive
        · rw [hsecurity, hcoding]
          exact hrest

theorem Offers.reads {rooms : List Nat} (h : Offers F R S bufLen r rest pending)
    (hbuf : F.dataOffset + F.maxDataLen + F.trailerLen ≤ bufLen)
    (hvalid : ∀ p ∈ rest ++ pending.flatten, SpacePacket.Valid p ∧ ∀ room ∈ rooms,
      p.length ≤ room) :
    reads R S passRead rooms r =
      ((rest ++ pending.flatten ++ List.replicate rooms.length []).take rooms.length).map .ok := by
  induction rooms generalizing r rest pending with
  | nil => rfl
  | cons room rooms ih =>
    obtain ⟨next, rest', pending', hread, htail, hnext⟩ := h.read hbuf
      (fun p hp => ⟨(hvalid p hp).1, (hvalid p hp).2 room List.mem_cons_self⟩)
    have hlater : ∀ p ∈ rest' ++ pending'.flatten, SpacePacket.Valid p ∧ ∀ room ∈ rooms,
        p.length ≤ room := by
      intro p hp
      rw [htail] at hp
      have hall := hvalid p (List.mem_of_mem_tail hp)
      exact ⟨hall.1, fun room' hroom => hall.2 room' (List.mem_cons_of_mem room hroom)⟩
    rw [DatalinkReader.reads, hread, ih hnext hlater, htail]
    show Except.ok _ :: _ = _
    rw [List.length_cons, take_pad_succ, List.map_cons]

end Reads

end DatalinkReader

end Datalink
end Leodos
