/-
Segmentation of data over Space Packets, `datalink/spp/segmentation`.

The segmenter cuts data into segments, the first of them marked First and the one that
reaches the end of the data Last; the reassembler collects packets from a First one to a
Last one.  The only segment of short data is a First one, so the reassembler never
completes it; and a reassembler that completed takes no First packet before it is reset.
-/
import Leodos.Memory.Cells
import Leodos.Spp.SpacePacket
import Mathlib.Data.List.Forall2

namespace Leodos
namespace Spp

open Memory

/-! ## The segmenter -/

structure SegmentedPacketData where
  sequenceFlag : SequenceFlag
  sequenceCount : SequenceCount
  payload : Bytes
  deriving DecidableEq, Repr

/-- Counts that go up by one from `count`, around the 14 bits of the field. -/
def CountedFrom (count : SequenceCount) (items : List SegmentedPacketData) : Prop :=
  ∀ k i, items[k]? = some i → i.sequenceCount = count + BitVec.ofNat 14 k

structure Segmenter where
  data : Bytes
  segmentSize : Nat
  sequenceCount : SequenceCount
  position : Nat
  isFirst : Bool
  deriving DecidableEq, Repr

namespace Segmenter

def new (data : Bytes) (segmentSize : Nat) (startCount : SequenceCount) : Segmenter :=
  ⟨data, segmentSize, startCount, 0, true⟩

def flag (s : Segmenter) : SequenceFlag :=
  if s.isFirst then .first
  else if s.data.length ≤ s.position + s.segmentSize then .last
  else .continuation

def stop (s : Segmenter) : Nat := min (s.position + s.segmentSize) s.data.length

def next (s : Segmenter) : Option (SegmentedPacketData × Segmenter) :=
  if s.data.length ≤ s.position then none
  else
    some (⟨s.flag, s.sequenceCount, slice s.data s.position (s.stop - s.position)⟩,
      { s with position := s.stop, sequenceCount := s.sequenceCount + 1, isFirst := false })

/-- The iterator yields these items and ends. -/
inductive Yields : Segmenter → List SegmentedPacketData → Prop where
  | done {s : Segmenter} : s.next = none → Yields s []
  | item {s s' : Segmenter} {i : SegmentedPacketData} {is : List SegmentedPacketData} :
      s.next = some (i, s') → Yields s' is → Yields s (i :: is)

/-- The items are the rest of the data cut into pieces, with consecutive counts. -/
structure Cuts (s : Segmenter) (items : List SegmentedPacketData) : Prop where
  yields : s.Yields items
  filled : ∀ i ∈ items, i.payload ≠ []
  whole : items.flatMap SegmentedPacketData.payload = s.data.drop s.position
  counts : CountedFrom s.sequenceCount items

theorem Cuts.nil {s : Segmenter} (h : s.data.length ≤ s.position) : s.Cuts [] where
  yields := .done (if_pos h)
  filled := fun _ hi => (List.not_mem_nil hi).elim
  whole := (List.drop_eq_nil_of_le h).symm
  counts := fun _ _ hi => by cases hi

def advance (s : Segmenter) : Segmenter :=
  { s with position := s.stop, sequenceCount := s.sequenceCount + 1, isFirst := false }

def segment (s : Segmenter) : SegmentedPacketData :=
  ⟨s.flag, s.sequenceCount, slice s.data s.position (s.stop - s.position)⟩

theorem next_eq {s : Segmenter} (h : s.position < s.data.length) :
    s.next = some (s.segment, s.advance) := if_neg (Nat.not_le.2 h)

theorem Cuts.cons {s : Segmenter} (h : s.position < s.data.length) (hsize : 1 ≤ s.segmentSize)
    {items : List SegmentedPacketData} (hrest : s.advance.Cuts items) :
    s.Cuts (s.segment :: items) where
  yields := .item (next_eq h) hrest.yields
  filled := by
    intro i hi
    obtain rfl | hin := List.mem_cons.1 hi
    · intro hnil
      have hlen : (slice s.data s.position (s.stop - s.position)).length = s.stop - s.position :=
        slice_length (by unfold stop; omega)
      replace hnil : slice s.data s.position (s.stop - s.position) = [] := hnil
      rw [hnil, List.length_nil, stop] at hlen
      omega
    · exact hrest.filled i hin
  whole := by
    have hstop : s.position ≤ s.stop := by
      unfold stop
      omega
    have hsplit : s.data.drop s.position = slice s.data s.position (s.stop - s.position) ++
        s.data.drop s.stop := by
      have hdrop : s.data.drop s.stop = (s.data.drop s.position).drop (s.stop - s.position) := by
        rw [List.drop_drop, Nat.add_sub_cancel' hstop]
      rw [hdrop]
      exact (List.take_append_drop _ _).symm
    rw [List.flatMap_cons, hrest.whole, hsplit]
    rfl
  counts := by
    intro k i hi
    cases k with
    | zero =>
      cases hi
      exact (BitVec.add_zero _).symm
    | succ k =>
      have hcount : i.sequenceCount = s.sequenceCount + 1 + BitVec.ofNat 14 k :=
        hrest.counts k i hi
      rw [hcount]
      bv_omega

theorem cuts_behind {s : Segmenter} (h : s.position < s.data.length) (hsize : 1 ≤ s.segmentSize)
    (hfirst : s.isFirst = false) : ∃ init last, s.Cuts (init ++ [last]) ∧
      (∀ i ∈ init, i.sequenceFlag = .continuation) ∧ last.sequenceFlag = .last := by
  obtain ⟨n, hn⟩ : ∃ n, s.data.length - s.position = n := ⟨_, rfl⟩
  induction n using Nat.strongRecOn generalizing s with
  | ind n ih =>
    by_cases hend : s.data.length ≤ s.position + s.segmentSize
    · refine ⟨[], s.segment, Cuts.cons h hsize (.nil ?_),
        fun _ hi => (List.not_mem_nil hi).elim, ?_⟩
      · show s.data.length ≤ s.stop
        exact Nat.le_min.2 ⟨hend, Nat.le_refl _⟩
      · show s.flag = .last
        rw [flag, hfirst, if_neg Bool.false_ne_true, if_pos hend]
    · have hstop : s.stop = s.position + s.segmentSize := Nat.min_eq_left (by omega)
      have hadvance : s.advance.position < s.advance.data.length := by
        show s.stop < s.data.length
        omega
      obtain ⟨init, last, hcuts, hinit, hlast⟩ := ih (s.data.length - s.stop) (by omega) hadvance
        hsize rfl rfl
      refine ⟨s.segment :: init, last, Cuts.cons h hsize hcuts, ?_, hlast⟩
      intro i hi
      obtain rfl | hin := List.mem_cons.1 hi
      · show s.flag = .continuation
        rw [flag, hfirst, if_neg Bool.false_ne_true, if_neg hend]
      · exact hinit i hin

/-- The items of a whole message: one that is marked First, and unless it holds all the
data items marked Continuation and one marked Last. -/
theorem cuts_new {data : Bytes} {segmentSize : Nat} (hdata : data ≠ []) (hsize : 1 ≤ segmentSize)
    (startCount : SequenceCount) :
    ∃ first rest, (new data segmentSize startCount).Cuts (first :: rest) ∧
      first.sequenceFlag = .first ∧
      (data.length ≤ segmentSize ∧ rest = [] ∨
        segmentSize < data.length ∧ ∃ init last, rest = init ++ [last] ∧
          (∀ i ∈ init, i.sequenceFlag = .continuation) ∧ last.sequenceFlag = .last) := by
  have hpos : (new data segmentSize startCount).position <
      (new data segmentSize startCount).data.length := List.length_pos_iff.2 hdata
  have hstop : (new data segmentSize startCount).stop = min segmentSize data.length := by
    show min (0 + segmentSize) data.length = _
    rw [Nat.zero_add]
  obtain hle | hlt := Nat.lt_or_ge segmentSize data.length
  · have hadvance : (new data segmentSize startCount).advance.position <
        (new data segmentSize startCount).advance.data.length := by
      show (new data segmentSize startCount).stop < data.length
      omega
    obtain ⟨init, last, hcuts, hinit, hlast⟩ := cuts_behind hadvance hsize rfl
    exact ⟨_, _, Cuts.cons hpos hsize hcuts, rfl, Or.inr ⟨hle, init, last, rfl, hinit, hlast⟩⟩
  · refine ⟨_, [], Cuts.cons hpos hsize (.nil ?_), rfl, Or.inl ⟨hlt, rfl⟩⟩
    show data.length ≤ (new data segmentSize startCount).stop
    omega

end Segmenter

/-! ## The reassembler -/

inductive ReassemblyError where
  | continuationBeforeFirst
  | duplicateFirstPacket
  | packetOutOfOrder (expected got : SequenceCount)
  | unexpectedUnsegmentedPacket
  | bufferTooSmall
  deriving DecidableEq, Repr

inductive ReassemblyState where
  | inProgress
  | complete (data : Bytes)
  deriving DecidableEq, Repr

structure Reassembler where
  buffer : Bytes
  writePosition : Nat
  expectedSequenceCount : SequenceCount
  isStarted : Bool
  deriving DecidableEq, Repr

namespace Reassembler

def new (buffer : Bytes) : Reassembler := ⟨buffer, 0, 0, false⟩

def reset (r : Reassembler) : Reassembler := { r with writePosition := 0, isStarted := false }

/-- The payload of a packet that passed all checks is written behind the others. -/
def write (r : Reassembler) (payload : Bytes) : Reassembler :=
  { r with
    buffer := Memory.write r.buffer r.writePosition payload
    writePosition := r.writePosition + payload.length }

def store (r : Reassembler) (packet : SpacePacket) :
    Except ReassemblyError ReassemblyState × Reassembler :=
  let r := r.write packet.dataField
  if packet.primaryHeader.sequenceFlag = .last then
    (.ok (.complete (r.buffer.take r.writePosition)), r)
  else (.ok .inProgress, r)

def processPacket (r : Reassembler) (packet : SpacePacket) :
    Except ReassemblyError ReassemblyState × Reassembler :=
  if r.buffer.length < r.writePosition + packet.dataField.length then (.error .bufferTooSmall, r)
  else
    match packet.primaryHeader.sequenceFlag with
    | .first =>
      if r.isStarted then (.error .duplicateFirstPacket, r)
      else
        store { r.reset with
          isStarted := true
          expectedSequenceCount := packet.primaryHeader.sequenceCount + 1 } packet
    | .unsegmented => (.error .unexpectedUnsegmentedPacket, r)
    | .continuation | .last =>
      if r.isStarted = false then (.error .continuationBeforeFirst, r)
      else if packet.primaryHeader.sequenceCount ≠ r.expectedSequenceCount then
        (.error (.packetOutOfOrder r.expectedSequenceCount packet.primaryHeader.sequenceCount), r)
      else
        store { r with expectedSequenceCount := r.expectedSequenceCount + 1 } packet

/-- What the calls return when the packets are fed one after the other. -/
def feed : Reassembler → List SpacePacket →
    List (Except ReassemblyError ReassemblyState) × Reassembler
  | r, [] => ([], r)
  | r, packet :: packets =>
    ((r.processPacket packet).1 :: (feed (r.processPacket packet).2 packets).1,
      (feed (r.processPacket packet).2 packets).2)

theorem feed_append (r : Reassembler) (ps ps' : List SpacePacket) :
    r.feed (ps ++ ps') =
      ((r.feed ps).1 ++ ((r.feed ps).2.feed ps').1, ((r.feed ps).2.feed ps').2) := by
  induction ps generalizing r with
  | nil => rfl
  | cons p ps ih =>
    rw [List.cons_append]
    show (_ :: (feed _ (ps ++ ps')).1, (feed _ (ps ++ ps')).2) = _
    rw [ih]
    rfl

/-- Ready for a First packet: as made, or after a reset. -/
structure Idle (r : Reassembler) : Prop where
  notStarted : r.isStarted = false
  position : r.writePosition = 0

theorem idle_new (buffer : Bytes) : (new buffer).Idle := ⟨rfl, rfl⟩

theorem idle_reset (r : Reassembler) : r.reset.Idle := ⟨rfl, rfl⟩

/-- The payloads so far are at the front of the buffer. -/
structure Filling (size : Nat) (r : Reassembler) (soFar : Bytes) (count : SequenceCount) :
    Prop where
  started : r.isStarted = true
  position : r.writePosition = soFar.length
  front : r.buffer.take soFar.length = soFar
  expected : r.expectedSequenceCount = count
  length : r.buffer.length = size

theorem Filling.write {size : Nat} {r : Reassembler} {soFar : Bytes} {count : SequenceCount}
    (h : Filling size r soFar count) {payload : Bytes}
    (hfit : soFar.length + payload.length ≤ size) :
    Filling size (r.write payload) (soFar ++ payload) count where
  started := h.started
  position := by
    show r.writePosition + payload.length = _
    rw [h.position, List.length_append]
  front := by
    have happend : (Memory.write r.buffer soFar.length payload).take
        (soFar.length + payload.length) = r.buffer.take soFar.length ++ payload :=
      slice_write_append (by rw [h.length]; exact hfit)
    rw [h.front] at happend
    show (Memory.write r.buffer r.writePosition payload).take _ = _
    rw [h.position, List.length_append]
    exact happend
  expected := h.expected
  length := by
    show (Memory.write r.buffer r.writePosition payload).length = size
    rw [write_length, h.length]

theorem Idle.first {r : Reassembler} (hidle : r.Idle) {packet : SpacePacket}
    (hflag : packet.primaryHeader.sequenceFlag = .first)
    (hfit : packet.dataField.length ≤ r.buffer.length) :
    (r.processPacket packet).1 = .ok .inProgress ∧
      Filling r.buffer.length (r.processPacket packet).2 packet.dataField
        (packet.primaryHeader.sequenceCount + 1) := by
  have hroom : ¬r.buffer.length < r.writePosition + packet.dataField.length := by
    rw [hidle.position, Nat.zero_add]
    omega
  have hgo : r.processPacket packet = store { r.reset with
      isStarted := true
      expectedSequenceCount := packet.primaryHeader.sequenceCount + 1 } packet := by
    unfold processPacket
    rw [if_neg hroom, hflag]
    show (if r.isStarted then _ else _) = _
    rw [hidle.notStarted, if_neg Bool.false_ne_true]
  have hstart : Filling r.buffer.length { r.reset with
      isStarted := true
      expectedSequenceCount := packet.primaryHeader.sequenceCount + 1 } []
      (packet.primaryHeader.sequenceCount + 1) := ⟨rfl, rfl, rfl, rfl, rfl⟩
  have hfilled := hstart.write (by
    rw [List.length_nil, Nat.zero_add]
    exact hfit : ([] : Bytes).length + packet.dataField.length ≤ r.buffer.length)
  rw [hgo, store, hflag, if_neg (by decide)]
  exact ⟨rfl, hfilled⟩

theorem Filling.next {size : Nat} {r : Reassembler} {soFar : Bytes} {count : SequenceCount}
    (h : Filling size r soFar count) {packet : SpacePacket}
    (hflag : packet.primaryHeader.sequenceFlag = .continuation ∨
      packet.primaryHeader.sequenceFlag = .last)
    (hcount : packet.primaryHeader.sequenceCount = count)
    (hfit : soFar.length + packet.dataField.length ≤ size) :
    (r.processPacket packet).1 =
        (if packet.primaryHeader.sequenceFlag = .last then
          .ok (.complete (soFar ++ packet.dataField))
        else .ok .inProgress) ∧
      Filling size (r.processPacket packet).2 (soFar ++ packet.dataField) (count + 1) := by
  have hroom : ¬r.buffer.length < r.writePosition + packet.dataField.length := by
    rw [h.position, h.length]
    omega
  have hexpected : ¬packet.primaryHeader.sequenceCount ≠ r.expectedSequenceCount := by
    rw [h.expected, hcount]
    exact fun hne => hne rfl
  have hgo : r.processPacket packet =
      store { r with expectedSequenceCount := r.expectedSequenceCount + 1 } packet := by
    unfold processPacket
    rw [if_neg hroom]
    rcases hflag with hflag | hflag
    all_goals
      rw [hflag]
      show (if r.isStarted = false then _ else _) = _
      rw [h.started, if_neg (by decide), if_neg hexpected]
  have hnext : Filling size { r with expectedSequenceCount := r.expectedSequenceCount + 1 } soFar
      (count + 1) := ⟨h.started, h.position, h.front, by rw [h.expected], h.length⟩
  have hfilled := hnext.write hfit
  rw [hgo, store]
  constructor
  · split
    · show Except.ok (ReassemblyState.complete (List.take _ _)) = _
      rw [hfilled.position, hfilled.front]
    · rfl
  · split
    · exact hfilled
    · exact hfilled

theorem Filling.refuses_first {size : Nat} {r : Reassembler} {soFar : Bytes}
    {count : SequenceCount} (h : Filling size r soFar count) {packet : SpacePacket}
    (hflag : packet.primaryHeader.sequenceFlag = .first) :
    r.processPacket packet = (.error .duplicateFirstPacket, r) ∨
      r.processPacket packet = (.error .bufferTooSmall, r) := by
  unfold processPacket
  split
  · exact Or.inr rfl
  · rw [hflag]
    left
    show (if r.isStarted then _ else _) = _
    rw [h.started, if_pos rfl]

end Reassembler

/-- The packet carries the segment. -/
def CarriesSegment (packet : SpacePacket) (i : SegmentedPacketData) : Prop :=
  packet.primaryHeader.sequenceFlag = i.sequenceFlag ∧
    packet.primaryHeader.sequenceCount = i.sequenceCount ∧ packet.dataField = i.payload

/-! ## Round trip -/

theorem CountedFrom.head {count : SequenceCount} {i : SegmentedPacketData}
    {items : List SegmentedPacketData} (h : CountedFrom count (i :: items)) :
    i.sequenceCount = count := by
  rw [h 0 i rfl]
  exact BitVec.add_zero _

theorem CountedFrom.tail {count : SequenceCount} {i : SegmentedPacketData}
    {items : List SegmentedPacketData} (h : CountedFrom count (i :: items)) :
    CountedFrom (count + 1) items := by
  intro k j hj
  rw [h (k + 1) j hj]
  bv_omega

theorem Reassembler.Filling.feed {size : Nat} {items : List SegmentedPacketData}
    {packets : List SpacePacket} (hcarry : List.Forall₂ CarriesSegment packets items)
    (hflags : ∀ i ∈ items, i.sequenceFlag = .continuation) {r : Reassembler} {soFar : Bytes}
    {count : SequenceCount} (h : Filling size r soFar count) (hcounts : CountedFrom count items)
    (hfit : soFar.length + (items.flatMap SegmentedPacketData.payload).length ≤ size) :
    (r.feed packets).1 = List.replicate items.length (.ok .inProgress) ∧
      Filling size (r.feed packets).2 (soFar ++ items.flatMap SegmentedPacketData.payload)
        (count + BitVec.ofNat 14 items.length) := by
  induction hcarry generalizing r soFar count with
  | nil =>
    refine ⟨rfl, ?_⟩
    rw [List.flatMap_nil, List.append_nil, List.length_nil]
    have hcount : count + BitVec.ofNat 14 0 = count := BitVec.add_zero _
    rw [hcount]
    exact h
  | @cons packet i packets items hpacket hrest ih =>
    obtain ⟨hflag, hcount, hpayload⟩ := hpacket
    rw [hflags i List.mem_cons_self] at hflag
    rw [List.flatMap_cons, List.length_append] at hfit
    have hnext := h.next (Or.inl hflag) (hcount.trans hcounts.head) (by rw [hpayload]; omega)
    rw [hflag, if_neg (by decide), hpayload] at hnext
    obtain ⟨hresults, hfilled⟩ :=
      ih (fun j hj => hflags j (List.mem_cons_of_mem _ hj)) hnext.2 hcounts.tail
        (by rw [List.length_append]; omega)
    have hlength : count + 1 + BitVec.ofNat 14 items.length =
        count + BitVec.ofNat 14 (i :: items).length := by
      rw [List.length_cons]
      bv_omega
    rw [hlength, List.append_assoc] at hfilled
    rw [Reassembler.feed, hnext.1, hresults, List.flatMap_cons]
    exact ⟨rfl, hfilled⟩

/-- More packets are needed at all calls but the last, which returns the data. -/
def completes (data : Bytes) (calls : Nat) : List (Except ReassemblyError ReassemblyState) :=
  List.replicate (calls - 1) (.ok .inProgress) ++ [.ok (.complete data)]

theorem Reassembler.Idle.feed_segments {r : Reassembler} (hidle : r.Idle)
    {first last : SegmentedPacketData} {init : List SegmentedPacketData}
    {count : SequenceCount} {packets : List SpacePacket}
    (hcarry : List.Forall₂ CarriesSegment packets (first :: (init ++ [last])))
    (hfirst : first.sequenceFlag = .first)
    (hinit : ∀ i ∈ init, i.sequenceFlag = .continuation) (hlast : last.sequenceFlag = .last)
    (hcounts : CountedFrom count (first :: (init ++ [last]))) {data : Bytes}
    (hwhole : (first :: (init ++ [last])).flatMap SegmentedPacketData.payload = data)
    (hbuf : data.length ≤ r.buffer.length) :
    (r.feed packets).1 = completes data packets.length ∧
      ∃ count', Filling r.buffer.length (r.feed packets).2 data count' := by
  cases hcarry with
  | @cons p _ behind _ hp hbehind =>
  obtain ⟨hpflag, hpcount, hppayload⟩ := hp
  have hmiddle := List.forall₂_take_append _ _ _ hbehind
  have hend := List.forall₂_drop_append _ _ _ hbehind
  rw [List.forall₂_cons_right_iff] at hend
  obtain ⟨q, rest, ⟨hqflag, hqcount, hqpayload⟩, hrest, hdrop⟩ := hend
  rw [List.forall₂_nil_right_iff] at hrest
  rw [hrest] at hdrop
  have hsplit : behind = behind.take init.length ++ [q] := by
    rw [← hdrop, List.take_append_drop]
  have hsize : behind.length = init.length + 1 := by
    rw [hbehind.length_eq, List.length_append, List.length_singleton]
  rw [List.flatMap_cons, List.flatMap_append, List.flatMap_singleton] at hwhole
  have hlengths : first.payload.length + (init.flatMap SegmentedPacketData.payload).length +
      last.payload.length = data.length := by
    rw [← hwhole, List.length_append, List.length_append, Nat.add_assoc]
  -- the First packet, the Continuation packets, the Last packet
  have hstart := hidle.first (hpflag.trans hfirst) (by rw [hppayload]; omega)
  rw [hppayload, hpcount, hcounts.head] at hstart
  have hinner : CountedFrom (count + 1) init := fun k i hi =>
    hcounts.tail k i (by
      rw [List.getElem?_append_left (List.getElem?_eq_some_iff.1 hi).1]
      exact hi)
  have hmid := hstart.2.feed hmiddle hinit hinner (by omega)
  have hfinal := hmid.2.next (Or.inr (hqflag.trans hlast))
    (by
      rw [hqcount]
      apply hcounts.tail
      rw [List.getElem?_append_right (Nat.le_refl _), Nat.sub_self]
      rfl)
    (by
      rw [List.length_append, hqpayload]
      omega)
  rw [hqflag, hlast, if_pos rfl, hqpayload, List.append_assoc, hwhole] at hfinal
  rw [feed, hsplit, feed_append, hstart.1, hmid.1]
  refine ⟨?_, _, hfinal.2⟩
  show _ :: (_ ++ [_]) = _
  rw [hfinal.1, List.length_cons, ← hsplit, hsize]
  rfl

theorem Reassembler.Idle.feed_segment {r : Reassembler} (hidle : r.Idle)
    {first : SegmentedPacketData} {packets : List SpacePacket}
    (hcarry : List.Forall₂ CarriesSegment packets [first]) (hfirst : first.sequenceFlag = .first)
    (hbuf : first.payload.length ≤ r.buffer.length) :
    (r.feed packets).1 = [.ok .inProgress] ∧
      ∃ count', Filling r.buffer.length (r.feed packets).2 first.payload count' := by
  obtain ⟨p, rest, ⟨hflag, _, hpayload⟩, hrest, rfl⟩ := List.forall₂_cons_right_iff.1 hcarry
  rw [List.forall₂_nil_right_iff.1 hrest]
  have hstart := hidle.first (hflag.trans hfirst) (by rw [hpayload]; exact hbuf)
  rw [← hpayload, feed, hstart.1]
  exact ⟨rfl, _, hstart.2⟩

/-- The segments hold the data, with consecutive counts.  The calls of an idle reassembler
return it exactly when there is more than one segment; the First packet of a next message
is refused, unless the reassembler is reset. -/
theorem segmentation_round_trip_iff {data : Bytes} (hdata : data ≠ []) {segmentSize : Nat}
    (hsize : 1 ≤ segmentSize) (startCount : SequenceCount) {r : Reassembler} (hidle : r.Idle)
    (hbuf : data.length ≤ r.buffer.length) :
    ∃ items, (Segmenter.new data segmentSize startCount).Yields items ∧
      (∀ i ∈ items, i.payload ≠ []) ∧ items.flatMap SegmentedPacketData.payload = data ∧
      CountedFrom startCount items ∧
      ∀ packets, List.Forall₂ CarriesSegment packets items →
        ((r.feed packets).1 = completes data packets.length ↔ segmentSize < data.length) ∧
        (∀ packet : SpacePacket, packet.primaryHeader.sequenceFlag = .first →
          ∀ state, ((r.feed packets).2.processPacket packet).1 ≠ .ok state) ∧
        (r.feed packets).2.reset.Idle ∧
        (r.feed packets).2.reset.buffer.length = r.buffer.length := by
  obtain ⟨first, rest, hcuts, hfirst, hrest⟩ := Segmenter.cuts_new hdata hsize startCount
  refine ⟨first :: rest, hcuts.yields, hcuts.filled, hcuts.whole, hcuts.counts, ?_⟩
  intro packets hcarry
  have hwhole : (first :: rest).flatMap SegmentedPacketData.payload = data := hcuts.whole
  -- either way the payloads are in the buffer afterwards
  have hfed : ((r.feed packets).1 = completes data packets.length ↔ segmentSize < data.length) ∧
      ∃ soFar count', Reassembler.Filling r.buffer.length (r.feed packets).2 soFar count' := by
    rcases hrest with ⟨hshort, rfl⟩ | ⟨hlong, init, last, rfl, hinit, hlast⟩
    · rw [List.flatMap_singleton] at hwhole
      obtain ⟨hresults, hfilling⟩ := hidle.feed_segment hcarry hfirst (by rw [hwhole]; exact hbuf)
      refine ⟨⟨fun hcompletes => ?_, fun hlong => by omega⟩, _, hfilling⟩
      rw [hresults, hcarry.length_eq] at hcompletes
      cases hcompletes
    · obtain ⟨hresults, hfilling⟩ :=
        hidle.feed_segments hcarry hfirst hinit hlast hcuts.counts hwhole hbuf
      exact ⟨⟨fun _ => hlong, fun _ => hresults⟩, _, hfilling⟩
  obtain ⟨hiff, soFar, count', hfilling⟩ := hfed
  refine ⟨hiff, fun packet hflag state hok => ?_, Reassembler.idle_reset _, hfilling.length⟩
  rcases hfilling.refuses_first hflag with h | h
  · rw [h] at hok
    cases hok
  · rw [h] at hok
    cases hok

theorem segmentation_round_trip_wrap : ∃ items,
    (Segmenter.new [1, 2] 1 0x3FFF#14).Yields items ∧
      items.flatMap SegmentedPacketData.payload = [1, 2] ∧ CountedFrom 0x3FFF#14 items ∧
      ∀ packets, List.Forall₂ CarriesSegment packets items →
        ((Reassembler.new [0, 0]).feed packets).1 = completes [1, 2] packets.length := by
  obtain ⟨items, hyields, _, hwhole, hcounts, hfed⟩ := segmentation_round_trip_iff
    (by decide : ([1, 2] : Bytes) ≠ []) (Nat.le_refl 1) 0x3FFF#14 (Reassembler.idle_new [0, 0])
    (by decide)
  exact ⟨items, hyields, hwhole, hcounts, fun packets hcarry =>
    (hfed packets hcarry).1.2 (by decide)⟩

/-- One byte in one segment: the packet that carries it completes nothing. -/
theorem one_segment_not_completed :
    (Segmenter.new [7] 1 0).Yields [⟨.first, 0, [7]⟩] ∧
      CarriesSegment ⟨⟨0#16, 0x4000#16, 0#16⟩, [7]⟩ ⟨.first, 0, [7]⟩ ∧
      ((Reassembler.new [0]).feed [⟨⟨0#16, 0x4000#16, 0#16⟩, [7]⟩]).1 ≠ completes [7] 1 :=
  ⟨.item rfl (.done rfl), ⟨by decide, by decide, rfl⟩, by decide⟩

end Spp
end Leodos
