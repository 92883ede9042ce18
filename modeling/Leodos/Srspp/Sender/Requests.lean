/-
What a send request leaves behind.

`handle_send_request` queues the segments of a message one by one.  When slots or bytes run out
in the middle the segments before stay queued, so a request is all or nothing only if all of its
segments fit or the first one does not.
-/
import Leodos.Srspp.Sender.Actions

namespace Leodos
namespace Srspp

open Isl Memory Spp

namespace SenderMachine

variable {WIN MTU : Nat}

inductive Built : SenderMachine WIN MTU → Prop where
  | new (config : SenderConfig) (bufSize : Nat) : Built (new config bufSize)
  | handle {m : SenderMachine WIN MTU} (e : Event) (a : SenderActions) :
      Built m → Built (m.handle e a).1
  | markTransmitted {m : SenderMachine WIN MTU} (seq : SequenceCount) :
      Built m → Built (m.markTransmitted seq)
  | reset {m : SenderMachine WIN MTU} : Built m → Built m.reset

theorem Built.layout {m : SenderMachine WIN MTU} (h : Built m) : Layout m := by
  induction h with
  | new config bufSize => exact Layout.new config bufSize
  | @handle m e a _ ih =>
    have hsend : ((∃ target data, e = .sendRequest target data) ∨ ∃ target, e = .sendEos target) →
        Layout (m.handle e a).1 := by
      intro he
      obtain ⟨m', a', res, hh, hq, -⟩ := handle_queues ih he a
      rw [hh]
      exact hq.layout ih
    cases e with
    | sendRequest target data => exact hsend (Or.inl ⟨target, data, rfl⟩)
    | sendEos target => exact hsend (Or.inr ⟨target, rfl⟩)
    | ackReceived ack bitmap => exact (handleAck_freesOnly m ack bitmap a).sameCargo.layout ih
    | retransmitTimeout seq => exact (handleTimeout_sameCargo m seq a).layout ih
  | markTransmitted seq _ ih => exact (markTransmitted_sameCargo _ seq).layout ih
  | reset _ _ => exact ⟨Nat.zero_le _, fun i hi => absurd rfl hi, fun i j hi => absurd rfl hi⟩

def payloadAt (m : SenderMachine WIN MTU) (i : Fin WIN) : Bytes :=
  slice m.data (m.slots i).offset (m.slots i).len

/-! ## Placing packets -/

/-- The packets went into the free slots `is`, in this order; the other slots hold what they
held. -/
structure Placed (m : SenderMachine WIN MTU) (ps : List QueuedPacket) (m' : SenderMachine WIN MTU)
    (is : List (Fin WIN)) : Prop where
  new : ∀ i, i ∈ is ↔ (m'.slots i).Occupied ∧ ¬ (m.slots i).Occupied
  nodup : is.Nodup
  seqs : is.map (fun i => (m'.slots i).seq) = seqsFrom m.nextSeq ps.length
  flags : is.map (fun i => (m'.slots i).flags) = ps.map QueuedPacket.flags
  payloads : is.map m'.payloadAt = ps.map QueuedPacket.payload
  kept : ∀ i, (m.slots i).Occupied →
    (∃ off, m'.slots i = { m.slots i with offset := off }) ∧ m'.payloadAt i = m.payloadAt i

theorem Placed.relocated {m m₁ m' : SenderMachine WIN MTU} {ps : List QueuedPacket}
    {is : List (Fin WIN)} (hr : Relocated m m₁) (h : Placed m₁ ps m' is) : Placed m ps m' is where
  new i := by rw [h.new i, hr.occupied_iff]
  nodup := h.nodup
  seqs := by rw [h.seqs, hr.nextSeq]
  flags := h.flags
  payloads := h.payloads
  kept i hi := by
    obtain ⟨off, hoff⟩ := hr.slot i
    obtain ⟨⟨off', hoff'⟩, hpayload⟩ := h.kept i ((hr.occupied_iff i).2 hi)
    have hsame := hr.payload i hi
    refine ⟨⟨off', by rw [hoff', hoff]⟩, hpayload.trans ?_⟩
    rw [payloadAt, payloadAt, ← hsame, hoff]

theorem payloadAt_assignPacket {m : SenderMachine WIN MTU} (hl : Layout m) {i : Fin WIN}
    {p : QueuedPacket} (hfit : p.payload.length ≤ m.availableBytes) :
    (m.assignPacket i p).payloadAt i = p.payload := by
  have hpos := hl.writePos_le
  unfold availableBytes at hfit
  rw [payloadAt, assignPacket_slots, if_pos rfl]
  exact slice_write_self (by omega)

theorem payloadAt_assignPacket_of_ne {m : SenderMachine WIN MTU} (hl : Layout m) {i j : Fin WIN}
    (hj : (m.slots j).Occupied) (hne : j ≠ i) (p : QueuedPacket) :
    (m.assignPacket i p).payloadAt j = m.payloadAt j := by
  rw [payloadAt, payloadAt, assignPacket_slots, if_neg hne]
  exact slice_write_of_disjoint (Or.inl (hl.inside j hj))

theorem Placed.assign {m m' : SenderMachine WIN MTU} {ps : List QueuedPacket}
    {is : List (Fin WIN)} (hl : Layout m) {i : Fin WIN} {p : QueuedPacket}
    (hi : ¬ (m.slots i).Occupied) (hfit : p.payload.length ≤ m.availableBytes)
    (h : Placed (m.assignPacket i p) ps m' is) : Placed m (p :: ps) m' (i :: is) := by
  have hself : ((m.assignPacket i p).slots i).Occupied := by
    rw [assignPacket_slots, if_pos rfl]
    intro hempty
    cases hempty
  have hother : ∀ j, j ≠ i → (m.assignPacket i p).slots j = m.slots j := by
    intro j hne
    rw [assignPacket_slots, if_neg hne]
  obtain ⟨⟨off, hoff⟩, hpayload⟩ := h.kept i hself
  have hslot : (m'.slots i).seq = m.nextSeq ∧ (m'.slots i).flags = p.flags := by
    rw [hoff, assignPacket_slots, if_pos rfl]
    exact ⟨rfl, rfl⟩
  refine ⟨fun j => ?_, List.nodup_cons.2 ⟨fun hmem => ((h.new i).1 hmem).2 hself, h.nodup⟩,
    ?_, ?_, ?_, fun j hj => ?_⟩
  · by_cases hne : j = i
    · subst hne
      refine iff_of_true List.mem_cons_self ⟨?_, hi⟩
      rw [hoff]
      exact hself
    · rw [List.mem_cons, h.new j, hother j hne]
      exact ⟨fun hor => hor.resolve_left hne, Or.inr⟩
  · rw [List.map_cons, h.seqs, hslot.1]
    rfl
  · rw [List.map_cons, h.flags, hslot.2, List.map_cons]
  · rw [List.map_cons, h.payloads, hpayload, payloadAt_assignPacket hl hfit, List.map_cons]
  · have hne : j ≠ i := fun e => hi (e ▸ hj)
    obtain ⟨hslotj, hpayloadj⟩ := h.kept j (by rw [hother j hne]; exact hj)
    rw [hother j hne] at hslotj
    exact ⟨hslotj, hpayloadj.trans (payloadAt_assignPacket_of_ne hl hj hne p)⟩

theorem Queues.placed {m m' : SenderMachine WIN MTU} {a a' : SenderActions}
    {ps : List QueuedPacket} (h : Queues m a ps m' a') (hl : Layout m) :
    ∃ is, Placed m ps m' is := by
  induction h with
  | done m a =>
    exact ⟨[], fun i => iff_of_false List.not_mem_nil (fun h => h.2 h.1), List.nodup_nil, rfl, rfl,
      rfl, fun i _ => ⟨⟨_, rfl⟩, rfl⟩⟩
  | relocate hl' _ ih =>
    obtain ⟨is, his⟩ := ih hl'.compact
    exact ⟨is, his.relocated (compact_relocated hl')⟩
  | assign i p hi hfit _ ih =>
    obtain ⟨is, his⟩ := ih (hl.assign hfit _ _ _ _)
    exact ⟨i :: is, his.assign hl (findSlot_empty hi) hfit⟩

theorem Queues.of_nil {m m' : SenderMachine WIN MTU} {a a' : SenderActions}
    {ps : List QueuedPacket} (h : Queues m a ps m' a') (hps : ps = []) :
    m'.nextSeq = m.nextSeq ∧ a' = a := by
  induction h with
  | done => exact ⟨rfl, rfl⟩
  | relocate hl _ ih =>
    have hrest := ih hps
    rw [(compact_relocated hl).nextSeq] at hrest
    exact hrest
  | assign => cases hps

/-! ## How many segments fit -/

theorem admitted_eq_length_iff (free room : Nat) (ns : List Nat) :
    admitted free room ns = ns.length ↔ ns.length ≤ free ∧ ns.sum ≤ room := by
  induction ns generalizing free room with
  | nil => exact iff_of_true rfl ⟨Nat.zero_le _, Nat.zero_le _⟩
  | cons n ns ih =>
    rw [admitted, List.length_cons, List.sum_cons]
    by_cases hfit : 0 < free ∧ n ≤ room
    · rw [if_pos hfit, Nat.add_right_cancel_iff, ih]
      omega
    · rw [if_neg hfit]
      omega

theorem segments_later {mp fuel : Nat} (hmp : 0 < mp) {data : Bytes} (hne : data ≠ [])
    (hfuel : data.length ≤ fuel) :
    ∃ n, (segments mp fuel false data).map Prod.fst = List.replicate n .continuation ++ [.last] ∧
      ((segments mp fuel false data).map Prod.snd).flatten = data ∧
      (segments mp fuel false data).length = (data.length + mp - 1) / mp := by
  induction fuel generalizing data with
  | zero => exact absurd (List.length_eq_zero_iff.1 (Nat.le_zero.1 hfuel)) hne
  | succ fuel ih =>
    have hempty : data.isEmpty = false := List.isEmpty_eq_false_iff.2 hne
    have hpos : 0 < data.length := List.length_pos_iff.2 hne
    rw [segments, hempty]
    simp only [Bool.false_eq_true, if_false, List.map_cons, List.flatten_cons, List.length_cons]
    by_cases hlast : data.length ≤ mp
    · have hdrop : data.drop mp = [] := List.drop_eq_nil_of_le hlast
      have hnone : segments mp fuel false [] = [] := by
        cases fuel with
        | zero => rfl
        | succ fuel => rfl
      have hcount : (data.length + mp - 1) / mp = 1 := by
        rw [Nat.div_eq_iff hmp]
        omega
      rw [if_pos hlast, hdrop, hnone, List.take_of_length_le hlast, hcount]
      exact ⟨0, rfl, List.append_nil data, rfl⟩
    · have hlen : (data.drop mp).length = data.length - mp := List.length_drop
      have hrest : data.drop mp ≠ [] := by
        intro hnil
        rw [hnil, List.length_nil] at hlen
        omega
      obtain ⟨n, hflags, hbytes, hcount⟩ := ih hrest (by omega)
      have hsplit : data.length + mp - 1 = (data.length - mp + mp - 1) + mp := by omega
      rw [if_neg hlast, hflags, hbytes, hcount, hlen, hsplit, Nat.add_div_right _ hmp]
      exact ⟨n + 1, rfl, List.take_append_drop mp data, rfl⟩

theorem length_segments_zero {fuel : Nat} {data : Bytes} (hne : data ≠ []) (isFirst : Bool) :
    (segments 0 fuel isFirst data).length = fuel := by
  induction fuel generalizing isFirst with
  | zero => rfl
  | succ fuel ih =>
    rw [segments, List.isEmpty_eq_false_iff.2 hne]
    simp only [Bool.false_eq_true, if_false, List.length_cons, List.drop_zero]
    rw [ih false]

/-! ## The segments of a request -/

/-- One packet without segmentation, or a first, some continuations and a last. -/
def Framed (flags : List SequenceFlag) : Prop :=
  flags = [.unsegmented] ∨ ∃ n, flags = .first :: (List.replicate n .continuation ++ [.last])

def segmentCount (m : SenderMachine WIN MTU) (data : Bytes) : Nat :=
  if data.length ≤ m.maxPayloadPerPacket then 1
  else (data.length + m.maxPayloadPerPacket - 1) / m.maxPayloadPerPacket

def freeBytes (m : SenderMachine WIN MTU) : Nat := m.data.length - m.liveBytes

/-- All segments have a slot and room.  Where the header leaves no payload, a message of some
length has no end of segments. -/
structure Fits (m : SenderMachine WIN MTU) (data : Bytes) : Prop where
  payload : data.length ≤ m.maxPayloadPerPacket ∨ 0 < m.maxPayloadPerPacket
  slots : m.segmentCount data ≤ m.availableWindow
  bytes : data.length ≤ m.freeBytes

/-- The first segment has no slot or no room. -/
def Refused (m : SenderMachine WIN MTU) (data : Bytes) : Prop :=
  m.availableWindow = 0 ∨ m.freeBytes < min data.length m.maxPayloadPerPacket

section
variable (m : SenderMachine WIN MTU) (target : Address) (data : Bytes)

theorem intended_one (h : data.length ≤ m.maxPayloadPerPacket) :
    m.intended (.sendRequest target data) = [⟨target, .unsegmented, data, false, false⟩] :=
  if_pos h

theorem intended_many (h : ¬ data.length ≤ m.maxPayloadPerPacket) :
    m.intended (.sendRequest target data) =
      (segments m.maxPayloadPerPacket (data.length + WIN + 1) true data).map
        fun p => ⟨target, p.1, p.2, true, false⟩ :=
  if_neg h

theorem intended_spec (h : data.length ≤ m.maxPayloadPerPacket ∨ 0 < m.maxPayloadPerPacket) :
    Framed ((m.intended (.sendRequest target data)).map QueuedPacket.flags) ∧
      ((m.intended (.sendRequest target data)).map QueuedPacket.payload).flatten = data ∧
      (m.intended (.sendRequest target data)).length = m.segmentCount data := by
  unfold segmentCount
  by_cases hone : data.length ≤ m.maxPayloadPerPacket
  · rw [intended_one m target data hone, if_pos hone]
    exact ⟨Or.inl rfl, List.append_nil data, rfl⟩
  · have hmp : 0 < m.maxPayloadPerPacket := h.resolve_left hone
    have hempty : data.isEmpty = false := by
      refine List.isEmpty_eq_false_iff.2 fun hnil => hone ?_
      rw [hnil]
      exact Nat.zero_le _
    have hlen : (data.drop m.maxPayloadPerPacket).length =
        data.length - m.maxPayloadPerPacket := List.length_drop
    have hrest : data.drop m.maxPayloadPerPacket ≠ [] := by
      intro hnil
      rw [hnil, List.length_nil] at hlen
      omega
    obtain ⟨n, hflags, hbytes, hcount⟩ := segments_later hmp hrest
      (show (data.drop m.maxPayloadPerPacket).length ≤ data.length + WIN by omega)
    have hsplit : data.length + m.maxPayloadPerPacket - 1 =
        (data.length - m.maxPayloadPerPacket + m.maxPayloadPerPacket - 1) +
          m.maxPayloadPerPacket := by omega
    have hfst : ∀ l : List (SequenceFlag × Bytes), (l.map fun p =>
        (⟨target, p.1, p.2, true, false⟩ : QueuedPacket)).map QueuedPacket.flags =
          l.map Prod.fst := fun l => by rw [List.map_map]; rfl
    have hsnd : ∀ l : List (SequenceFlag × Bytes), (l.map fun p =>
        (⟨target, p.1, p.2, true, false⟩ : QueuedPacket)).map QueuedPacket.payload =
          l.map Prod.snd := fun l => by rw [List.map_map]; rfl
    rw [intended_many m target data hone, if_neg hone, hfst, hsnd, List.length_map, segments,
      hempty]
    simp only [Bool.false_eq_true, if_false, if_true, List.map_cons, List.flatten_cons,
      List.length_cons]
    rw [hflags, hbytes, hcount, hlen, hsplit, Nat.add_div_right _ hmp]
    exact ⟨Or.inr ⟨n, rfl⟩, List.take_append_drop _ data, rfl⟩

theorem exists_first_segment : ∃ p ps, m.intended (.sendRequest target data) = p :: ps ∧
    p.payload.length = min data.length m.maxPayloadPerPacket := by
  by_cases hone : data.length ≤ m.maxPayloadPerPacket
  · rw [intended_one m target data hone]
    exact ⟨_, _, rfl, (Nat.min_eq_left hone).symm⟩
  · have hempty : data.isEmpty = false := by
      refine List.isEmpty_eq_false_iff.2 fun hnil => hone ?_
      rw [hnil]
      exact Nat.zero_le _
    rw [intended_many m target data hone, segments, hempty]
    refine ⟨_, _, rfl, ?_⟩
    show (data.take m.maxPayloadPerPacket).length = _
    rw [List.length_take, Nat.min_comm]

theorem roomFor_eq_zero_iff :
    m.roomFor (m.intended (.sendRequest target data)) = 0 ↔ m.Refused data := by
  obtain ⟨p, ps, hps, hlen⟩ := exists_first_segment m target data
  rw [hps, roomFor, List.map_cons, admitted, hlen, Refused, freeBytes]
  by_cases hfit : 0 < m.availableWindow ∧
      min data.length m.maxPayloadPerPacket ≤ m.data.length - m.liveBytes
  · rw [if_pos hfit]
    omega
  · rw [if_neg hfit]
    omega

theorem roomFor_eq_length_iff :
    m.roomFor (m.intended (.sendRequest target data)) =
      (m.intended (.sendRequest target data)).length ↔ m.Fits data := by
  have hadmit := admitted_eq_length_iff m.availableWindow (m.data.length - m.liveBytes)
    ((m.intended (.sendRequest target data)).map fun p => p.payload.length)
  rw [List.length_map] at hadmit
  rw [roomFor, hadmit]
  by_cases hmp : data.length ≤ m.maxPayloadPerPacket ∨ 0 < m.maxPayloadPerPacket
  · obtain ⟨-, hbytes, hcount⟩ := intended_spec m target data hmp
    have hsum : ((m.intended (.sendRequest target data)).map fun p => p.payload.length).sum =
        data.length := by
      have hlen := congrArg List.length hbytes
      rw [List.length_flatten, List.map_map] at hlen
      exact hlen
    rw [hcount, hsum]
    exact ⟨fun h => ⟨hmp, h.1, h.2⟩, fun h => ⟨h.slots, h.bytes⟩⟩
  · -- without payload the segments outnumber the window
    refine iff_of_false (fun h => ?_) (fun h => hmp h.payload)
    have hzero : m.maxPayloadPerPacket = 0 := by omega
    have hne : data ≠ [] := by
      intro hnil
      refine hmp (Or.inl ?_)
      rw [hnil]
      exact Nat.zero_le _
    have hmany : (m.intended (.sendRequest target data)).length = data.length + WIN + 1 := by
      rw [intended_many m target data (fun hle => hmp (Or.inl hle)), List.length_map, hzero,
        length_segments_zero hne]
    have hfew := h.1
    have hwindow : m.availableWindow ≤ WIN := Nat.sub_le _ _
    omega

end

/-! ## All or nothing -/

/-- The same slots in use with the same payloads, the same next count and the same actions. -/
structure Untouched (m : SenderMachine WIN MTU) (a : SenderActions) (m' : SenderMachine WIN MTU)
    (a' : SenderActions) : Prop where
  occupied : ∀ i, (m'.slots i).Occupied ↔ (m.slots i).Occupied
  slots : ∀ i, (m.slots i).Occupied →
    (∃ off, m'.slots i = { m.slots i with offset := off }) ∧ m'.payloadAt i = m.payloadAt i
  nextSeq : m'.nextSeq = m.nextSeq
  actions : a' = a

/-- The slots `is` newly in use hold the message, in consecutive counts. -/
structure Sent (m : SenderMachine WIN MTU) (data : Bytes) (m' : SenderMachine WIN MTU)
    (is : List (Fin WIN)) : Prop where
  new : ∀ i, i ∈ is ↔ (m'.slots i).Occupied ∧ ¬ (m.slots i).Occupied
  nodup : is.Nodup
  seqs : is.map (fun i => (m'.slots i).seq) = seqsFrom m.nextSeq is.length
  framed : Framed (is.map fun i => (m'.slots i).flags)
  payloads : (is.map m'.payloadAt).flatten = data

/-- What a request has to do: queue the whole message, or nothing and report an error. -/
def AllOrNothing (m : SenderMachine WIN MTU) (target : Address) (data : Bytes)
    (a : SenderActions) : Prop :=
  match m.handle (.sendRequest target data) a with
  | (m', _, .ok ()) => ∃ is, Sent m data m' is
  | (m', a', .error _) => Untouched m a m' a'

/-- A request is all or nothing exactly when all segments fit or the first does not. -/
theorem all_or_nothing_iff {m : SenderMachine WIN MTU} (h : Built m) (target : Address)
    (data : Bytes) (a : SenderActions) :
    AllOrNothing m target data a ↔ m.Fits data ∨ m.Refused data := by
  have hl := h.layout
  obtain ⟨m', a', res, hh, hq, hres⟩ := handle_queues hl (Or.inl ⟨target, data, rfl⟩) a
  rw [roomFor_eq_length_iff] at hres
  rw [← roomFor_eq_zero_iff m target data, AllOrNothing, hh]
  cases res with
  | ok u =>
    have hfits := hres.1 rfl
    refine iff_of_true ?_ (Or.inl hfits)
    rw [(roomFor_eq_length_iff m target data).2 hfits, List.take_length] at hq
    obtain ⟨hframed, hbytes, -⟩ := intended_spec m target data hfits.payload
    obtain ⟨is, his⟩ := hq.placed hl
    have hlen : is.length = (m.intended (.sendRequest target data)).length := by
      have hmap := congrArg List.length his.flags
      rw [List.length_map, List.length_map] at hmap
      exact hmap
    refine ⟨is, his.new, his.nodup, ?_, ?_, ?_⟩
    · rw [hlen]
      exact his.seqs
    · rw [his.flags]
      exact hframed
    · rw [his.payloads]
      exact hbytes
  | error e =>
    have hno : ¬ m.Fits data := fun hfits => by cases hres.2 hfits
    constructor
    · intro hsame
      right
      have hcount := hq.unackedCount
      have hkeep : m'.unackedCount = m.unackedCount := by
        rw [unackedCount_eq_sum, unackedCount_eq_sum]
        simp only [hsame.occupied]
      obtain ⟨p, ps, hps, -⟩ := exists_first_segment m target data
      rw [List.length_take, hkeep, Nat.min_eq_left (roomFor_le_length ..)] at hcount
      omega
    · intro hnone
      have hzero := hnone.resolve_left hno
      rw [hzero, List.take_zero] at hq
      obtain ⟨hnext, hactions⟩ := hq.of_nil rfl
      obtain ⟨is, his⟩ := hq.placed hl
      have hnil : is = [] := by
        have hmap := congrArg List.length his.flags
        rw [List.length_map] at hmap
        exact List.length_eq_zero_iff.1 hmap
      subst hnil
      refine ⟨fun i => ⟨fun hi => ?_, fun hi => ?_⟩, his.kept, hnext, hactions⟩
      · by_contra hold
        exact List.not_mem_nil ((his.new i).2 ⟨hi, hold⟩)
      · obtain ⟨⟨off, hoff⟩, -⟩ := his.kept i hi
        rw [hoff]
        exact hi

/-- A window of five slots, one of them in use, and a payload of two bytes for each packet. -/
def busySender : SenderMachine 5 15 :=
  ((new ⟨.ground 0, 10, 3, 13⟩ 8).handle (.sendRequest (.ground 1) [1, 2]) .new).1

/-- A message of three segments. -/
theorem all_or_nothing_short : AllOrNothing busySender (.ground 2) [3, 4, 5, 6, 7] .new :=
  (all_or_nothing_iff (.handle _ _ (.new _ _)) (.ground 2) [3, 4, 5, 6, 7] .new).2
    (Or.inl ⟨by decide, by decide, by decide⟩)

/-- A window of one slot and a payload of one byte for each packet. -/
def tightSender : SenderMachine 1 14 := .new ⟨.ground 0, 10, 3, 13⟩ 8

/-- The first byte of the message is queued, and then the window is full. -/
theorem first_segment_stays :
    Built tightSender ∧ ¬ AllOrNothing tightSender (.ground 1) [7, 8] .new := by
  refine ⟨.new _ _, fun h => ?_⟩
  have hkeep : ¬ ((tightSender.handle (.sendRequest (.ground 1) [7, 8]) .new).1.slots 0).Occupied :=
    fun hocc => absurd ((Untouched.occupied h 0).1 hocc) (by decide)
  exact hkeep (by decide)

end SenderMachine

end Srspp
end Leodos
