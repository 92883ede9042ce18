/-
What queueing does.

`Queues m a ps m' a'` says that the packets `ps` were put into the first free slots one
after the other, with the buffer relocated where needed and one `Transmit` action for each.
`handle_queues` shows that a send event does exactly that with the longest prefix of
its packets for which slots and live bytes suffice; every invariant of the send path
is an induction over `Queues`.
-/
import Leodos.Srspp.Sender.Acknowledge
import Leodos.Srspp.Sender.Layout

namespace Leodos
namespace Srspp

open Isl Memory Spp

/-- What the sender is asked to put into one slot. -/
structure QueuedPacket where
  target : Address
  flags : SequenceFlag
  payload : Bytes
  isSegmented : Bool
  isEos : Bool
  deriving DecidableEq, Repr

/-- How many packets of the given sizes fit `free` slots and `room` bytes. -/
def admitted (free room : Nat) : List Nat → Nat
  | [] => 0
  | n :: ns => if 0 < free ∧ n ≤ room then admitted (free - 1) (room - n) ns + 1 else 0

theorem admitted_le_free (free room : Nat) (ns : List Nat) : admitted free room ns ≤ free := by
  induction ns generalizing free room with
  | nil => exact Nat.zero_le _
  | cons n ns ih =>
    unfold admitted
    split
    · have := ih (free - 1) (room - n)
      omega
    · exact Nat.zero_le _

theorem admitted_le_length (free room : Nat) (ns : List Nat) :
    admitted free room ns ≤ ns.length := by
  induction ns generalizing free room with
  | nil => exact Nat.le_refl _
  | cons n ns ih =>
    unfold admitted
    split
    · have := ih (free - 1) (room - n)
      simp only [List.length_cons]
      omega
    · exact Nat.zero_le _

namespace SenderMachine

variable {WIN MTU : Nat}

def assignPacket (m : SenderMachine WIN MTU) (i : Fin WIN) (p : QueuedPacket) :
    SenderMachine WIN MTU :=
  m.assign i p.target p.payload p.flags p.isSegmented p.isEos

def intended (m : SenderMachine WIN MTU) : Event → List QueuedPacket
  | .sendRequest target data =>
      if data.length ≤ m.maxPayloadPerPacket then [⟨target, .unsegmented, data, false, false⟩]
      else (segments m.maxPayloadPerPacket (data.length + WIN + 1) true data).map
        fun p => ⟨target, p.1, p.2, true, false⟩
  | .sendEos target => [⟨target, .unsegmented, [], false, true⟩]
  | _ => []

def roomFor (m : SenderMachine WIN MTU) (ps : List QueuedPacket) : Nat :=
  admitted m.availableWindow (m.data.length - m.liveBytes) (ps.map fun p => p.payload.length)

theorem roomFor_le_length (m : SenderMachine WIN MTU) (ps : List QueuedPacket) :
    m.roomFor ps ≤ ps.length := by
  have hle := admitted_le_length m.availableWindow (m.data.length - m.liveBytes)
    (ps.map fun p => p.payload.length)
  rwa [List.length_map] at hle

inductive Queues : SenderMachine WIN MTU → SenderActions → List QueuedPacket →
    SenderMachine WIN MTU → SenderActions → Prop where
  | done (m a) : Queues m a [] m a
  | relocate {m a ps m' a'} : Layout m → Queues m.compact a ps m' a' → Queues m a ps m' a'
  | assign {m a ps m' a'} (i : Fin WIN) (p : QueuedPacket) :
      m.findSlot (fun x => x.state = .empty) = some i → p.payload.length ≤ m.availableBytes →
      Queues (m.assignPacket i p) (a.push (.transmit m.nextSeq m.config.rtoTicks)) ps m' a' →
      Queues m a (p :: ps) m' a'

/-! ## Counting slots and bytes -/

theorem sum_filter_map {α : Type} (p : α → Bool) (f : α → Nat) (l : List α) :
    ((l.filter p).map f).sum = (l.map fun x => if p x then f x else 0).sum := by
  induction l with
  | nil => rfl
  | cons x l ih =>
    by_cases hx : p x = true
    · rw [List.filter_cons_of_pos hx, List.map_cons, List.map_cons, List.sum_cons, List.sum_cons,
        ih, if_pos hx]
    · rw [List.filter_cons_of_neg hx, List.map_cons, List.sum_cons, ih, if_neg hx, Nat.zero_add]

theorem sum_map_update {α : Type} {l : List α} {i : α} (hnodup : l.Nodup) (hi : i ∈ l)
    {f g : α → Nat} (hfg : ∀ j ∈ l, j ≠ i → f j = g j) :
    (l.map f).sum + g i = (l.map g).sum + f i := by
  induction l with
  | nil => cases hi
  | cons x l ih =>
    rw [List.nodup_cons] at hnodup
    rw [List.map_cons, List.map_cons, List.sum_cons, List.sum_cons]
    by_cases hx : x = i
    · subst hx
      have hsame : l.map f = l.map g := List.map_congr_left fun j hj =>
        hfg j (List.mem_cons_of_mem _ hj) fun e => hnodup.1 (e ▸ hj)
      rw [hsame]
      omega
    · have hil : i ∈ l := (List.mem_cons.1 hi).resolve_left fun e => hx e.symm
      have := ih hnodup.2 hil fun j hj => hfg j (List.mem_cons_of_mem _ hj)
      have := hfg x (List.mem_cons_self ..) hx
      omega

theorem liveBytes_eq_sum (m : SenderMachine WIN MTU) :
    m.liveBytes =
      ((List.finRange WIN).map fun i =>
        if (m.slots i).Occupied then (m.slots i).len else 0).sum := by
  rw [liveBytes, sum_filter_map]
  simp

theorem unackedCount_eq_sum (m : SenderMachine WIN MTU) :
    m.unackedCount =
      ((List.finRange WIN).map fun i => if (m.slots i).Occupied then 1 else 0).sum := by
  have h := sum_filter_map (fun i => decide (m.slots i).Occupied) (fun _ => 1) (List.finRange WIN)
  rw [unackedCount]
  simpa using h

theorem unackedCount_le (m : SenderMachine WIN MTU) : m.unackedCount ≤ WIN := by
  rw [unackedCount]
  simpa using List.length_filter_le (fun i => decide (m.slots i).Occupied) (List.finRange WIN)

theorem Relocated.liveBytes {m m' : SenderMachine WIN MTU} (h : Relocated m m') :
    m'.liveBytes = m.liveBytes := by
  rw [liveBytes_eq_sum, liveBytes_eq_sum]
  congr 2
  funext i
  obtain ⟨off, hoff⟩ := h.slot i
  rw [hoff]
  rfl

theorem Relocated.unackedCount {m m' : SenderMachine WIN MTU} (h : Relocated m m') :
    m'.unackedCount = m.unackedCount := by
  rw [unackedCount_eq_sum, unackedCount_eq_sum]
  congr 2
  funext i
  simp only [h.occupied_iff]

theorem assignPacket_slots (m : SenderMachine WIN MTU) (i j : Fin WIN) (p : QueuedPacket) :
    (m.assignPacket i p).slots j =
      if j = i then
        { state := .pendingTransmit
          seq := m.nextSeq
          flags := p.flags
          target := RawAddress.ofAddress p.target
          retransmitCount := 0
          offset := m.writePos
          len := p.payload.length
          isSegmented := p.isSegmented
          isEos := p.isEos }
      else m.slots j := by
  simp [assignPacket, SenderMachine.assign, Function.update_apply]

theorem assignPacket_unackedCount {m : SenderMachine WIN MTU} {i : Fin WIN}
    (hi : ¬ (m.slots i).Occupied) (p : QueuedPacket) :
    (m.assignPacket i p).unackedCount = m.unackedCount + 1 := by
  have h := sum_map_update (List.nodup_finRange WIN) (List.mem_finRange i)
    (f := fun j => if ((m.assignPacket i p).slots j).Occupied then 1 else 0)
    (g := fun j => if (m.slots j).Occupied then 1 else 0)
    (fun j _ hj => by simp only [assignPacket_slots, if_neg hj])
  rw [unackedCount_eq_sum, unackedCount_eq_sum]
  have hself : ((m.assignPacket i p).slots i).Occupied := by
    simp [assignPacket_slots, PacketMeta.Occupied]
  simp only [if_neg hi, if_pos hself] at h
  omega

theorem assignPacket_liveBytes {m : SenderMachine WIN MTU} {i : Fin WIN}
    (hi : ¬ (m.slots i).Occupied) (p : QueuedPacket) :
    (m.assignPacket i p).liveBytes = m.liveBytes + p.payload.length := by
  have h := sum_map_update (List.nodup_finRange WIN) (List.mem_finRange i)
    (f := fun j => if ((m.assignPacket i p).slots j).Occupied then
      ((m.assignPacket i p).slots j).len else 0)
    (g := fun j => if (m.slots j).Occupied then (m.slots j).len else 0)
    (fun j _ hj => by simp only [assignPacket_slots, if_neg hj])
  rw [liveBytes_eq_sum, liveBytes_eq_sum]
  have hself : ((m.assignPacket i p).slots i).Occupied := by
    simp [assignPacket_slots, PacketMeta.Occupied]
  have hlen : ((m.assignPacket i p).slots i).len = p.payload.length := by
    simp [assignPacket_slots]
  simp only [if_neg hi, if_pos hself, hlen] at h
  omega

theorem findSlot_empty {m : SenderMachine WIN MTU} {i : Fin WIN}
    (h : m.findSlot (fun x => x.state = .empty) = some i) : ¬ (m.slots i).Occupied := by
  have := findSlot_some h
  simpa [PacketMeta.Occupied] using this

theorem findSlot_empty_none_iff (m : SenderMachine WIN MTU) :
    m.findSlot (fun x => x.state = .empty) = none ↔ m.availableWindow = 0 := by
  have hfull : (∀ i, (m.slots i).Occupied) ↔ m.unackedCount = WIN := by
    rw [unackedCount]
    constructor
    · intro h
      rw [List.filter_eq_self.2 fun i _ => by simpa using h i, List.length_finRange]
    · intro h i
      have hlen : ((List.finRange WIN).filter fun i => (m.slots i).Occupied).length =
          (List.finRange WIN).length := by rw [h, List.length_finRange]
      have := List.length_filter_eq_length_iff.1 hlen i (List.mem_finRange i)
      simpa using this
  have hle := m.unackedCount_le
  rw [availableWindow, show WIN - m.unackedCount = 0 ↔ m.unackedCount = WIN by omega, ← hfull]
  constructor
  · intro h i
    have := findSlot_none h i
    simpa [PacketMeta.Occupied] using this
  · intro h
    refine List.find?_eq_none.2 fun i _ => ?_
    simpa [PacketMeta.Occupied] using h i

theorem availableWindow_pos {m : SenderMachine WIN MTU} {i : Fin WIN}
    (h : m.findSlot (fun x => x.state = .empty) = some i) : 0 < m.availableWindow := by
  rcases Nat.eq_zero_or_pos m.availableWindow with hzero | hpos
  · rw [(findSlot_empty_none_iff m).2 hzero] at h
    cases h
  · exact hpos

theorem Relocated.findSlot_empty {m m' : SenderMachine WIN MTU} (h : Relocated m m') :
    m'.findSlot (fun x => x.state = .empty) = m.findSlot fun x => x.state = .empty := by
  rw [findSlot, findSlot]
  congr 1
  funext i
  obtain ⟨off, hoff⟩ := h.slot i
  rw [hoff]

/-! ## What the queueing functions do -/

theorem Queues.trans {m₁ m₂ m₃ : SenderMachine WIN MTU} {a₁ a₂ a₃ : SenderActions}
    {ps qs : List QueuedPacket} (h₁ : Queues m₁ a₁ ps m₂ a₂) (h₂ : Queues m₂ a₂ qs m₃ a₃) :
    Queues m₁ a₁ (ps ++ qs) m₃ a₃ := by
  induction h₁ with
  | done => exact h₂
  | relocate hl _ ih => exact .relocate hl (ih h₂)
  | assign i p hi hfit _ ih => exact .assign i p hi hfit (ih h₂)

theorem Queues.layout {m m' : SenderMachine WIN MTU} {a a' : SenderActions}
    {ps : List QueuedPacket} (h : Queues m a ps m' a') (hl : Layout m) : Layout m' := by
  induction h with
  | done => exact hl
  | relocate _ _ ih => exact ih hl.compact
  | assign i p _ hfit _ ih => exact ih (hl.assign hfit _ _ _ _)

theorem Queues.size {m m' : SenderMachine WIN MTU} {a a' : SenderActions}
    {ps : List QueuedPacket} (h : Queues m a ps m' a') : m'.data.length = m.data.length := by
  induction h with
  | done => rfl
  | relocate hl _ ih => rw [ih, (compact_relocated hl).size]
  | assign i p _ _ _ ih => rw [ih]; simp [assignPacket, SenderMachine.assign]

theorem Queues.unackedCount {m m' : SenderMachine WIN MTU} {a a' : SenderActions}
    {ps : List QueuedPacket} (h : Queues m a ps m' a') :
    m'.unackedCount = m.unackedCount + ps.length := by
  induction h with
  | done => rfl
  | relocate hl _ ih => rw [ih, (compact_relocated hl).unackedCount]
  | assign i p hi _ _ ih =>
    rw [ih, assignPacket_unackedCount (findSlot_empty hi), List.length_cons]
    omega

theorem Queues.liveBytes {m m' : SenderMachine WIN MTU} {a a' : SenderActions}
    {ps : List QueuedPacket} (h : Queues m a ps m' a') :
    m'.liveBytes = m.liveBytes + (ps.map fun p => p.payload.length).sum := by
  induction h with
  | done => rfl
  | relocate hl _ ih => rw [ih, (compact_relocated hl).liveBytes]
  | assign i p hi _ _ ih =>
    rw [ih, assignPacket_liveBytes (findSlot_empty hi), List.map_cons, List.sum_cons]
    omega

theorem queuePacket_queues {m : SenderMachine WIN MTU} (hl : Layout m) (target : Address)
    (payload : Bytes) (flags : SequenceFlag) (isSegmented : Bool) (a : SenderActions) :
    ∃ m' a' res, m.queuePacket target payload flags isSegmented a = (m', a', res) ∧
      if 0 < m.availableWindow ∧ payload.length ≤ m.data.length - m.liveBytes then
        res = .ok () ∧ Queues m a [⟨target, flags, payload, isSegmented, false⟩] m' a'
      else (∃ e, res = .error e) ∧ Queues m a [] m' a' := by
  let p : QueuedPacket := ⟨target, flags, payload, isSegmented, false⟩
  unfold queuePacket
  cases hfind : m.findSlot fun x => x.state = .empty with
  | none =>
    have hfull := (findSlot_empty_none_iff m).1 hfind
    refine ⟨_, _, _, rfl, ?_⟩
    rw [if_neg (by omega)]
    exact ⟨⟨_, rfl⟩, .done _ _⟩
  | some i =>
    have hfree := availableWindow_pos hfind
    have hlive := liveBytes_le hl
    have hpos := hl.writePos_le
    by_cases hbig : payload.length > m.availableBytes
    · simp only [if_pos hbig]
      have hr := compact_relocated hl
      have hav : m.compact.availableBytes = m.data.length - m.liveBytes := by
        rw [availableBytes, hr.size, compact_writePos hl]
      by_cases hroom : payload.length > m.compact.availableBytes
      · rw [if_pos hroom]
        refine ⟨_, _, _, rfl, ?_⟩
        rw [if_neg (by omega)]
        exact ⟨⟨_, rfl⟩, .relocate hl (.done _ _)⟩
      · rw [if_neg hroom]
        refine ⟨_, _, _, rfl, ?_⟩
        rw [if_pos ⟨hfree, by omega⟩]
        refine ⟨rfl, .relocate hl (.assign i p ?_ (Nat.le_of_not_lt hroom) (.done _ _))⟩
        rw [hr.findSlot_empty]
        exact hfind
    · simp only [if_neg hbig]
      have hroom : payload.length ≤ m.data.length - m.liveBytes := by
        unfold availableBytes at hbig
        omega
      refine ⟨_, _, _, rfl, ?_⟩
      rw [if_pos ⟨hfree, hroom⟩]
      exact ⟨rfl, .assign i p hfind (Nat.le_of_not_lt hbig) (.done _ _)⟩

theorem queueAll_queues {m : SenderMachine WIN MTU} (hl : Layout m) (target : Address)
    (segs : List (SequenceFlag × Bytes)) (a : SenderActions) :
    ∃ m' a' res, queueAll target segs m a = (m', a', res) ∧
      Queues m a ((segs.map fun p => (⟨target, p.1, p.2, true, false⟩ : QueuedPacket)).take
        (admitted m.availableWindow (m.data.length - m.liveBytes)
          (segs.map fun p => p.2.length))) m' a' ∧
      (res = .ok () ↔ admitted m.availableWindow (m.data.length - m.liveBytes)
          (segs.map fun p => p.2.length) = segs.length) := by
  induction segs generalizing m a with
  | nil => exact ⟨_, _, _, rfl, .done _ _, by simp [admitted]⟩
  | cons s segs ih =>
    obtain ⟨flags, payload⟩ := s
    obtain ⟨m₁, a₁, res₁, hq, hspec⟩ := queuePacket_queues hl target payload flags true a
    simp only [queueAll, hq, List.map_cons, admitted]
    by_cases hroom : 0 < m.availableWindow ∧ payload.length ≤ m.data.length - m.liveBytes
    · rw [if_pos hroom] at hspec ⊢
      obtain ⟨rfl, hone⟩ := hspec
      obtain ⟨m', a', res, hrest, hqs, hres⟩ := ih (hone.layout hl) a₁
      have hwin : m₁.availableWindow = m.availableWindow - 1 := by
        simp only [availableWindow, hone.unackedCount, List.length_singleton]
        omega
      have hbytes : m₁.data.length - m₁.liveBytes =
          m.data.length - m.liveBytes - payload.length := by
        rw [hone.size, hone.liveBytes]
        simp
        omega
      rw [hwin, hbytes] at hqs hres
      refine ⟨m', a', res, hrest, ?_, ?_⟩
      · rw [List.take_succ_cons]
        exact hone.trans hqs
      · rw [hres, List.length_cons, Nat.add_right_cancel_iff]
    · rw [if_neg hroom] at hspec ⊢
      obtain ⟨⟨e, rfl⟩, hnone⟩ := hspec
      exact ⟨m₁, a₁, _, rfl, by simpa using hnone, by simp⟩

/-- A send event queues the longest prefix of its packets that there is room for,
and succeeds exactly when that is all of them. -/
theorem handle_queues {m : SenderMachine WIN MTU} (hl : Layout m) {e : Event}
    (he : (∃ target data, e = .sendRequest target data) ∨ ∃ target, e = .sendEos target)
    (a : SenderActions) :
    ∃ m' a' res, m.handle e a = (m', a', res) ∧
      Queues m a ((m.intended e).take (m.roomFor (m.intended e))) m' a' ∧
      (res = .ok () ↔ m.roomFor (m.intended e) = (m.intended e).length) := by
  rcases he with ⟨target, data, rfl⟩ | ⟨target, rfl⟩
  · simp only [handle, handleSendRequest, intended]
    by_cases hone : data.length ≤ m.maxPayloadPerPacket
    · rw [if_pos hone, if_pos hone]
      obtain ⟨m', a', res, hq, hspec⟩ := queuePacket_queues hl target data .unsegmented false a
      refine ⟨m', a', res, hq, ?_⟩
      simp only [roomFor, List.map_cons, List.map_nil, admitted]
      split at hspec
      · rename_i h
        obtain ⟨rfl, hqs⟩ := hspec
        rw [if_pos h]
        exact ⟨hqs, by simp⟩
      · rename_i h
        obtain ⟨⟨e, rfl⟩, hqs⟩ := hspec
        rw [if_neg h]
        exact ⟨hqs, by simp⟩
    · rw [if_neg hone, if_neg hone]
      obtain ⟨m', a', res, hq, hqs, hres⟩ := queueAll_queues hl target
        (segments m.maxPayloadPerPacket (data.length + WIN + 1) true data) a
      refine ⟨m', a', res, hq, ?_, ?_⟩
      · simpa only [roomFor, List.map_map, Function.comp_def] using hqs
      · simpa only [roomFor, List.map_map, Function.comp_def, List.length_map] using hres
  · simp only [handle, queueEos, intended, roomFor, List.map_cons, List.map_nil, admitted,
      List.length_nil, Nat.zero_le, and_true, List.length_singleton]
    cases hfind : m.findSlot fun x => x.state = .empty with
    | none =>
      have hfull := (findSlot_empty_none_iff m).1 hfind
      rw [if_neg (by omega)]
      exact ⟨_, _, _, rfl, .done _ _, by simp⟩
    | some i =>
      rw [if_pos (availableWindow_pos hfind)]
      refine ⟨_, _, _, rfl, ?_, by simp⟩
      exact .assign i ⟨target, .unsegmented, [], false, true⟩ hfind (Nat.zero_le _) (.done _ _)

end SenderMachine

end Srspp
end Leodos
