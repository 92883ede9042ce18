/-
No packet is stranded by the driver.

A slot stays alive through the action queue while it waits for transmission and
through its timer while it waits for an acknowledgement.  `Coupled` is that relation
together with what the queue may hold in the middle of a drain; each machine event
and each executed action keeps it, as long as nothing is lost on the way.
-/
import Mathlib.Data.List.Perm.Subperm
import Leodos.Srspp.Sender.Actions
import Leodos.Srspp.Sender.Flight
import Leodos.Srspp.Tokio.Sender
import Leodos.Transition.System

namespace Leodos
namespace Srspp

open Isl Memory Spp Transition SenderMachine

namespace SrsppSender

variable {WIN MTU : Nat}

/-- Every occupied slot waits for transmission with its `Transmit` queued, or for an
acknowledgement with its timer armed; every armed timer belongs to an occupied
slot. -/
structure Unstranded (s : SrsppSender WIN MTU) : Prop where
  slot : ∀ i, (s.machine.slots i).Occupied →
    (s.machine.slots i).state = .pendingTransmit ∧
        (∃ rto, .transmit (s.machine.slots i).seq rto ∈ s.actions.inner) ∨
      (s.machine.slots i).state = .awaitingAck ∧
        s.retransmitTimers (s.machine.slots i).seq = true
  timer : ∀ seq, s.retransmitTimers seq = true →
    ∃ i, (s.machine.slots i).Occupied ∧ (s.machine.slots i).seq = seq

/-- The relation during a drain: timers of freed slots are armed only while their
`StopTimer` is still queued. -/
structure Coupled (s : SrsppSender WIN MTU) : Prop where
  layout : Layout s.machine
  carries : ∃ log num, Carries s.machine log num
  builds : ∀ i, (s.machine.slots i).Occupied → HEADER_SIZE + (s.machine.slots i).len ≤ MTU
  distinct : ∀ i j, (s.machine.slots i).Occupied → (s.machine.slots j).Occupied →
    (s.machine.slots i).seq = (s.machine.slots j).seq → i = j
  pending : ∀ i, (s.machine.slots i).state = .pendingTransmit →
    ∃ rto, .transmit (s.machine.slots i).seq rto ∈ s.actions.inner
  awaiting : ∀ i, (s.machine.slots i).state = .awaitingAck →
    s.retransmitTimers (s.machine.slots i).seq = true
  armed : ∀ seq, s.retransmitTimers seq = true →
    (∃ i, (s.machine.slots i).Occupied ∧ (s.machine.slots i).seq = seq) ∨
      .stopTimer seq ∈ s.actions.inner
  stopped : ∀ seq, .stopTimer seq ∈ s.actions.inner →
    ∀ i, (s.machine.slots i).Occupied → (s.machine.slots i).seq ≠ seq

/-- The relation between two calls: no `StopTimer` is left in the queue. -/
structure Settled (s : SrsppSender WIN MTU) : Prop extends Coupled s where
  noStop : ∀ seq, .stopTimer seq ∉ s.actions.inner

theorem Settled.unstranded {s : SrsppSender WIN MTU} (h : Settled s) : Unstranded s where
  slot i hi := by
    cases hst : (s.machine.slots i).state with
    | empty => exact absurd hst hi
    | pendingTransmit => exact Or.inl ⟨rfl, h.pending i hst⟩
    | awaitingAck => exact Or.inr ⟨rfl, h.awaiting i hst⟩
  timer seq hseq := (h.armed seq hseq).resolve_right (h.noStop seq)

theorem settled_new (config : SenderConfig) (bufSize : Nat) :
    Settled (SrsppSender.new config bufSize : SrsppSender WIN MTU) where
  layout := Layout.new config bufSize
  carries := ⟨[], fun _ => 0, rfl, fun i hi => absurd rfl hi, fun i _ hi => absurd rfl hi⟩
  builds _ hi := absurd rfl hi
  distinct _ _ hi := absurd rfl hi
  pending _ hi := by cases hi
  awaiting _ hi := by cases hi
  armed _ h := by cases h
  stopped _ h := by cases h
  noStop _ h := by cases h

theorem occupied_pending {x : PacketMeta} (h : x.state = .pendingTransmit) : x.Occupied := by
  simp [PacketMeta.Occupied, h]

theorem occupied_awaiting {x : PacketMeta} (h : x.state = .awaitingAck) : x.Occupied := by
  simp [PacketMeta.Occupied, h]

/-! ## Draining -/

@[simp] theorem setTimer_machine (s : SrsppSender WIN MTU) (seq : SequenceCount) (b : Bool) :
    (s.setTimer seq b).machine = s.machine := rfl

@[simp] theorem setTimer_actions (s : SrsppSender WIN MTU) (seq : SequenceCount) (b : Bool) :
    (s.setTimer seq b).actions = s.actions := rfl

theorem setTimer_timers (s : SrsppSender WIN MTU) (seq x : SequenceCount) (b : Bool) :
    (s.setTimer seq b).retransmitTimers x = if x = seq then b else s.retransmitTimers x := by
  simp [setTimer, Function.update_apply]

/-- The slots after `mark_transmitted`: those with the number that waited for
transmission now wait for an acknowledgement. -/
theorem markTransmitted_slot {m : SenderMachine WIN MTU} {seq : SequenceCount}
    (hdistinct : ∀ i j, (m.slots i).Occupied → (m.slots j).Occupied →
      (m.slots i).seq = (m.slots j).seq → i = j) (i : Fin WIN) :
    (m.markTransmitted seq).slots i =
      if (m.slots i).state = .pendingTransmit ∧ (m.slots i).seq = seq then
        { m.slots i with state := .awaitingAck }
      else m.slots i := by
  unfold markTransmitted
  split
  · rename_i hfind
    have := findSlot_none hfind i
    rw [if_neg (by simpa using this)]
  · rename_i j hfind
    have hj := findSlot_some hfind
    simp only [Bool.decide_and, Bool.and_eq_true, decide_eq_true_eq] at hj
    rw [setSlot_slots]
    by_cases hij : i = j
    · subst hij
      rw [if_pos rfl, if_pos hj]
    · rw [if_neg hij, if_neg]
      rintro ⟨hst, hseq⟩
      exact hij (hdistinct i j (occupied_pending hst) (occupied_pending hj.1)
        (hseq.trans hj.2.symm))

theorem getPayload_none {m : SenderMachine WIN MTU} {seq : SequenceCount}
    (h : m.getPayload seq = none) (i : Fin WIN) (hi : (m.slots i).Occupied) :
    (m.slots i).seq ≠ seq := by
  intro hseq
  have hfind := Option.map_eq_none_iff.1 h
  have := findSlot_none hfind i
  simp [hi, hseq] at this

theorem builds_of_getPayload {m : SenderMachine WIN MTU} (hl : Layout m)
    (hb : ∀ i, (m.slots i).Occupied → HEADER_SIZE + (m.slots i).len ≤ MTU)
    {seq : SequenceCount} {x : PayloadInfo} (h : m.getPayload seq = some x) : x.Builds MTU := by
  obtain ⟨i, hi, -, hx⟩ := getPayload_slot h
  have h₁ := hl.inside i hi
  have h₂ := hl.writePos_le
  have h₃ := hb i hi
  have hlen : x.payload.length = (m.slots i).len := by
    rw [hx]
    exact slice_length (by omega)
  unfold PayloadInfo.Builds
  split <;> omega

theorem popFront_some {q q' : SenderActions} {a : SenderAction}
    (h : q.popFront = some (a, q')) : q.inner = a :: q'.inner := by
  unfold SenderActions.popFront at h
  split at h
  · cases h
  · rename_i hq
    simp only [Option.some.injEq, Prod.mk.injEq] at h
    rw [hq, ← h.1, ← h.2]

theorem popFront_none {q : SenderActions} (h : q.popFront = none) : q.inner = [] := by
  unfold SenderActions.popFront at h
  split at h
  · assumption
  · cases h

theorem Coupled.execute {s : SrsppSender WIN MTU} (h : Coupled s) {a : SenderAction}
    {actions : SenderActions} (hpop : s.actions.popFront = some (a, actions))
    {writes : List Bool} (hw : ∀ w ∈ writes, w = true) :
    ∃ s' writes', { s with actions }.execute writes a = (s', writes', .ok ()) ∧ Coupled s' ∧
      s'.actions = actions ∧ ∀ w ∈ writes', w = true := by
  have hq := popFront_some hpop
  have htail : ∀ w ∈ writes.tail, w = true := fun w hm => hw w (List.mem_of_mem_tail hm)
  have hmem : ∀ x, x ∈ actions.inner → x ∈ s.actions.inner := fun x hx => by
    rw [hq]
    exact List.mem_cons_of_mem _ hx
  have hsplit : ∀ x, x ∈ s.actions.inner → x = a ∨ x ∈ actions.inner := fun x hx => by
    rw [hq] at hx
    exact List.mem_cons.1 hx
  -- an action that touches neither slots nor timers
  have hskip : (∀ seq, a ≠ .stopTimer seq) →
      (∀ seq rto, a = .transmit seq rto → ∀ i, (s.machine.slots i).Occupied →
        (s.machine.slots i).seq ≠ seq) → Coupled { s with actions } := by
    intro hstop htrans
    refine { h with pending := fun i hi => ?_, armed := fun seq hseq => ?_,
                    stopped := fun seq hseq => h.stopped seq (hmem _ hseq) }
    · obtain ⟨rto, hr⟩ := h.pending i hi
      rcases hsplit _ hr with he | hin
      · exact absurd rfl (htrans _ rto he.symm i (occupied_pending hi))
      · exact ⟨rto, hin⟩
    · rcases h.armed seq hseq with hocc | hst
      · exact Or.inl hocc
      · exact Or.inr ((hsplit _ hst).resolve_left fun he => hstop seq he.symm)
  cases a with
  | packetLost | messageLost | spaceAvailable =>
    exact ⟨_, _, rfl, hskip (by simp) (by simp), rfl, hw⟩
  | stopTimer seq =>
    refine ⟨_, _, rfl, ?_, rfl, hw⟩
    have hfree := h.stopped seq (by rw [hq]; exact List.mem_cons_self ..)
    refine { layout := h.layout, carries := h.carries, builds := h.builds,
             distinct := h.distinct, pending := fun i hi => ?_, awaiting := fun i hi => ?_,
             armed := fun x hx => ?_, stopped := fun x hx => h.stopped x (hmem _ hx) }
    · obtain ⟨rto, hr⟩ := h.pending i hi
      exact ⟨rto, (hsplit _ hr).resolve_left (by simp)⟩
    · have hne : (s.machine.slots i).seq ≠ seq := hfree i (occupied_awaiting hi)
      show ({ s with actions }.setTimer seq false).retransmitTimers (s.machine.slots i).seq = true
      rw [setTimer_timers, if_neg hne]
      exact h.awaiting i hi
    · rw [setTimer_timers] at hx
      split at hx
      · cases hx
      · rename_i hne
        rcases h.armed x hx with hocc | hst
        · exact Or.inl hocc
        · refine Or.inr ((hsplit _ hst).resolve_left fun he => hne ?_)
          injection he
  | transmit seq rto =>
    simp only [SrsppSender.execute]
    cases hget : s.machine.getPayload seq with
    | none =>
      refine ⟨_, _, rfl, hskip (by simp) ?_, rfl, hw⟩
      intro x r he i hi
      injection he with he
      exact he ▸ getPayload_none hget i hi
    | some info =>
      have hbuild := builds_of_getPayload h.layout h.builds hget
      have hhead : writes.headD true = true := by
        cases writes with
        | nil => rfl
        | cons w ws => exact hw w (List.mem_cons_self ..)
      simp only [not_true, hbuild, if_false, hhead, Bool.true_eq_false]
      refine ⟨_, _, rfl, ?_, rfl, htail⟩
      obtain ⟨k, hk, hkseq, -⟩ := getPayload_slot hget
      have hcargo := markTransmitted_sameCargo s.machine seq
      have hslot : ∀ i, (s.machine.markTransmitted seq).slots i = _ :=
        markTransmitted_slot h.distinct
      have hsame : ∀ i, ((s.machine.markTransmitted seq).slots i).seq =
          (s.machine.slots i).seq := fun i => by
        rw [hslot]
        split <;> rfl
      have hocc : ∀ i, ((s.machine.markTransmitted seq).slots i).Occupied ↔
          (s.machine.slots i).Occupied := fun i => by
        rw [hslot]
        split
        · rename_i hi
          exact ⟨fun _ => occupied_pending hi.1, fun _ => occupied_awaiting rfl⟩
        · exact Iff.rfl
      obtain ⟨log, num, hc⟩ := h.carries
      refine { layout := hcargo.layout h.layout, carries := ⟨log, num, hc.sameCargo hcargo⟩,
               builds := fun i hi => ?_, distinct := fun i j hi hj he => ?_,
               pending := fun i hi => ?_, awaiting := fun i hi => ?_, armed := fun x hx => ?_,
               stopped := fun x hx i hi => ?_ }
      · have hlen : ((s.machine.markTransmitted seq).slots i).len = (s.machine.slots i).len := by
          rw [hslot]
          split <;> rfl
        show HEADER_SIZE + ((s.machine.markTransmitted seq).slots i).len ≤ MTU
        rw [hlen]
        exact h.builds i ((hocc i).1 hi)
      · have he' : (s.machine.slots i).seq = (s.machine.slots j).seq := by
          rw [← hsame i, ← hsame j]
          exact he
        exact h.distinct i j ((hocc i).1 hi) ((hocc j).1 hj) he'
      · show ∃ rto, .transmit ((s.machine.markTransmitted seq).slots i).seq rto ∈ actions.inner
        have hi' : ((s.machine.markTransmitted seq).slots i).state = .pendingTransmit := hi
        rw [hslot] at hi'
        split at hi'
        · cases hi'
        · rename_i hno
          obtain ⟨r, hr⟩ := h.pending i hi'
          rw [hsame]
          refine ⟨r, (hsplit _ hr).resolve_left fun he => hno ⟨hi', ?_⟩⟩
          injection he
      · rw [setTimer_timers]
        show (if ((s.machine.markTransmitted seq).slots i).seq = seq then true else
          s.retransmitTimers ((s.machine.markTransmitted seq).slots i).seq) = true
        rw [hsame]
        split
        · rfl
        · rename_i hne
          have hi' : ((s.machine.markTransmitted seq).slots i).state = .awaitingAck := hi
          rw [hslot, if_neg (fun hc => hne hc.2)] at hi'
          exact h.awaiting i hi'
      · show (∃ i, ((s.machine.markTransmitted seq).slots i).Occupied ∧
          ((s.machine.markTransmitted seq).slots i).seq = x) ∨ .stopTimer x ∈ actions.inner
        rw [setTimer_timers] at hx
        split at hx
        · rename_i hxs
          exact Or.inl ⟨k, (hocc k).2 hk, by rw [hsame, hkseq, hxs]⟩
        · rcases h.armed x hx with ⟨i, hi, hix⟩ | hst
          · exact Or.inl ⟨i, (hocc i).2 hi, by rw [hsame, hix]⟩
          · exact Or.inr ((hsplit _ hst).resolve_left (by simp))
      · show ((s.machine.markTransmitted seq).slots i).seq ≠ x
        rw [hsame]
        exact h.stopped x (hmem _ hx) i ((hocc i).1 hi)

theorem Coupled.drain {s : SrsppSender WIN MTU} (h : Coupled s) {fuel : Nat}
    (hfuel : s.actions.inner.length ≤ fuel) {writes : List Bool}
    (hw : ∀ w ∈ writes, w = true) :
    ∃ s' writes', SrsppSender.drain fuel s writes = (s', writes', .ok ()) ∧ Coupled s' ∧
      s'.actions.inner = [] ∧ ∀ w ∈ writes', w = true := by
  induction fuel generalizing s writes with
  | zero =>
    exact ⟨s, writes, rfl, h, List.length_eq_zero_iff.1 (Nat.le_zero.1 hfuel), hw⟩
  | succ fuel ih =>
    cases hpop : s.actions.popFront with
    | none =>
      exact ⟨s, writes, by simp only [SrsppSender.drain, hpop], h, popFront_none hpop, hw⟩
    | some x =>
      obtain ⟨a, actions⟩ := x
      obtain ⟨s₁, w₁, hexec, hc, hacts, hw₁⟩ := h.execute hpop hw
      have hlen : s₁.actions.inner.length ≤ fuel := by
        rw [hacts]
        rw [popFront_some hpop, List.length_cons] at hfuel
        omega
      obtain ⟨s', w', hdrain, hc', hempty, hw'⟩ := ih hc hlen hw₁
      exact ⟨s', w', by simp only [SrsppSender.drain, hpop, hexec, hdrain], hc', hempty, hw'⟩

theorem Coupled.processActions {s : SrsppSender WIN MTU} (h : Coupled s) {writes : List Bool}
    (hw : ∀ w ∈ writes, w = true) :
    ∃ s' writes', s.processActions writes = (s', writes', .ok ()) ∧ Settled s' ∧
      s'.actions.inner = [] ∧ ∀ w ∈ writes', w = true := by
  obtain ⟨s', writes', hd, hc, hempty, hw'⟩ := h.drain (Nat.le_refl _) hw
  exact ⟨s', writes', hd, ⟨hc, by simp [hempty]⟩, hempty, hw'⟩

/-! ## Machine events -/

/-- The packets that a send event admits fit the action queue and the transmit
buffer, and none of their counts is still in use. -/
structure SendHealthy (s : SrsppSender WIN MTU) (e : Event) : Prop where
  room : s.actions.inner.length + s.machine.roomFor (s.machine.intended e) ≤ MAX_ACTIONS
  builds : ∀ p ∈ (s.machine.intended e).take (s.machine.roomFor (s.machine.intended e)),
    HEADER_SIZE + p.payload.length ≤ MTU
  fresh : ∀ i, (s.machine.slots i).Occupied →
    s.machine.roomFor (s.machine.intended e) ≤
      ((s.machine.slots i).seq - s.machine.nextSeq).toNat

theorem Settled.send {s : SrsppSender WIN MTU} (h : Settled s) {e : Event}
    (he : (∃ target data, e = .sendRequest target data) ∨ ∃ target, e = .sendEos target)
    (hok : s.SendHealthy e) {m' : SenderMachine WIN MTU} {a' : SenderActions}
    {res : Except SenderError Unit} (hh : s.machine.handle e s.actions = (m', a', res)) :
    Settled { s with machine := m', actions := a' } := by
  obtain ⟨m₁, a₁, res₁, hh₁, hq, -⟩ := handle_queues h.layout he s.actions
  rw [hh, Prod.mk.injEq, Prod.mk.injEq] at hh₁
  obtain ⟨rfl, rfl, rfl⟩ := hh₁
  have hlen : ((s.machine.intended e).take (s.machine.roomFor (s.machine.intended e))).length =
      s.machine.roomFor (s.machine.intended e) := by
    have := roomFor_le s.machine (s.machine.intended e)
    rw [List.length_take]
    omega
  obtain ⟨hroom, hbuilds, hfresh⟩ := hok
  rw [← hlen] at hroom hfresh
  generalize (s.machine.intended e).take (s.machine.roomFor (s.machine.intended e)) = ps
    at hq hroom hbuilds hfresh
  have hacts := hq.actions
  have hmax : MAX_ACTIONS = 32 := rfl
  obtain ⟨log, num, hc⟩ := h.carries
  obtain ⟨num', hc', hold⟩ := hq.carries h.layout hc
  have hnum : ∀ i, (m'.slots i).Occupied →
      num' i < log.length + ps.length ∧ (m'.slots i).seq = seqOf (num' i) := by
    intro i hi
    obtain ⟨p, -, hp⟩ := hc'.cargo i hi
    have := hc'.lt_length hi
    rw [List.length_append] at this
    exact ⟨this, hp.seq⟩
  have hsame : ∀ i, (s.machine.slots i).Occupied →
      (m'.slots i).Occupied ∧ (m'.slots i).state = (s.machine.slots i).state ∧
        (m'.slots i).seq = (s.machine.slots i).seq ∧
        (m'.slots i).len = (s.machine.slots i).len := by
    intro i hi
    rcases hq.slots i with ⟨-, off, he⟩ | ⟨hno, -⟩
    · rw [he]
      exact ⟨hi, rfl, rfl, rfl⟩
    · exact absurd hi hno
  -- a count still in use is not one of the new ones
  have hclash : ∀ i j, (s.machine.slots i).Occupied → (m'.slots j).Occupied →
      log.length ≤ num' j → (m'.slots i).seq ≠ (m'.slots j).seq := by
    intro i j hi hj hge hseq
    have hf := hfresh i hi
    have hn := hnum j hj
    rw [(hsame i hi).2.2.1] at hseq
    rw [hseq, hn.2, hc.nextSeq, seqOf_sub_toNat hge] at hf
    omega
  have hstop : ∀ seq, .stopTimer seq ∉ a'.inner := by
    intro seq hmem
    rcases hacts.mem hmem with h' | h'
    · exact h.noStop seq h'
    · simp at h'
  refine ⟨{ layout := hq.layout h.layout, carries := ⟨_, num', hc'⟩, builds := fun i hi => ?_,
            distinct := fun i j hi hj hseq => ?_, pending := fun i hi => ?_,
            awaiting := fun i hi => ?_, armed := fun seq hseq => ?_,
            stopped := fun seq hseq => absurd hseq (hstop seq) }, hstop⟩
  · show HEADER_SIZE + (m'.slots i).len ≤ MTU
    rcases hq.slots i with ⟨hocc, off, he⟩ | ⟨-, hno | ⟨-, -, p, hp, hl⟩⟩
    · rw [he]
      exact h.builds i hocc
    · exact absurd hi hno
    · rw [hl]
      exact hbuilds p hp
  · have hi' : (m'.slots i).Occupied := hi
    have hj' : (m'.slots j).Occupied := hj
    have hseq' : (m'.slots i).seq = (m'.slots j).seq := hseq
    rcases hold i hi with ⟨hoi, hni⟩ | hgi <;> rcases hold j hj with ⟨hoj, hnj⟩ | hgj
    · rw [(hsame i hoi).2.2.1, (hsame j hoj).2.2.1] at hseq'
      exact h.distinct i j hoi hoj hseq'
    · exact absurd hseq' (hclash i j hoi hj' hgj)
    · exact absurd hseq'.symm (hclash j i hoj hi' hgi)
    · have hn := hnum i hi'
      have hn' := hnum j hj'
      rw [hn.2, hn'.2] at hseq'
      have := seqOf_inj hseq'
      exact hc'.distinct i j hi' hj' (by omega)
  · show ∃ rto, .transmit (m'.slots i).seq rto ∈ a'.inner
    have hi' : (m'.slots i).state = .pendingTransmit := hi
    rcases hq.slots i with ⟨hocc, off, he⟩ | ⟨-, hno | ⟨-, hseq, -⟩⟩
    · rw [he] at hi' ⊢
      obtain ⟨rto, hr⟩ := h.pending i hi'
      exact ⟨rto, hacts.old hr⟩
    · exact absurd (occupied_pending hi') hno
    · refine ⟨s.machine.config.rtoTicks, ?_⟩
      rw [← List.append_nil (List.map _ _)] at hacts
      exact hacts.new (by rw [List.length_map, seqsFrom_length]; exact hroom)
        (List.mem_map_of_mem hseq)
  · show s.retransmitTimers (m'.slots i).seq = true
    have hi' : (m'.slots i).state = .awaitingAck := hi
    rcases hq.slots i with ⟨hocc, off, he⟩ | ⟨-, hno | ⟨hst, -⟩⟩
    · rw [he] at hi' ⊢
      exact h.awaiting i hi'
    · exact absurd (occupied_awaiting hi') hno
    · rw [hst] at hi'
      cases hi'
  · obtain ⟨i, hi, hix⟩ := (h.armed seq hseq).resolve_right (h.noStop seq)
    exact Or.inl ⟨i, (hsame i hi).1, (hsame i hi).2.2.1.trans hix⟩

/-- The acknowledgement names `seq`. -/
def ackedBy (ack : SequenceCount) (bitmap : BitVec 16) (seq : SequenceCount) : Bool :=
  cumulativelyAcked ack seq ||
    (List.range 16).any fun k => bitmap.getLsbD k && decide (seq = bitSeq ack k)

theorem ackedBy_of_acked {ack : SequenceCount} {bitmap : BitVec 16} {seq : SequenceCount}
    (h : Acked ack bitmap seq) : ackedBy ack bitmap seq = true := by
  rw [ackedBy, Bool.or_eq_true]
  refine h.imp id ?_
  rintro ⟨k, hk, hbit, hseq⟩
  exact List.any_eq_true.2 ⟨k, List.mem_range.2 hk, by simp [hbit, hseq]⟩

/-- The slots in use that an acknowledgement names. -/
def ackedCount (m : SenderMachine WIN MTU) (ack : SequenceCount) (bitmap : BitVec 16) : Nat :=
  ((List.finRange WIN).filter fun i =>
    (m.slots i).Occupied ∧ ackedBy ack bitmap (m.slots i).seq).length

theorem freed_length_le {m : SenderMachine WIN MTU} {ack : SequenceCount} {bitmap : BitVec 16}
    {a : SenderActions} {freed : List (Fin WIN)} (hnodup : freed.Nodup)
    (hmem : ∀ i, i ∈ freed ↔
      (m.slots i).Occupied ∧ ¬ ((m.handleAck ack bitmap a).1.slots i).Occupied) :
    freed.length ≤ ackedCount m ack bitmap := by
  refine (List.subperm_of_subset hnodup fun i hi => ?_).length_le
  obtain ⟨hocc, hno⟩ := (hmem i).1 hi
  rcases (handleAck_freesOnly m ack bitmap a).slot i with he | ⟨-, hacked, -⟩
  · rw [he] at hno
    exact absurd hocc hno
  · rw [List.mem_filter]
    exact ⟨List.mem_finRange i, by simpa using ⟨hocc, ackedBy_of_acked hacked⟩⟩

theorem Settled.ack {s : SrsppSender WIN MTU} (h : Settled s) {ack : SequenceCount}
    {bitmap : BitVec 16}
    (hroom : s.actions.inner.length + ackedCount s.machine ack bitmap ≤ MAX_ACTIONS) :
    Coupled { s with
      machine := (s.machine.handleAck ack bitmap s.actions).1
      actions := (s.machine.handleAck ack bitmap s.actions).2 } := by
  obtain ⟨freed, tail, hnodup, hmem, htail, happ⟩ := handleAck_stops s.machine ack bitmap s.actions
  have hlen := freed_length_le hnodup hmem
  have hfrees := handleAck_freesOnly s.machine ack bitmap s.actions
  generalize s.machine.handleAck ack bitmap s.actions = out at hmem happ hfrees
  obtain ⟨m', a'⟩ := out
  have hkept : ∀ i, (m'.slots i).Occupied →
      m'.slots i = s.machine.slots i ∧ (s.machine.slots i).Occupied := fun i hi => by
    have hk := hfrees.kept hi
    exact ⟨hk, hk ▸ hi⟩
  obtain ⟨log, num, hc⟩ := h.carries
  refine { layout := hfrees.sameCargo.layout h.layout,
           carries := ⟨log, num, hc.sameCargo hfrees.sameCargo⟩, builds := fun i hi => ?_,
           distinct := fun i j hi hj hseq => ?_, pending := fun i hi => ?_,
           awaiting := fun i hi => ?_, armed := fun seq hseq => ?_,
           stopped := fun seq hseq i hi => ?_ }
  · show HEADER_SIZE + (m'.slots i).len ≤ MTU
    rw [(hkept i hi).1]
    exact h.builds i (hkept i hi).2
  · have hseq' : (m'.slots i).seq = (m'.slots j).seq := hseq
    rw [(hkept i hi).1, (hkept j hj).1] at hseq'
    exact h.distinct i j (hkept i hi).2 (hkept j hj).2 hseq'
  · have hi' : (m'.slots i).state = .pendingTransmit := hi
    show ∃ rto, .transmit (m'.slots i).seq rto ∈ a'.inner
    have hk := (hkept i (occupied_pending hi')).1
    rw [hk] at hi' ⊢
    obtain ⟨rto, hr⟩ := h.pending i hi'
    exact ⟨rto, happ.old hr⟩
  · have hi' : (m'.slots i).state = .awaitingAck := hi
    show s.retransmitTimers (m'.slots i).seq = true
    have hk := (hkept i (occupied_awaiting hi')).1
    rw [hk] at hi' ⊢
    exact h.awaiting i hi'
  · obtain ⟨i, hi, hix⟩ := (h.armed seq hseq).resolve_right (h.noStop seq)
    by_cases hi' : (m'.slots i).Occupied
    · exact Or.inl ⟨i, hi', by rw [← hix, (hkept i hi').1]⟩
    · refine Or.inr (happ.new (by rw [List.length_map]; omega) ?_)
      exact List.mem_map.2 ⟨i, (hmem i).2 ⟨hi, hi'⟩, by rw [hix]⟩
  · rcases happ.mem hseq with hold | hnew
    · exact absurd hold (h.noStop seq)
    · rcases List.mem_append.1 hnew with hst | hsp
      · obtain ⟨j, hj, he⟩ := List.mem_map.1 hst
        injection he with he
        intro hix
        have hix' : (m'.slots i).seq = seq := hix
        rw [(hkept i hi).1] at hix'
        have hij := h.distinct i j (hkept i hi).2 ((hmem j).1 hj).1 (hix'.trans he.symm)
        exact ((hmem j).1 hj).2 (hij ▸ hi)
      · obtain ⟨n, he⟩ := htail _ hsp
        cases he

/-- The timer of `seq` expired.  When its packet is to be sent again the queue has
room for the `Transmit`. -/
theorem Settled.timeout {s : SrsppSender WIN MTU} (h : Settled s) {seq : SequenceCount}
    (hroom : (∃ i, (s.machine.slots i).state = .awaitingAck ∧ (s.machine.slots i).seq = seq ∧
      (s.machine.slots i).retransmitCount < s.machine.config.maxRetransmits) →
        s.actions.inner.length < MAX_ACTIONS) :
    Settled { s.setTimer seq false with
      machine := (s.machine.handleTimeout seq s.actions).1
      actions := (s.machine.handleTimeout seq s.actions).2 } := by
  have hcargo := handleTimeout_sameCargo s.machine seq s.actions
  have hcases := handleTimeout_cases s.machine seq s.actions
  generalize s.machine.handleTimeout seq s.actions = out at hcargo hcases
  obtain ⟨m', a'⟩ := out
  obtain ⟨log, num, hc⟩ := h.carries
  have hslot : ∀ i, (m'.slots i).Occupied → (s.machine.slots i).Occupied ∧
      (m'.slots i).seq = (s.machine.slots i).seq ∧ (m'.slots i).len = (s.machine.slots i).len := by
    intro i hi
    obtain ⟨hocc, st, n, he⟩ := hcargo.slot i hi
    rw [he]
    exact ⟨hocc, rfl, rfl⟩
  -- what the three cases say about each slot and the queue
  have hstop : ∀ x, .stopTimer x ∉ a'.inner := by
    intro x hx
    rcases hcases with ⟨-, -, ha⟩ | ⟨k, -, -, ⟨-, -, as, has, ha⟩ | ⟨-, -, ha⟩⟩
    · exact h.noStop x (ha ▸ hx)
    · rcases ha.mem hx with h' | h'
      · exact h.noStop x h'
      · rcases has _ h' with he | he <;> cases he
    · rcases ha.mem hx with h' | h'
      · exact h.noStop x h'
      · simp at h'
  have hpending : ∀ i, (m'.slots i).state = .pendingTransmit →
      ∃ rto, .transmit (s.machine.slots i).seq rto ∈ a'.inner := by
    intro i hi
    rcases hcases with ⟨-, hs, ha⟩ | ⟨k, hk, hkseq, ⟨-, hs, as, -, ha⟩ | ⟨hmax, hs, ha⟩⟩
    · simp only at hs ha
      rw [hs] at hi
      rw [ha]
      exact h.pending i hi
    · simp only at hs ha
      rw [hs, Function.update_apply] at hi
      split at hi
      · cases hi
      · obtain ⟨rto, hr⟩ := h.pending i hi
        exact ⟨rto, ha.old hr⟩
    · simp only at hs ha
      rw [hs, Function.update_apply] at hi
      split at hi
      · rename_i hik
        refine ⟨s.machine.config.rtoTicks, ?_⟩
        rw [hik, hkseq]
        rw [← List.append_nil [_]] at ha
        exact ha.new (hroom ⟨k, hk, hkseq, hmax⟩) (List.mem_singleton_self _)
      · obtain ⟨rto, hr⟩ := h.pending i hi
        exact ⟨rto, ha.old hr⟩
  have hawaiting : ∀ i, (m'.slots i).state = .awaitingAck →
      (s.machine.slots i).state = .awaitingAck ∧ (s.machine.slots i).seq ≠ seq := by
    intro i hi
    rcases hcases with ⟨hnone, hs, -⟩ | ⟨k, hk, hkseq, ⟨-, hs, -⟩ | ⟨-, hs, -⟩⟩
    · simp only at hs
      rw [hs] at hi
      exact ⟨hi, fun he => hnone i ⟨hi, he⟩⟩
    all_goals
      simp only at hs
      rw [hs, Function.update_apply] at hi
      split at hi
      · cases hi
      · rename_i hik
        exact ⟨hi, fun he => hik (h.distinct i k (occupied_awaiting hi) (occupied_awaiting hk)
          (he.trans hkseq.symm))⟩
  have hocc : ∀ i, (s.machine.slots i).Occupied → (s.machine.slots i).seq ≠ seq →
      (m'.slots i).Occupied := by
    intro i hi hne
    rcases hcases with ⟨-, hs, -⟩ | ⟨k, -, hkseq, ⟨-, hs, -⟩ | ⟨-, hs, -⟩⟩
    · simp only at hs
      rw [hs]
      exact hi
    all_goals
      simp only at hs
      have hik : i ≠ k := by
        rintro rfl
        exact hne hkseq
      rw [hs, Function.update_of_ne hik]
      exact hi
  refine ⟨{ layout := hcargo.layout h.layout, carries := ⟨log, num, hc.sameCargo hcargo⟩,
            builds := fun i hi => ?_, distinct := fun i j hi hj he => ?_,
            pending := fun i hi => ?_, awaiting := fun i hi => ?_, armed := fun x hx => ?_,
            stopped := fun x hx => absurd hx (hstop x) }, hstop⟩
  · show HEADER_SIZE + (m'.slots i).len ≤ MTU
    rw [(hslot i hi).2.2]
    exact h.builds i (hslot i hi).1
  · have he' : (m'.slots i).seq = (m'.slots j).seq := he
    rw [(hslot i hi).2.1, (hslot j hj).2.1] at he'
    exact h.distinct i j (hslot i hi).1 (hslot j hj).1 he'
  · show ∃ rto, .transmit (m'.slots i).seq rto ∈ a'.inner
    rw [(hslot i (occupied_pending hi)).2.1]
    exact hpending i hi
  · show (s.setTimer seq false).retransmitTimers (m'.slots i).seq = true
    rw [(hslot i (occupied_awaiting hi)).2.1, setTimer_timers, if_neg (hawaiting i hi).2]
    exact h.awaiting i (hawaiting i hi).1
  · have hx' : (s.setTimer seq false).retransmitTimers x = true := hx
    rw [setTimer_timers] at hx'
    split at hx'
    · cases hx'
    · rename_i hne
      obtain ⟨i, hi, hix⟩ := (h.armed x hx').resolve_right (h.noStop x)
      have hi' := hocc i hi (by rw [hix]; exact hne)
      exact Or.inl ⟨i, hi', by rw [← hix]; exact (hslot i hi').2.1⟩

end SrsppSender

end Srspp
end Leodos
