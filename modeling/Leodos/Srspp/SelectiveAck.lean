/-
Selective acknowledgement: what the receiver reports and what the sender frees.

`History` follows a receiver run in packet numbers that never wrap: which packets
were delivered or skipped, and which are buffered.  The receiver's bit `d - 1`
stands for the packet at forward distance `d` from the expected one; the sender
reads bit `k` as the packet `k` behind the expected one.  An acknowledgement is
therefore sound only while no outstanding packet sits directly before a buffered
one without being buffered itself.
-/
import Leodos.Srspp.Receiver.Ack
import Leodos.Srspp.Receiver.Window
import Leodos.Srspp.Sender.Acknowledge
import Leodos.Transition.System

namespace Leodos
namespace Srspp

open Spp Transition

/-! ## The history of a receiver run -/

/-- The packets a run has settled (delivered or skipped) and buffered, and the
number of the expected packet. -/
structure History where
  next : Nat
  held : Nat → Prop
  settled : Nat → Prop

namespace History

variable {σ : Type} {REASM : Nat}

def start : History := ⟨0, fun _ => False, fun _ => False⟩

/-- Packet `a` went into the buffer in the call `c` from `r`. -/
def Stores (WIN : Nat) (w : History) (r : Backend σ REASM) (c : Call) (a : Nat) : Prop :=
  ∃ seq flags payload, c = .handleData seq flags payload ∧ r.base.distance seq ≠ 0 ∧
    a = w.next + r.base.distance seq ∧ r.occupied.isSet (slotIdx WIN seq) = false

/-- The history after the call `c` from `r` to `r'`: the expected number moved
over settled packets, and a packet is buffered while its slot stays occupied. -/
def after (WIN : Nat) (w : History) (r : Backend σ REASM) (c : Call) (r' : Backend σ REASM) :
    History where
  next := w.next + (r'.base.expectedSeq - r.base.expectedSeq).toNat
  held a := (w.held a ∨ w.Stores WIN r c a) ∧ r'.occupied.isSet (slotIdx WIN (seqOf a)) = true
  settled a := w.settled a ∨
    (w.next ≤ a ∧ a < w.next + (r'.base.expectedSeq - r.base.expectedSeq).toNat ∧
      (a = w.next ∨ w.held a))

end History

def receiver {σ : Type} (S : Slots σ) (WIN REASM : Nat) :
    System (Backend σ REASM × History) Call where
  init s := s = (Backend.new S REASM, History.start)
  step s c s' := (∃ obs, s.1.call S WIN c = some (s'.1, obs)) ∧
    s'.2 = s.2.after WIN s.1 c s'.1

/-- A packet is buffered only in a slot that no earlier packet of the window
needs. -/
def StoresApart (WIN : Nat) {σ : Type} {REASM : Nat} (s : Backend σ REASM × History) :
    Call → Prop
  | .handleData seq _ _ => SlotClear WIN s.1.base s.1.occupied (s.1.base.distance seq)
  | _ => True

/-! ## The bookkeeping follows the history -/

structure History.Describes (WIN : Nat) {σ : Type} {REASM : Nat} (w : History)
    (r : Backend σ REASM) : Prop where
  atRest : AtRest WIN r.base r.occupied w.next w.held
  settled : ∀ a, w.settled a ↔ a < w.next

section Run

variable {σ : Type} {S : Slots σ} {WIN REASM : Nat} (hW : 0 < WIN) (hW16 : WIN ≤ 16)
variable {w : History} {r r' : Backend σ REASM}

theorem History.Stores.free {c : Call} {a : Nat} (hexp : r.base.expectedSeq = seqOf w.next)
    (h : w.Stores WIN r c a) : r.occupied.isSet (slotIdx WIN (seqOf a)) = false := by
  obtain ⟨seq, -, -, -, -, ha, hfree⟩ := h
  rw [ha, ReceiverBase.distance, hexp, seqOf_add_sub]
  exact hfree

theorem History.Stores.unique {c : Call} {a b : Nat} (ha : w.Stores WIN r c a)
    (hb : w.Stores WIN r c b) : a = b := by
  obtain ⟨seq, flags, payload, hc, -, ha, -⟩ := ha
  obtain ⟨seq', flags', payload', hc', -, hb, -⟩ := hb
  rw [hc] at hc'
  injection hc' with hs
  rw [ha, hb, hs]

include hW in
theorem History.Describes.slot_inj (h : w.Describes WIN r) {c : Call} {a b : Nat}
    (ha : w.held a ∨ w.Stores WIN r c a) (hb : w.held b ∨ w.Stores WIN r c b)
    (he : slotIdx WIN (seqOf a) = slotIdx WIN (seqOf b)) : a = b := by
  have hset : ∀ x, w.held x → r.occupied.isSet (slotIdx WIN (seqOf x)) = true := fun x hx =>
    (h.atRest.occupied _ (slotIdx_lt hW _)).2 ⟨x, hx, rfl⟩
  rcases ha with ha | ha <;> rcases hb with hb | hb
  · exact h.atRest.slot_inj ha hb he
  · have hfree := hb.free h.atRest.expected
    rw [← he, hset a ha] at hfree
    cases hfree
  · have hfree := ha.free h.atRest.expected
    rw [he, hset b hb] at hfree
    cases hfree
  · exact ha.unique hb

include hW in
/-- A call that leaves a window at rest, with nothing passed that was not there,
leaves the one its history says. -/
theorem History.Describes.after (h : w.Describes WIN r) {c : Call} {n : Nat}
    {held' : Nat → Prop} (hlo : w.next ≤ n) (hhi : n ≤ w.next + 1 + WIN) (hW16 : WIN ≤ 16)
    (hpassed : ∀ a, w.next ≤ a → a < n → a = w.next ∨ w.held a)
    (hsub : ∀ a, held' a → w.held a ∨ w.Stores WIN r c a)
    (hrest : AtRest WIN r'.base r'.occupied n held') :
    (w.after WIN r c r').Describes WIN r' := by
  have hnext : w.next + (r'.base.expectedSeq - r.base.expectedSeq).toNat = n := by
    rw [hrest.expected, h.atRest.expected, seqOf_sub_toNat hlo]
    omega
  have hheld : (w.after WIN r c r').held = held' := by
    funext a
    apply propext
    have hset := hrest.occupied _ (slotIdx_lt hW (seqOf a))
    constructor
    · rintro ⟨ha, hs⟩
      obtain ⟨b, hb, hidx⟩ := hset.1 hs
      exact h.slot_inj hW (hsub b hb) ha hidx ▸ hb
    · exact fun ha => ⟨hsub a ha, hset.2 ⟨a, ha, rfl⟩⟩
  constructor
  · rw [hheld, show (w.after WIN r c r').next = n from hnext]
    exact hrest
  · intro a
    show w.settled a ∨ _ ↔ a < _
    rw [h.settled a]
    simp only [History.after, hnext]
    constructor
    · rintro (ha | ha) <;> omega
    · intro ha
      by_cases hlt : a < w.next
      · exact Or.inl hlt
      · exact Or.inr ⟨by omega, ha, hpassed a (by omega) ha⟩

include hW hW16 in
theorem History.Describes.pass (h : w.Describes WIN r) (c : Call)
    {reasm : Reassembly REASM} {res : Except ReceiverError Unit}
    (hd : Backend.deliverBuffered S WIN WIN { r with reasm, base := r.base.advance } =
      some (r', res)) :
    (w.after WIN r c r').Describes WIN r' := by
  obtain ⟨n, held', hlo, hhi, hrun, hsub, hrest⟩ :=
    deliverBuffered_tracks hW hW16 (h.atRest.pass hW16)
      (fun a ha => by
        have := (h.atRest.ahead a ha).2
        omega) hd
  refine h.after hW (by omega) (by omega) hW16 ?_ (fun a ha => Or.inl (hsub a ha)) hrest
  intro a ha han
  by_cases hne : a = w.next
  · exact Or.inl hne
  · exact Or.inr (hrun a (by omega) han)

include hW hW16 in
theorem History.Describes.idle (h : w.Describes WIN r) (c : Call) (hbase : r'.base = r.base)
    (hocc : r'.occupied = r.occupied) : (w.after WIN r c r').Describes WIN r' := by
  refine h.after hW (Nat.le_refl _) (by omega) hW16 (by omega) (fun a ha => Or.inl ha) ?_
  rw [hbase, hocc]
  exact h.atRest

include hW hW16 in
theorem History.Describes.store (h : w.Describes WIN r) {seq : SequenceCount}
    {flags : SequenceFlag} {payload : Bytes} (hd : r.base.distance seq ≠ 0)
    (hdW : r.base.distance seq < maxAhead WIN)
    (hdup : r.base.isOooDuplicate (r.base.distance seq) = false)
    (hclear : SlotClear WIN r.base r.occupied (r.base.distance seq))
    (hbase : r'.base = r.base.recordOoo (r.base.distance seq))
    (hocc : r'.occupied = r.occupied.set (slotIdx WIN seq)) :
    (w.after WIN r (.handleData seq flags payload) r').Describes WIN r' := by
  have hseq : seqOf (w.next + r.base.distance seq) = seq := by
    rw [ReceiverBase.distance, h.atRest.expected, seqOf_add_sub]
  have hslot : ∀ d, r.base.expectedSeq + BitVec.ofNat 14 d = seqOf (w.next + d) := by
    intro d
    rw [h.atRest.expected, seqOf_add]
  obtain ⟨hfree, hapart⟩ := hclear (by omega) hdW hdup
  simp only [hslot] at hfree hapart
  have hrest := h.atRest.record hW hW16 (by omega) (by
      have : maxAhead WIN ≤ WIN := Nat.mod_le _ _
      omega)
    (fun d' hlo hhi => hapart d' hhi hlo)
  rw [hseq, ← hbase, ← hocc] at hrest
  refine h.after hW (Nat.le_refl _) (by omega) hW16 (by omega) ?_ hrest
  rintro a (ha | rfl)
  · exact Or.inl ha
  · refine Or.inr ⟨seq, flags, payload, rfl, hd, rfl, ?_⟩
    rw [← hseq]
    exact hfree

include hW hW16 in
theorem History.Describes.step (h : w.Describes WIN r) {c : Call} {obs : Observation}
    (hok : StoresApart WIN (r, w) c) (hc : r.call S WIN c = some (r', obs)) :
    (w.after WIN r c r').Describes WIN r' := by
  cases c with
  | handleData seq flags payload =>
    simp only [Backend.call, Option.map_eq_some_iff, Prod.mk.injEq] at hc
    obtain ⟨⟨r₁, res⟩, hd, rfl, -⟩ := hc
    simp only [Backend.handleData] at hd
    split at hd
    · split at hd
      · simp only [Option.some.injEq, Prod.mk.injEq] at hd
        obtain ⟨rfl, -⟩ := hd
        exact h.idle hW hW16 _ rfl rfl
      · split at hd <;> simp only [Option.some.injEq, Prod.mk.injEq, reduceCtorEq] at hd
        all_goals
          obtain ⟨rfl, -⟩ := hd
          rename_i hloop
          exact h.pass hW hW16 _ hloop
    · rename_i hne
      split at hd
      · rename_i hnew
        simp only [Backend.storeOoo] at hd
        obtain ⟨hfree, -⟩ := hok (Nat.pos_of_ne_zero hne) hnew.1 hnew.2
        have hseq : r.base.expectedSeq + BitVec.ofNat 14 (r.base.distance seq) = seq := by
          unfold ReceiverBase.distance
          bv_omega
        rw [hseq] at hfree
        rw [hfree] at hd
        simp only [Bool.false_eq_true, if_false] at hd
        cases hst : S.store r.slots (slotIdx WIN seq) flags payload with
        | none => simp [hst] at hd
        | some out =>
          obtain ⟨slots, res'⟩ := out
          cases res' with
          | error e =>
            simp only [hst, Option.some.injEq, Prod.mk.injEq] at hd
            obtain ⟨rfl, -⟩ := hd
            exact h.idle hW hW16 _ rfl rfl
          | ok u =>
            simp only [hst, Option.some.injEq, Prod.mk.injEq] at hd
            obtain ⟨rfl, -⟩ := hd
            exact h.store hW hW16 hne hnew.1 hnew.2 hok rfl rfl
      · simp only [Option.some.injEq, Prod.mk.injEq] at hd
        obtain ⟨rfl, -⟩ := hd
        exact h.idle hW hW16 _ rfl rfl
  | skipGap =>
    simp only [Backend.call, Option.map_eq_some_iff, Prod.mk.injEq] at hc
    obtain ⟨⟨r₁, res⟩, hd, rfl, -⟩ := hc
    simp only [Backend.skipGap] at hd
    split at hd <;> simp only [Option.some.injEq, Prod.mk.injEq, reduceCtorEq] at hd
    all_goals
      obtain ⟨rfl, -⟩ := hd
      rename_i hloop
      exact h.pass hW hW16 _ hloop
  | takeMessage =>
    simp only [Backend.call, Option.some.injEq, Prod.mk.injEq] at hc
    obtain ⟨rfl, -⟩ := hc
    exact h.idle hW hW16 _ rfl rfl
  | consumeMessage =>
    simp only [Backend.call, Option.some.injEq, Prod.mk.injEq] at hc
    obtain ⟨rfl, -⟩ := hc
    exact h.idle hW hW16 _ rfl rfl

include hW hW16 in
theorem describes_of_reaches {s : Backend σ REASM × History}
    (h : (receiver S WIN REASM).Reaches (StoresApart WIN) s) : s.2.Describes WIN s.1 := by
  refine h.invariant (fun s => s.2.Describes WIN s.1) ?_ ?_
  · rintro _ rfl
    exact ⟨atRest_new WIN, fun a => by simp [History.start]⟩
  · rintro ⟨r, w⟩ c ⟨r', w'⟩ hinv hok ⟨⟨obs, hc⟩, hw⟩
    show w'.Describes WIN r'
    rw [show w' = w.after WIN r c r' from hw]
    exact hinv.step hW hW16 hok hc

include hW hW16 in
theorem reaches_of_dvd (hdvd : WIN ∣ 16384) {s : Backend σ REASM × History}
    (h : (receiver S WIN REASM).Reachable s) :
    (receiver S WIN REASM).Reaches (StoresApart WIN) s := by
  induction h with
  | init h => exact .init h
  | step c _ _ hs ih =>
    refine .step c ih ?_ hs
    have hd := describes_of_reaches hW hW16 ih
    cases c with
    | handleData seq flags payload => exact slotClear_of_dvd hW hdvd hW16 hd.atRest _
    | skipGap | takeMessage | consumeMessage => trivial

end Run

/-! ## Agreement with the sender -/

/-- A sender whose slot `i` carries packet `num i`, every outstanding packet
within half the sequence space of the expected one. -/
structure Outstanding {N MTU : Nat} (w : History) (m : SenderMachine N MTU)
    (num : Fin N → Nat) : Prop where
  seq : ∀ i, (m.slots i).Occupied → (m.slots i).seq = seqOf (num i)
  near : ∀ i, (m.slots i).Occupied → num i < w.next + 8192 ∧ w.next ≤ num i + 8192

/-- The acknowledgement frees only packets that the receiver settled or holds. -/
def AckSound {N MTU : Nat} (w : History) (m : SenderMachine N MTU) (num : Fin N → Nat)
    (ack : AckInfo) : Prop :=
  ∀ actions i, (m.slots i).Occupied →
    ¬ ((m.handleAck ack.cumulativeAck ack.selectiveBitmap actions).1.slots i).Occupied →
      w.settled (num i) ∨ w.held (num i)

theorem cumulativelyAcked_seqOf {n a : Nat} (hlo : n ≤ a + 8192) (hhi : a < n + 8192)
    (h : SenderMachine.cumulativelyAcked (seqOf n - 1) (seqOf a) = true) : a < n := by
  have h' : (seqOf n - 1 - seqOf a).toNat < 8191 := by
    simpa [SenderMachine.cumulativelyAcked] using h
  unfold seqOf at h'
  bv_omega

theorem bitSeq_seqOf (n k : Nat) : SenderMachine.bitSeq (seqOf n - 1) k = seqOf (n + k) := by
  unfold SenderMachine.bitSeq seqOf
  bv_omega

theorem eq_of_seqOf_eq {n a b : Nat} (ha : a < n + 8192 ∧ n ≤ a + 8192)
    (hb : b < n + 8192 ∧ n ≤ b + 8192) (h : seqOf a = seqOf b) : a = b := by
  have := seqOf_inj h
  omega

/-- In every state of a receiver run, the acknowledgement built there is sound for
a sender if and only if no packet the sender still waits for, and the receiver
does not hold, comes directly before a buffered one. -/
theorem ackSound_iff {σ : Type} {S : Slots σ} {WIN REASM N MTU : Nat} (hW : 0 < WIN)
    (hW16 : WIN ≤ 16) {r : Backend σ REASM} {w : History}
    (h : (receiver S WIN REASM).Reaches (StoresApart WIN) (r, w))
    {m : SenderMachine N MTU} {num : Fin N → Nat} (ho : Outstanding w m num)
    {s : AckState} {ack : AckInfo}
    (hack : (s.emitAck r.base.expectedSeq r.base.recvBitmap).2.ack = some ack) :
    AckSound w m num ack ↔
      ∀ i, (m.slots i).Occupied → w.next ≤ num i → w.held (num i + 1) → w.held (num i) := by
  have hd : w.Describes WIN r := describes_of_reaches hW hW16 h
  simp only [AckState.emitAck, Option.some.injEq] at hack
  subst hack
  simp only [AckSound]
  rw [hd.atRest.expected]
  constructor
  · intro hsound i hi hnext hheld
    have hahead := (hd.atRest.ahead _ hheld).2
    have hbit : r.base.recvBitmap.getLsbD (num i - w.next) = true := by
      rw [hd.atRest.bitmap _ (by omega),
        show w.next + 1 + (num i - w.next) = num i + 1 by omega]
      exact hheld
    have hseq : (m.slots i).seq = SenderMachine.bitSeq (seqOf w.next - 1) (num i - w.next) := by
      rw [bitSeq_seqOf, ho.seq i hi, show w.next + (num i - w.next) = num i by omega]
    obtain ⟨j, hj, hjseq, hjfree⟩ :=
      SenderMachine.handleAck_frees .new (k := num i - w.next) (by omega) hbit hi hseq
    rw [ho.seq i hi, ho.seq j hj] at hjseq
    have hji := eq_of_seqOf_eq (ho.near j hj) (ho.near i hi) hjseq
    rcases hsound .new j hj hjfree with hs | hs
    · rw [hd.settled] at hs
      omega
    · exact hji ▸ hs
  · intro hcond actions i hi hfree
    rcases (SenderMachine.handleAck_freesOnly m (seqOf w.next - 1) r.base.recvBitmap
      actions).slot i with he | ⟨-, hacked, -⟩
    · rw [he] at hfree
      exact absurd hi hfree
    · rw [ho.seq i hi] at hacked
      rcases hacked with hcum | ⟨k, hk, hbit, hseq⟩
      · exact Or.inl ((hd.settled _).2
          (cumulativelyAcked_seqOf (ho.near i hi).2 (ho.near i hi).1 hcum))
      · rw [bitSeq_seqOf] at hseq
        have hnum : num i = w.next + k := eq_of_seqOf_eq (ho.near i hi) (by omega) hseq
        refine Or.inr (hcond i hi (by omega) ?_)
        rw [hnum, show w.next + k + 1 = w.next + 1 + k by omega]
        exact (hd.atRest.bitmap k hk).1 hbit

def twoQueued : SenderMachine 2 32 :=
  let m₀ : SenderMachine 2 32 := .new ⟨.ground 0, 10, 3, 13⟩ 16
  let m₁ := (m₀.handle (.sendRequest (.ground 1) [1]) .new).1
  (m₁.handle (.sendRequest (.ground 1) [2]) .new).1

/-- The call that hands packet `seq` of two such messages to a receiver. -/
def arrival (seq : SequenceCount) : Call := .handleData seq .unsegmented [2]

def gotPacket (seq : SequenceCount) : FastReceiver 16 :=
  (((Backend.new (FastReceiver.slotsOf 8 4) 16).call (FastReceiver.slotsOf 8 4) 8
    (arrival seq)).getD (.new (FastReceiver.slotsOf 8 4) 16, .message none)).1

def gotPacketHistory (seq : SequenceCount) : History :=
  History.start.after 8 (Backend.new (FastReceiver.slotsOf 8 4) 16) (arrival seq) (gotPacket seq)

theorem gotPacket_reaches : (receiver (FastReceiver.slotsOf 8 4) 8 16).Reaches (StoresApart 8)
    (gotPacket 1, gotPacketHistory 1) :=
  .step (arrival 1) (.init rfl) (show SlotClear _ _ _ _ from fun _ _ _ => ⟨by decide, by decide⟩)
    ⟨⟨_, rfl⟩, rfl⟩

/-- Where the window divides the sequence space, the expected number and the bitmap say in every
reachable state what was delivered or given up and what is held. -/
theorem describes_of_dvd {σ : Type} {S : Slots σ} {WIN REASM : Nat} (hW : 0 < WIN)
    (hW16 : WIN ≤ 16) (hdvd : WIN ∣ 16384) {s : Backend σ REASM × History}
    (h : (receiver S WIN REASM).Reachable s) : s.2.Describes WIN s.1 :=
  describes_of_reaches hW hW16 (reaches_of_dvd hW hW16 hdvd h)

theorem describes_of_dvd_first : (gotPacketHistory 1).Describes 8 (gotPacket 1) :=
  describes_of_dvd (by decide) (by decide) (by decide)
    gotPacket_reaches.reachable

/-- Packet 1 arrives and packet 0 does not; the acknowledgement frees packet 0. -/
theorem ackSound_lost_packet :
    ∃ (s : FastReceiver 16 × History) (a : AckState) (ack : AckInfo),
      (receiver (FastReceiver.slotsOf 8 4) 8 16).Reachable s ∧
      (a.emitAck s.1.base.expectedSeq s.1.base.recvBitmap).2.ack = some ack ∧
      Outstanding s.2 twoQueued (fun i => i.val) ∧
      ¬ AckSound s.2 twoQueued (fun i => i.val) ack := by
  refine ⟨(gotPacket 1, gotPacketHistory 1), .new ⟨.ground 1, true, 5, none⟩ (.ground 0),
    ⟨.ground 0, 16383, 1⟩, gotPacket_reaches.reachable, by decide,
    ⟨by decide, fun i _ => ?_⟩, ?_⟩
  · have hnext : (gotPacketHistory 1).next = 0 := by decide
    show i.val < (gotPacketHistory 1).next + 8192 ∧ (gotPacketHistory 1).next ≤ i.val + 8192
    omega
  · intro h
    rcases h .new 0 (by decide) (by decide) with hs | hs
    · rcases hs with hs | ⟨-, hlt, -⟩
      · exact hs
      · exact absurd hlt (by decide)
    · exact absurd hs.2 (by decide)

def gotBoth : FastReceiver 16 :=
  (((gotPacket 1).call (FastReceiver.slotsOf 8 4) 8 (arrival 2)).getD
    (gotPacket 1, .message none)).1

def gotBothHistory : History :=
  (gotPacketHistory 1).after 8 (gotPacket 1) (arrival 2) gotBoth

def firstGivenUp : SenderMachine 3 32 :=
  let m₀ : SenderMachine 3 32 := .new ⟨.ground 0, 10, 0, 13⟩ 16
  let m₁ := (m₀.handle (.sendRequest (.ground 1) [1]) .new).1
  let m₂ := (m₁.handle (.sendRequest (.ground 1) [2]) .new).1
  let m₃ := (m₂.handle (.sendRequest (.ground 1) [3]) .new).1
  ((m₃.markTransmitted 0).handle (.retransmitTimeout 0) .new).1

/-- The two bits free packet 1, which the receiver holds, and leave packet 2. -/
theorem ackSound_iff_in_order :
    AckSound gotBothHistory firstGivenUp (fun i => i.val) ⟨.ground 0, 16383, 3⟩ := by
  have hnext : gotBothHistory.next = 0 := by decide
  have hreaches : (receiver (FastReceiver.slotsOf 8 4) 8 16).Reaches (StoresApart 8)
      (gotBoth, gotBothHistory) :=
    .step (arrival 2) gotPacket_reaches
      (show SlotClear _ _ _ _ from fun _ _ _ => ⟨by decide, by decide⟩)
      ⟨⟨_, rfl⟩, rfl⟩
  have hfirst : (gotPacketHistory 1).held 1 :=
    ⟨Or.inr ⟨1, _, _, rfl, by decide, by decide, by decide⟩, by decide⟩
  refine (ackSound_iff (by decide) (by decide) hreaches ⟨by decide, fun i _ => by omega⟩
    (s := .new ⟨.ground 1, true, 5, none⟩ (.ground 0)) (by decide)).2 fun i hi _ _ => ?_
  match i, hi with
  | 0, hi => exact absurd hi (by decide)
  | 1, _ => exact ⟨Or.inl hfirst, by decide⟩
  | 2, _ => exact ⟨Or.inr ⟨2, _, _, rfl, by decide, by decide, by decide⟩, by decide⟩

end Srspp
end Leodos
