/-
The reference backend refines the reorder window.

The window accepts packet numbers and releases packets; the backend accepts 14-bit
counts and pushes packets into its reassembly.  A call that returns no error does
what the window does and pushes exactly the packets the window releases.
-/
import Leodos.Reorder.Window
import Leodos.Srspp.Framing
import Leodos.Srspp.Receiver.Ideal
import Leodos.Srspp.Receiver.Window

namespace Leodos
namespace Srspp

open Spp Reorder

variable {REASM WIN : Nat}

/-! ## Pushing a released run -/

namespace Reassembly

def pushAll (r : Reassembly REASM) : List Packet → Except ReceiverError (Reassembly REASM)
  | [] => .ok r
  | p :: ps =>
      match r.push p.1 p.2 with
      | .error e => .error e
      | .ok r' => pushAll r' ps

theorem pushAll_cons_ok {r r'' : Reassembly REASM} {p : Packet} {ps : List Packet}
    (h : r.pushAll (p :: ps) = .ok r'') :
    ∃ r', r.push p.1 p.2 = .ok r' ∧ r'.pushAll ps = .ok r'' := by
  rw [pushAll] at h
  cases hp : r.push p.1 p.2 with
  | error e =>
    rw [hp] at h
    cases h
  | ok r' =>
    rw [hp] at h
    exact ⟨r', rfl, h⟩

theorem push_eq_deliverPacket {r : Reassembly REASM} {p : Packet}
    (h : r.message = none ∨ ¬ IsEos p) : r.push p.1 p.2 = r.deliverPacket p.1 p.2 := by
  have hskip : (p.2.isEmpty && p.1 == .unsegmented && r.completeMessageLen.isSome) = false := by
    rw [← message_isSome]
    rcases h with h | h
    · rw [h, Option.isSome_none, Bool.and_false]
    · rw [Bool.and_eq_false_iff, Bool.and_eq_false_iff]
      refine Or.inl ?_
      by_cases hf : p.1 = .unsegmented
      · exact Or.inl (by simpa using fun hnil => h ⟨hf, hnil⟩)
      · exact Or.inr (by simpa using hf)
  rw [push, hskip, if_neg Bool.false_ne_true]

/-- A packet that fits does what `feed` says, unless it is a marker that finds a
message waiting. -/
theorem push_feed {r : Reassembly REASM} {p : Packet} (h : r.message = none ∨ ¬ IsEos p)
    (hfit : Fits REASM r.partialMessage p) :
    ∃ r', r.push p.1 p.2 = .ok r' ∧ r'.partialMessage = (feed r.partialMessage p).1 ∧
      r'.message = (feed r.partialMessage p).2 := by
  rw [push_eq_deliverPacket h]
  obtain ⟨flags, payload⟩ := p
  cases flags with
  | unsegmented =>
    obtain ⟨r', hr, hm, hp⟩ := deliverPacket_unsegmented (r := r) hfit
    exact ⟨r', hr, hp, hm⟩
  | first =>
    obtain ⟨r', hr, hm, hp⟩ := deliverPacket_first (r := r) hfit
    exact ⟨r', hr, hp, hm⟩
  | continuation =>
    obtain ⟨q, hq, hlen⟩ := hfit
    obtain ⟨r', hr, hm, hp⟩ := deliverPacket_continuation hq hlen
    exact ⟨r', hr, by rw [hp, hq]; rfl, hm⟩
  | last =>
    obtain ⟨q, hq, hlen⟩ := hfit
    obtain ⟨r', hr, hm, hp⟩ := deliverPacket_last hq hlen
    exact ⟨r', hr, hp, by rw [hm, hq]; rfl⟩

theorem feed_snd_of_not_completes (opened : Option Bytes) {p : Packet} (h : ¬ Completes p) :
    (feed opened p).2 = none := by
  obtain ⟨flags, payload⟩ := p
  cases flags with
  | unsegmented => exact absurd (Or.inl rfl) h
  | last => exact absurd (Or.inr rfl) h
  | first | continuation => rfl

theorem push_eos_waiting {r : Reassembly REASM} {p : Packet} (h : IsEos p) {m : Bytes}
    (hm : r.message = some m) : r.push p.1 p.2 = .ok r := by
  have hskip : (p.2.isEmpty && p.1 == .unsegmented && r.completeMessageLen.isSome) = true := by
    rw [← message_isSome, hm, h.1, h.2]
    rfl
  rw [push, hskip, if_pos rfl]

theorem partialMessage_eq_none_of_message {r : Reassembly REASM} {m : Bytes}
    (h : r.message = some m) : r.partialMessage = none := by
  cases hp : r.partialMessage with
  | none => rfl
  | some q =>
    rw [message_eq_none_of_open hp] at h
    cases h

theorem pushAll_append {r r₁ : Reassembly REASM} {ps qs : List Packet} (h : r.pushAll ps = .ok r₁) :
    r.pushAll (ps ++ qs) = r₁.pushAll qs := by
  induction ps generalizing r with
  | nil =>
    cases h
    rfl
  | cons p ps ih =>
    obtain ⟨r', hp, hps⟩ := pushAll_cons_ok h
    rw [List.cons_append, pushAll, hp]
    exact ih hps

theorem pushAll_sublist {r : Reassembly REASM} {ps : List Packet}
    (hfit : FitsAll REASM r.partialMessage ps) :
    ∃ r', r.pushAll ps = .ok r' ∧ r'.partialMessage = (feedAll r.partialMessage ps).1 ∧
      r'.message.toList.Sublist (r.message.toList ++ (feedAll r.partialMessage ps).2) := by
  induction ps generalizing r with
  | nil => exact ⟨r, rfl, rfl, by simp [feedAll]⟩
  | cons p ps ih =>
    obtain ⟨r₁, hpush, hpart, hsub⟩ : ∃ r₁, r.push p.1 p.2 = .ok r₁ ∧
        r₁.partialMessage = (feed r.partialMessage p).1 ∧
        r₁.message.toList.Sublist (r.message.toList ++ (feed r.partialMessage p).2.toList) := by
      by_cases hskip : r.message = none ∨ ¬ IsEos p
      · obtain ⟨r₁, hpush, hpart, hmsg⟩ := push_feed hskip hfit.1
        exact ⟨r₁, hpush, hpart, hmsg ▸ List.sublist_append_right _ _⟩
      · have heos : IsEos p := Decidable.not_not.1 fun h => hskip (Or.inr h)
        cases hm : r.message with
        | none => exact absurd (Or.inl hm) hskip
        | some m =>
          refine ⟨r, push_eos_waiting heos hm, ?_, hm ▸ List.sublist_append_left _ _⟩
          rw [partialMessage_eq_none_of_message hm]
          obtain ⟨flags, payload⟩ := p
          obtain rfl : flags = .unsegmented := heos.1
          rfl
    obtain ⟨r', hps, hp', hsub'⟩ := ih (by rw [hpart]; exact hfit.2)
    refine ⟨r', by simp only [pushAll, hpush]; exact hps, by rw [hp', hpart]; rfl, ?_⟩
    rw [hpart] at hsub'
    refine hsub'.trans ?_
    simp only [feedAll]
    rw [← List.append_assoc]
    exact hsub.append_right _

theorem pushAll_feedAll {r : Reassembly REASM} (h : r.message = none) {ps : List Packet}
    (hfit : FitsAll REASM r.partialMessage ps) (hlast : ∀ p ∈ ps.dropLast, ¬ Completes p) :
    ∃ r', r.pushAll ps = .ok r' ∧ r'.partialMessage = (feedAll r.partialMessage ps).1 ∧
      r'.message.toList = (feedAll r.partialMessage ps).2 := by
  induction ps generalizing r with
  | nil => exact ⟨r, rfl, rfl, by rw [h]; rfl⟩
  | cons p ps ih =>
    obtain ⟨r₁, hpush, hpart, hmsg⟩ := push_feed (Or.inl h) hfit.1
    cases ps with
    | nil =>
      refine ⟨r₁, by simp [pushAll, hpush], hpart, ?_⟩
      simp [feedAll, hmsg]
    | cons p' ps =>
      have hno : ¬ Completes p := hlast p (by simp)
      rw [feed_snd_of_not_completes _ hno] at hmsg
      obtain ⟨r₂, hr₂, hp₂, hm₂⟩ := ih hmsg (by rw [hpart]; exact hfit.2) fun x hx =>
        hlast x (by
          rw [List.dropLast_cons_cons]
          exact List.mem_cons_of_mem _ hx)
      refine ⟨r₂, by simp only [pushAll, hpush]; exact hr₂, ?_, ?_⟩
      · rw [hp₂, hpart]
        rfl
      · rw [hm₂, hpart]
        simp [feedAll, feed_snd_of_not_completes _ hno]

theorem pushAll_last {r : Reassembly REASM} {ps : List Packet} {p : Packet}
    (hfit : FitsAll REASM r.partialMessage (ps ++ [p])) (heos : ∀ x ∈ ps ++ [p], ¬ IsEos x) :
    ∃ r', r.pushAll (ps ++ [p]) = .ok r' ∧
      r'.partialMessage = (feedAll r.partialMessage (ps ++ [p])).1 ∧
      r'.message = (feed (feedAll r.partialMessage ps).1 p).2 := by
  induction ps generalizing r with
  | nil =>
    obtain ⟨r₁, hpush, hpart, hmsg⟩ := push_feed (Or.inr (heos p (by simp))) hfit.1
    exact ⟨r₁, by simp [pushAll, hpush], hpart, hmsg⟩
  | cons x ps ih =>
    obtain ⟨r₁, hpush, hpart, -⟩ := push_feed (Or.inr (heos x (by simp))) hfit.1
    obtain ⟨r₂, hr₂, hp₂, hm₂⟩ := ih (by rw [hpart]; exact hfit.2) fun y hy =>
      heos y (List.mem_cons_of_mem _ hy)
    refine ⟨r₂, by simp only [List.cons_append, pushAll, hpush]; exact hr₂, ?_, ?_⟩
    · rw [hp₂, hpart]
      rfl
    · rw [hm₂, hpart]
      rfl

end Reassembly

/-! ## The window behind the backend -/

def Window.Holds (w : Window Packet) (a : Nat) : Prop := (w.held a).isSome = true

/-- The slots hold the packets of the window. -/
structure Contents (WIN : Nat) (slots : Nat → Packet) (w : Window Packet) : Prop where
  slot : ∀ a p, w.held a = some p → slots (slotIdx WIN (seqOf a)) = p

structure Refines (WIN : Nat) (q : IdealReceiver REASM) (w : Window Packet) : Prop extends
    Contents WIN q.slots w where
  atRest : AtRest WIN q.base q.occupied w.next (Window.Holds w)

theorem refines_new (WIN REASM : Nat) : Refines WIN (.new idealSlots REASM) .empty where
  slot := by simp [Window.empty]
  atRest := by
    have hnone : Window.Holds (Window.empty : Window Packet) = fun _ => False := by
      funext a
      simp [Window.Holds, Window.empty]
    rw [hnone]
    exact atRest_new WIN

theorem holds_release (w : Window Packet) :
    Window.Holds ⟨w.next + 1, Function.update w.held w.next none⟩ =
      fun a => Window.Holds w a ∧ a ≠ w.next := by
  funext a
  by_cases ha : a = w.next
  · simp [Window.Holds, ha]
  · simp [Window.Holds, ha]

section Calls

variable (hW : 0 < WIN) (hW16 : WIN ≤ 16)

include hW hW16 in
theorem deliverBuffered_release {fuel : Nat} {q : IdealReceiver REASM} {w : Window Packet}
    (hc : Contents WIN q.slots w)
    (ht : Tracks WIN q.base q.occupied w.next w.next (Window.Holds w))
    (hfuel : ∀ a, Window.Holds w a → a < w.next + fuel) {reasm : Reassembly REASM}
    (hpush : q.reasm.pushAll (w.release fuel).1 = .ok reasm) :
    ∃ q', q.deliverBuffered idealSlots WIN fuel = some (q', .ok ()) ∧
      Refines WIN q' (w.release fuel).2 ∧ q'.reasm = reasm := by
  induction fuel generalizing q w with
  | zero =>
    have hnone : ¬ Window.Holds w w.next := fun hn => by
      have := hfuel _ hn
      omega
    simp only [Window.release, Reassembly.pushAll, Except.ok.injEq] at hpush
    exact ⟨_, rfl, ⟨⟨hc.slot⟩, ht.settle hnone⟩, hpush⟩
  | succ fuel ih =>
    simp only [Backend.deliverBuffered]
    cases hnext : w.held w.next with
    | none =>
      have hnone : ¬ Window.Holds w w.next := by simp [Window.Holds, hnext]
      have hset : ¬ q.occupied.isSet (slotIdx WIN q.base.expectedSeq) = true := fun hs =>
        hnone ((ht.isSet_next hW).1 hs)
      simp only [Window.release, hnext, Reassembly.pushAll, Except.ok.injEq] at hpush ⊢
      rw [if_neg hset]
      exact ⟨_, rfl, ⟨⟨hc.slot⟩, ht.settle hnone⟩, hpush⟩
    | some p =>
      have hn : Window.Holds w w.next := by simp [Window.Holds, hnext]
      rw [if_pos ((ht.isSet_next hW).2 hn)]
      have hslot : q.slots (slotIdx WIN q.base.expectedSeq) = p := by
        rw [ht.expected]
        exact hc.slot _ _ hnext
      simp only [Window.release, hnext] at hpush ⊢
      obtain ⟨reasm₁, hp₁, hpush⟩ := Reassembly.pushAll_cons_ok hpush
      simp only [idealSlots, hslot, hp₁]
      have hrel := ht.release hW hW16 hn
      rw [← holds_release] at hrel
      refine ih (w := ⟨w.next + 1, Function.update w.held w.next none⟩) ⟨fun a p' ha => ?_⟩ hrel
        (fun a ha => ?_) hpush
      · by_cases hne : a = w.next
        · subst hne
          simp at ha
        · simp only [Function.update_of_ne hne] at ha
          exact hc.slot a p' ha
      · have hh : Window.Holds w a ∧ a ≠ w.next := by
          simpa only [holds_release] using ha
        have := hfuel a hh.1
        simp only
        omega

/-- Inside the window a count denotes the packet that carries it. -/
def Denotes (WIN : Nat) (w : Window Packet) (a : Nat) : Prop :=
  (seqOf a - seqOf w.next).toNat < WIN → a = w.next + (seqOf a - seqOf w.next).toNat

/-- A packet that the window will hold shares its slot neither with a held packet
nor with one expected before it. -/
def SlotApart (WIN : Nat) (w : Window Packet) (a : Nat) : Prop :=
  w.next < a → a < w.next + WIN → w.held a = none →
    ∀ b, (Window.Holds w b ∨ w.next < b ∧ b < a) →
      slotIdx WIN (seqOf b) ≠ slotIdx WIN (seqOf a)

theorem denotes_distance {w : Window Packet} {a : Nat} (hlo : w.next ≤ a)
    (hhi : a < w.next + WIN) (hW16 : WIN ≤ 16) : (seqOf a - seqOf w.next).toNat = a - w.next := by
  rw [seqOf_sub_toNat hlo]
  omega

include hW hW16 in
/-- Step lemma of the refinement: the backend does with a packet what the window
does, when the reassembly takes the packets that become deliverable. -/
theorem handleData_accept {q : IdealReceiver REASM} {w : Window Packet} (h : Refines WIN q w)
    {a : Nat} {p : Packet} (hden : Denotes WIN w a) (hapart : SlotApart WIN w a)
    {reasm : Reassembly REASM}
    (hpush : q.reasm.pushAll (w.accept WIN a p).1 = .ok reasm) :
    ∃ q' outcome, q.handleData idealSlots WIN (seqOf a) p.1 p.2 = some (q', .ok outcome) ∧
      Refines WIN q' (w.accept WIN a p).2 ∧ q'.reasm = reasm := by
  have hmax : maxAhead WIN = WIN := Nat.mod_eq_of_lt (by omega)
  have hdist : q.base.distance (seqOf a) = (seqOf a - seqOf w.next).toNat := by
    rw [ReceiverBase.distance, h.atRest.expected]
  simp only [Backend.handleData, hdist, hmax]
  by_cases hd : (seqOf a - seqOf w.next).toNat = 0
  · have ha : a = w.next := by
      have := hden (by omega)
      omega
    subst ha
    simp only [Window.accept, if_true] at hpush ⊢
    rw [if_pos hd]
    obtain ⟨reasm₁, hp₁, hpush⟩ := Reassembly.pushAll_cons_ok hpush
    simp only [hp₁]
    have hbound : ∀ b, Window.Holds w.pass b → b < w.pass.next + WIN := fun b hb => by
      have := (h.atRest.ahead b hb).2
      simp only [Window.pass]
      omega
    obtain ⟨q', hq', href, hreasm⟩ := deliverBuffered_release hW hW16
      (q := { q with reasm := reasm₁, base := q.base.advance }) (w := w.pass)
      ⟨h.slot⟩ (h.atRest.pass hW16) hbound hpush
    simp only [hq']
    exact ⟨q', _, rfl, href, hreasm⟩
  · have hne : a ≠ w.next := by
      rintro rfl
      simp at hd
    rw [if_neg hd]
    simp only [Window.accept, if_neg hne] at hpush ⊢
    have hfresh : (seqOf a - seqOf w.next).toNat < WIN →
        (q.base.isOooDuplicate (seqOf a - seqOf w.next).toNat = false ↔ w.held a = none) := by
      intro hlt
      have haw := hden hlt
      have hbit := h.atRest.bitmap ((seqOf a - seqOf w.next).toNat - 1) (by omega)
      rw [show w.next + 1 + ((seqOf a - seqOf w.next).toNat - 1) = a by omega] at hbit
      rw [isOooDuplicate_eq _ (by omega), Bool.eq_false_iff, Ne, hbit, Window.Holds]
      cases w.held a <;> simp
    by_cases hnew : w.next < a ∧ a < w.next + WIN ∧ (w.held a).isNone = true
    · have hnone : w.held a = none := by simpa using hnew.2.2
      have hda := denotes_distance (Nat.le_of_lt hnew.1) hnew.2.1 hW16
      have hlt : (seqOf a - seqOf w.next).toNat < WIN := by omega
      rw [if_pos hnew] at hpush ⊢
      rw [if_pos ⟨hlt, (hfresh hlt).2 hnone⟩]
      have hsep := hapart hnew.1 hnew.2.1 hnone
      have hfree : ¬ q.occupied.isSet (slotIdx WIN (seqOf a)) = true := by
        intro hs
        obtain ⟨b, hb, hidx⟩ := (h.atRest.occupied _ (slotIdx_lt hW _)).1 hs
        exact hsep b (Or.inl hb) hidx
      have hadd : w.next + (seqOf a - seqOf w.next).toNat = a := by omega
      have hrec := h.atRest.record hW hW16 (d := (seqOf a - seqOf w.next).toNat) (by omega) hlt
        (fun d' hd' hlt' => by
          rw [hadd]
          exact hsep _ (Or.inr ⟨by omega, by omega⟩))
      rw [hadd] at hrec
      have hholds : Window.Holds { w with held := Function.update w.held a (some p) } =
          fun b => Window.Holds w b ∨ b = a := by
        funext b
        by_cases hb : b = a
        · simp [Window.Holds, hb]
        · simp [Window.Holds, hb]
      simp only [Backend.storeOoo, if_neg hfree, idealSlots]
      simp only [Reassembly.pushAll, Except.ok.injEq] at hpush
      refine ⟨_, _, rfl, ⟨⟨fun b x hb => ?_⟩, ?_⟩, hpush⟩
      · by_cases hba : b = a
        · subst hba
          simp only [Function.update_self, Option.some.injEq] at hb
          simp only [Function.update_self, ← hb]
        · simp only [Function.update_of_ne hba] at hb
          have hslot : slotIdx WIN (seqOf b) ≠ slotIdx WIN (seqOf a) :=
            hsep b (Or.inl (by simp [Window.Holds, hb]))
          simp only [Function.update_of_ne hslot]
          exact h.slot b x hb
      · rw [hholds]
        exact hrec
    · rw [if_neg hnew] at hpush ⊢
      have hskip : ¬ ((seqOf a - seqOf w.next).toNat < WIN ∧
          q.base.isOooDuplicate (seqOf a - seqOf w.next).toNat = false) := by
        rintro ⟨hlt, hdup⟩
        have haw := hden hlt
        exact hnew ⟨by omega, by omega, by simp [(hfresh hlt).1 hdup]⟩
      rw [if_neg hskip]
      simp only [Reassembly.pushAll, Except.ok.injEq] at hpush
      exact ⟨q, _, rfl, h, hpush⟩

end Calls

end Srspp
end Leodos

/-
A backend that follows a reorder window over a stream of packets.

`Follows` is what every driver of a backend keeps: the backend is a reference
backend that refines the window, the window holds packets of the stream, and the
open message is the one the released packets leave open.  An arrival inside the
conditions pushes the released packets; what becomes of the completed message is
left to the driver.
-/

namespace Leodos
namespace Srspp

open Spp Reorder

variable {σ : Type} {S : Slots σ} {WIN REASM : Nat} {stream : List Packet}

structure Follows (S : Slots σ) (WIN : Nat) (stream : List Packet) (r : Backend σ REASM)
    (w : Window Packet) : Prop where
  backend : ∃ q : IdealReceiver REASM, Matches S WIN r q ∧ Refines WIN q w
  source : Window.AtRest WIN stream w
  opened : r.reasm.partialMessage = (feedAll none (stream.take w.next)).1

theorem follows_new (S : Slots σ) (WIN REASM : Nat) (stream : List Packet) :
    Follows S WIN stream (.new S REASM) .empty where
  backend := ⟨_, matches_new S WIN REASM, refines_new WIN REASM⟩
  source := Window.atRest_empty WIN stream
  opened := rfl

namespace Follows

variable {r : Backend σ REASM} {w : Window Packet}

theorem expected (h : Follows S WIN stream r w) : r.base.expectedSeq = seqOf w.next := by
  obtain ⟨q, hmatch, href⟩ := h.backend
  rw [hmatch.base]
  exact href.atRest.expected

theorem takeMessage (h : Follows S WIN stream r w) : Follows S WIN stream r.takeMessage.2 w := by
  obtain ⟨q, hmatch, href⟩ := h.backend
  refine ⟨⟨q.takeMessage.2, ⟨hmatch.base, hmatch.occupied, ?_, hmatch.load⟩, ?_⟩, h.source, ?_⟩
  · exact congrArg (fun x => x.takeMessage.2) hmatch.reasm
  · exact ⟨⟨href.slot⟩, href.atRest⟩
  · exact h.opened

theorem fits (h : Follows S WIN stream r w) (hfit : FitsAll REASM none stream) {a : Nat}
    {p : Packet} (hp : stream[a]? = some p) :
    FitsAll REASM r.reasm.partialMessage (w.accept WIN a p).1 := by
  rw [h.opened]
  exact fitsAll_run hfit (h.source.accept hp).2.1

theorem feedAll_accept (h : Follows S WIN stream r w) {a : Nat} {p : Packet}
    (hp : stream[a]? = some p) :
    feedAll none (stream.take (w.accept WIN a p).2.next) =
      ((feedAll r.reasm.partialMessage (w.accept WIN a p).1).1,
        (feedAll none (stream.take w.next)).2 ++
          (feedAll r.reasm.partialMessage (w.accept WIN a p).1).2) := by
  rw [(h.source.accept hp).2.1, feedAll_append, h.opened]

/-- Step lemma.  An arrival whose released packets the reassembly takes pushes
them. -/
theorem accept (h : Follows S WIN stream r w) (hW : 0 < WIN) (hW16 : WIN ≤ 16) {a : Nat}
    {p : Packet} (hp : stream[a]? = some p) (hden : Denotes WIN w a) (hapart : SlotApart WIN w a)
    (hkeep : KeepsStored S WIN r (.handleData (seqOf a) p.1 p.2)) {reasm : Reassembly REASM}
    (hpush : r.reasm.pushAll (w.accept WIN a p).1 = .ok reasm)
    (hpart : reasm.partialMessage = (feedAll r.reasm.partialMessage (w.accept WIN a p).1).1) :
    ∃ r' outcome, r.handleData S WIN (seqOf a) p.1 p.2 = some (r', .ok outcome) ∧
      Follows S WIN stream r' (w.accept WIN a p).2 ∧ r'.reasm = reasm := by
  obtain ⟨q, hmatch, href⟩ := h.backend
  rw [hmatch.reasm] at hpush
  obtain ⟨q', outcome, hq', href', hreasm⟩ := handleData_accept hW hW16 href hden hapart hpush
  obtain ⟨r', q'', res, hr', hq'', hmatch'⟩ := matches_handleData hW (by omega) hmatch hkeep
  rw [hq', Option.some.injEq, Prod.mk.injEq] at hq''
  obtain ⟨rfl, rfl⟩ := hq''
  have hreasm' : r'.reasm = reasm := hmatch'.reasm.trans hreasm
  refine ⟨r', outcome, hr', ⟨⟨q', hmatch', href'⟩, (h.source.accept hp).1, ?_⟩, hreasm'⟩
  rw [hreasm', hpart, h.feedAll_accept hp]

end Follows

end Srspp
end Leodos
