/-
In-order, exactly-once delivery.

Packets of one stream arrive in any order, with any repetition, and the consumer
takes the message after every arrival.  One reassembly holds one completed message,
so an arrival that releases a completing packet and then anything else loses a
message; runs without such an arrival deliver the stream.
-/
import Leodos.Srspp.Receiver.Equivalence
import Leodos.Srspp.Receiver.Refine
import Leodos.Transition.System

namespace Leodos
namespace Srspp

open Spp Reorder Transition

/-- A receiver with what arrived at it and what was taken from it.  `window` and
`offered` depend on the arrivals only: the packets a reorder window would hold, and
the packets that arrived while inside the window. -/
structure Delivery (σ : Type) (REASM : Nat) where
  receiver : Backend σ REASM
  window : Window Packet
  offered : Nat → Prop
  taken : List Bytes

namespace Delivery

variable {σ : Type} {REASM : Nat}

def start (S : Slots σ) (REASM : Nat) : Delivery σ REASM :=
  ⟨.new S REASM, .empty, fun _ => False, []⟩

/-- The state after `handle_data` left `r` behind for packet `a` and the message
was taken. -/
def taking (WIN : Nat) (d : Delivery σ REASM) (a : Nat) (p : Packet) (r : Backend σ REASM) :
    Delivery σ REASM where
  receiver := r.takeMessage.2
  window := (d.window.accept WIN a p).2
  offered n := d.offered n ∨ n = a ∧ d.window.next ≤ n ∧ n < d.window.next + WIN
  taken := d.taken ++ r.takeMessage.1.toList

/-- The arrival of packet `a` of the stream finds a receiver that can take it:
its count is not mistaken for another packet of the window, its slot is its own,
the storage keeps what it holds, and of the packets that become deliverable only
the last one completes a message. -/
structure Admits (S : Slots σ) (WIN : Nat) (stream : List Packet) (d : Delivery σ REASM)
    (a : Nat) : Prop where
  denotes : Denotes WIN d.window a
  apart : SlotApart WIN d.window a
  keeps : ∀ p, stream[a]? = some p →
    KeepsStored S WIN d.receiver (.handleData (seqOf a) p.1 p.2)
  oneMessage : ∀ p, stream[a]? = some p →
    ∀ x ∈ (d.window.accept WIN a p).1.dropLast, ¬ Completes x

end Delivery

/-- Packets of `stream` arriving at a receiver, each step an arrival and a
`take_message`. -/
def delivery {σ : Type} (S : Slots σ) (WIN REASM : Nat) (stream : List Packet) :
    System (Delivery σ REASM) Nat where
  init d := d = .start S REASM
  step d a d' := ∃ p r res, stream[a]? = some p ∧
    d.receiver.handleData S WIN (seqOf a) p.1 p.2 = some (r, res) ∧ d' = d.taking WIN a p r

section Run

variable {σ : Type} {S : Slots σ} {WIN REASM : Nat} {stream : List Packet}

/-- What a run keeps: the receiver follows the window, and together with the open
message the taken messages are the packets released. -/
structure Delivery.Inv (S : Slots σ) (WIN : Nat) (stream : List Packet) (d : Delivery σ REASM) :
    Prop where
  follows : Follows S WIN stream d.receiver d.window
  waiting : d.receiver.reasm.message = none
  taken : d.taken = (feedAll none (stream.take d.window.next)).2
  offered : ∀ n, d.offered n → n < d.window.next ∨ (d.window.held n).isSome

theorem Delivery.inv_start : (Delivery.start S REASM).Inv S WIN stream where
  follows := follows_new S WIN REASM stream
  waiting := rfl
  taken := rfl
  offered := by simp [start]

variable (hW : 0 < WIN) (hW16 : WIN ≤ 16) (hfit : FitsAll REASM none stream)

include hW hW16 hfit in
/-- Step lemma.  The call succeeds and the released packets are fed. -/
theorem Delivery.Inv.arrive {d : Delivery σ REASM} (h : d.Inv S WIN stream) {a : Nat}
    {p : Packet} (hp : stream[a]? = some p) (hok : d.Admits S WIN stream a) :
    ∃ r outcome, d.receiver.handleData S WIN (seqOf a) p.1 p.2 = some (r, .ok outcome) ∧
      (d.taking WIN a p r).Inv S WIN stream := by
  obtain ⟨reasm, hpush, hpart, hmsg⟩ :=
    Reassembly.pushAll_feedAll h.waiting (h.follows.fits hfit hp) (hok.oneMessage p hp)
  obtain ⟨r, outcome, hr, hfollows, hreasm⟩ :=
    h.follows.accept hW hW16 hp hok.denotes hok.apart (hok.keeps p hp) hpush hpart
  obtain ⟨-, -, hle, hkept⟩ := h.follows.source.accept hp
  refine ⟨r, outcome, hr, hfollows.takeMessage, rfl, ?_, ?_⟩
  · show d.taken ++ r.reasm.takeMessage.1.toList = _
    rw [Reassembly.takeMessage_fst, hreasm, hmsg, h.taken]
    exact (congrArg Prod.snd (h.follows.feedAll_accept hp)).symm
  · rintro n (hn | hn)
    · rcases h.offered n hn with hlt | hheld
      · exact Or.inl (Nat.lt_of_lt_of_le hlt hle)
      · exact hkept n (Or.inl hheld)
    · exact hkept n (Or.inr hn)

include hW hW16 hfit in
theorem Delivery.inv_of_reaches {d : Delivery σ REASM}
    (h : (delivery S WIN REASM stream).Reaches (Delivery.Admits S WIN stream) d) :
    d.Inv S WIN stream := by
  refine h.invariant (Delivery.Inv S WIN stream) ?_ ?_
  · rintro _ rfl
    exact Delivery.inv_start
  · rintro d a _ hinv hok ⟨p, r, res, hp, hr, rfl⟩
    obtain ⟨r', outcome, hr', hinv'⟩ := hinv.arrive hW hW16 hfit hp hok
    rw [hr, Option.some.injEq, Prod.mk.injEq] at hr'
    obtain ⟨rfl, -⟩ := hr'
    exact hinv'

end Run

/-- Exactly-once, in-order delivery by either backend.  In a run whose arrivals are
all admitted, what was taken is a prefix of what was sent, it is all of it once every
packet was offered inside the window, and the next admitted arrival succeeds. -/
theorem delivers_exactly_once {σ : Type} {S : Slots σ} {WIN REASM mp : Nat}
    {msgs : List Bytes} (hW : 0 < WIN) (hW16 : WIN ≤ 16)
    (hmp : ∀ msg ∈ msgs, msg.length ≤ mp ∨ 0 < mp) (hroom : ∀ msg ∈ msgs, msg.length ≤ REASM)
    {d : Delivery σ REASM}
    (h : (delivery S WIN REASM (packets mp msgs)).Reaches
      (Delivery.Admits S WIN (packets mp msgs)) d) :
    d.taken <+: msgs ∧
      ((∀ n < (packets mp msgs).length, d.offered n) → d.taken = msgs) ∧
      ∀ a < (packets mp msgs).length, d.Admits S WIN (packets mp msgs) a →
        ∃ p r outcome, (packets mp msgs)[a]? = some p ∧
          d.receiver.handleData S WIN (seqOf a) p.1 p.2 = some (r, .ok outcome) := by
  have hfit := fitsAll_packets hmp hroom
  have hinv := Delivery.inv_of_reaches hW hW16 hfit h
  have hall := feedAll_packets hmp
  have hsplit := feedAll_append none ((packets mp msgs).take d.window.next)
    ((packets mp msgs).drop d.window.next)
  rw [List.take_append_drop, hall, ← hinv.taken] at hsplit
  refine ⟨⟨_, (congrArg Prod.snd hsplit).symm⟩, fun hoff => ?_, fun a ha hok => ?_⟩
  · have hend := hinv.follows.source.complete fun n hn => hinv.offered n (hoff n hn)
    rw [hinv.taken, List.take_of_length_le hend, hall]
  · have hp : (packets mp msgs)[a]? = some (packets mp msgs)[a] := List.getElem?_eq_getElem ha
    obtain ⟨r, outcome, hr, -⟩ := hinv.arrive hW hW16 hfit hp hok
    exact ⟨_, r, outcome, hp, hr⟩

/-- The state after packet `a` of `stream` arrived at a Fast receiver of eight
slots. -/
def arriveFast (stream : List Packet) (d : Delivery FastSlots 8) (a : Nat) :
    Delivery FastSlots 8 :=
  let p := (stream[a]?).getD (.unsegmented, [])
  match d.receiver.handleData (FastReceiver.slotsOf 8 4) 8 (seqOf a) p.1 p.2 with
  | none => d
  | some (r, _) => d.taking 8 a p r

def startFast : Delivery FastSlots 8 := .start (FastReceiver.slotsOf 8 4) 8

theorem arriveFast_step (stream : List Packet) (d : Delivery FastSlots 8) (a : Nat) (p : Packet)
    (hp : stream[a]? = some p)
    (hr : (d.receiver.handleData (FastReceiver.slotsOf 8 4) 8 (seqOf a) p.1 p.2).isSome = true) :
    (delivery (FastReceiver.slotsOf 8 4) 8 8 stream).step d a (arriveFast stream d a) ∧
      ∀ n, d.offered n ∨ n = a ∧ d.window.next ≤ n ∧ n < d.window.next + 8 →
        (arriveFast stream d a).offered n := by
  obtain ⟨⟨r, res⟩, hr⟩ := Option.isSome_iff_exists.1 hr
  have he : arriveFast stream d a = d.taking 8 a p r := by
    simp only [arriveFast, hp, Option.getD_some, hr]
  rw [he]
  exact ⟨⟨p, r, res, hp, hr, rfl⟩, fun n hn => hn⟩

/-- Of two one-byte messages the second arrives first; both arrive inside the window
and only the second is ever taken. -/
theorem overtaken_message_lost :
    ∃ d : Delivery FastSlots 8,
      (delivery (FastReceiver.slotsOf 8 4) 8 8 (packets 4 [[1], [2]])).Reachable d ∧
      (∀ n < (packets 4 [[1], [2]]).length, d.offered n) ∧ d.taken = [[2]] := by
  let stream : List Packet := packets 4 [[1], [2]]
  obtain ⟨hs₁, ho₁⟩ := arriveFast_step stream startFast 1 (.unsegmented, [2]) (by decide)
    (by decide)
  obtain ⟨hs₀, ho₀⟩ := arriveFast_step stream (arriveFast stream startFast 1) 0
    (.unsegmented, [1]) (by decide) (by decide)
  refine ⟨_, .step 0 (.step 1 (.init rfl) trivial hs₁) trivial hs₀, fun n hn => ?_, by decide⟩
  have h2 : n < 2 := hn
  rcases Nat.lt_or_ge n 1 with h | h
  · exact ho₀ n (Or.inr ⟨by omega, by rw [show n = 0 by omega]; decide⟩)
  · exact ho₀ n (Or.inl (ho₁ n (Or.inr ⟨by omega, by rw [show n = 1 by omega]; decide⟩)))

/-- The two segments of one message arrive in reverse and the message is taken. -/
theorem delivers_exactly_once_reversed :
    ∃ d : Delivery FastSlots 8,
      (delivery (FastReceiver.slotsOf 8 4) 8 8 (packets 2 [[1, 2, 3]])).Reachable d ∧
      d.taken = [[1, 2, 3]] := by
  let stream : List Packet := packets 2 [[1, 2, 3]]
  let S := FastReceiver.slotsOf 8 4
  obtain ⟨hs₁, ho₁⟩ := arriveFast_step stream startFast 1 (.last, [3]) (by decide) (by decide)
  obtain ⟨hs₀, ho₀⟩ := arriveFast_step stream (arriveFast stream startFast 1) 0 (.first, [1, 2])
    (by decide) (by decide)
  have h₁ : startFast.Admits S 8 stream 1 := by
    refine ⟨by unfold Denotes; decide, ?_, ?_, ?_⟩
    · rintro - - - b (hb | hb)
      · simp [Window.Holds, startFast, Delivery.start, Window.empty] at hb
      · omega
    · intro p hp
      refine keepsStored_fast (by decide) (by decide) ?_ fun _ => ?_
      all_goals
        cases hp
        decide
    · intro p hp x hx
      cases hp
      cases hx
  have h₀ : (arriveFast stream startFast 1).Admits S 8 stream 0 := by
    refine ⟨by unfold Denotes; decide, fun h => absurd h (by decide), ?_, ?_⟩
    · intro p hp
      refine keepsStored_fast (by decide) (by decide) ?_ fun _ => ?_
      all_goals
        cases hp
        decide
    · intro p hp
      cases hp
      decide
  have hrun : (delivery S 8 8 stream).Reaches (Delivery.Admits S 8 stream)
      (arriveFast stream (arriveFast stream startFast 1) 0) :=
    .step 0 (.step 1 (.init rfl) h₁ hs₁) h₀ hs₀
  refine ⟨_, hrun.reachable,
    (delivers_exactly_once (by decide) (by decide) (by decide) (by decide) hrun).2.1 ?_⟩
  intro n hn
  have h2 : n < 2 := hn
  rcases Nat.lt_or_ge n 1 with h | h
  · exact ho₀ n (Or.inr ⟨by omega, by rw [show n = 0 by omega]; decide⟩)
  · exact ho₀ n (Or.inl (ho₁ n (Or.inr ⟨by omega, by rw [show n = 1 by omega]; decide⟩)))

end Srspp
end Leodos
