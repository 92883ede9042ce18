/-
The Lite backend against the Fast one.

The same packets arrive at both and each message is taken as soon as it is ready.
Lite cannot pass an end-of-stream marker, and Fast drops a message that is completed
together with the beginning of the next one; runs without either agree.
-/
import Leodos.Srspp.Receiver.Equivalence
import Leodos.Srspp.Receiver.Refine
import Leodos.Srspp.Receiver.LiteLayout
import Leodos.Transition.System

namespace Leodos
namespace Srspp

open Spp Reorder Transition

/-- A Fast and a Lite receiver of one stream.  `window` and `arrived` depend on the
arrivals only. -/
structure Pair (REASM : Nat) where
  fast : FastReceiver REASM
  lite : LiteReceiver
  window : Window Packet
  arrived : Nat → Prop
  fastTaken : List Bytes
  liteTaken : List Bytes

namespace Pair

variable {REASM : Nat}

def start (WIN MTU REASM : Nat) : Pair REASM where
  fast := .new (FastReceiver.slotsOf WIN MTU) REASM
  lite := .new REASM
  window := .empty
  arrived := fun _ => False
  fastTaken := []
  liteTaken := []

/-- The state after the two calls for packet `a` and a `take_message` on each side. -/
def taking (WIN : Nat) (d : Pair REASM) (a : Nat) (p : Packet) (f : FastReceiver REASM)
    (l : LiteReceiver) : Pair REASM where
  fast := f.takeMessage.2
  lite := l.takeMessage.2
  window := (d.window.accept WIN a p).2
  arrived n := d.arrived n ∨ n = a
  fastTaken := d.fastTaken ++ f.takeMessage.1.toList
  liteTaken := d.liteTaken ++ l.takeMessage.1.toList

/-- Packet `a` arrives inside a window that both receivers accept, or is a copy of an
older packet that neither takes for one of the window. -/
structure InWindow (WIN MTU : Nat) (stream : List Packet) (d : Pair REASM) (a : Nat) : Prop where
  fast : a < d.window.next + WIN
  lite : Lays.Accepts REASM MTU (messageStart stream d.window.next) a
  old : d.window.next + WIN < a + 16384

/-- The arrival reaches neither a marker nor the middle of a message behind a complete
one, and Fast has a slot of its own for a packet it buffers. -/
structure Admits (WIN MTU : Nat) (stream : List Packet) (d : Pair REASM) (a : Nat) : Prop extends
    InWindow WIN MTU stream d a where
  apart : SlotApart WIN d.window a
  short : ∀ p, stream[a]? = some p → d.fast.Buffers WIN (seqOf a) → p.2.length < 65536
  noEos : ∀ p, stream[a]? = some p → ∀ x ∈ (d.window.accept WIN a p).1, ¬ IsEos x
  endsMessage : ∀ p, stream[a]? = some p → ∀ x ∈ (d.window.accept WIN a p).1, Completes x →
    ∀ y, (d.window.accept WIN a p).1.getLast? = some y → Completes y

end Pair

/-- Packets of `stream` arriving at both receivers. -/
def pairing (WIN MTU REASM : Nat) (stream : List Packet) : System (Pair REASM) Nat where
  init d := d = .start WIN MTU REASM
  step d a d' := ∃ p f l resf resl, stream[a]? = some p ∧
    d.fast.handleData (FastReceiver.slotsOf WIN MTU) WIN (seqOf a) p.1 p.2 = some (f, resf) ∧
    d.lite.handleData REASM WIN MTU (seqOf a) p.1 p.2 = some (l, resl) ∧
    d' = d.taking WIN a p f l

section Run

variable {WIN MTU REASM : Nat} {stream : List Packet}

/-- Both receivers hold what arrived: Fast up to the first packet missing, Lite up to
the last message boundary before it. -/
structure Pair.Inv (WIN MTU : Nat) (stream : List Packet) (d : Pair REASM) : Prop where
  follows : Follows (FastReceiver.slotsOf WIN MTU) WIN stream d.fast d.window
  cells : d.fast.slots.slots.data.length = WIN * MTU
  waiting : d.fast.reasm.message = none
  lays : ∃ o, Lays REASM MTU stream d.lite o (messageStart stream d.window.next) d.window.received
  liteWaiting : d.lite.completeMessageLen = none
  near : ∀ a, d.window.received a = true → a < messageStart stream d.window.next + 16
  inside : d.window.next ≤ stream.length
  taken : d.liteTaken = d.fastTaken
  arrived : ∀ n, d.arrived n ↔ d.window.received n = true

theorem Pair.inv_start : (Pair.start WIN MTU REASM).Inv WIN MTU stream where
  follows := follows_new _ WIN REASM stream
  cells := by simp [start, Backend.new, fastSlots, SlotMap.new]
  waiting := rfl
  lays := ⟨0, lays_new REASM MTU stream⟩
  liteWaiting := rfl
  near := by simp [start, Window.empty, Window.received]
  inside := Nat.zero_le _
  taken := rfl
  arrived := by simp [start, Window.empty, Window.received]

theorem arrived_of_atRest {w : Window Packet} (h : Window.AtRest WIN stream w)
    (hin : w.next ≤ stream.length) {m : Nat} (hnear : ∀ a, w.received a = true → a < m + 16) :
    Arrived stream m w.next w.received where
  before a ha := (w.received_iff a).2 (Or.inl ha)
  awaited := by
    rw [Bool.eq_false_iff, Ne, Window.received_iff]
    rintro (hlt | hheld)
    · omega
    · have := (h.ahead _ hheld).1
      omega
  near := hnear
  real a ha := by
    rcases (w.received_iff a).1 ha with hlt | hheld
    · omega
    · obtain ⟨p, hp⟩ := Option.isSome_iff_exists.1 hheld
      exact (List.getElem?_eq_some_iff.1 (h.source a p hp)).1

theorem released_message (ht : Tiled MTU false stream) {n n' : Nat} {ps : List Packet} {p : Packet}
    (hin : n' ≤ stream.length) (htake : stream.take n' = stream.take n ++ (ps ++ [p]))
    (hn : n ≤ stream.length)
    (hends : ∀ x ∈ ps ++ [p], Completes x → Completes p) :
    (feed (feedAll none (stream.take n ++ ps)).1 p).2 =
      if messageStart stream n' = messageStart stream n then none
      else some (gathered stream (messageStart stream (messageStart stream n' - 1))
        (messageStart stream n')) := by
  have hlen := congrArg List.length htake
  simp only [List.length_take, List.length_append, List.length_singleton] at hlen
  have hn' : n' = n + ps.length + 1 := by omega
  have hcut : stream.take (n + ps.length) = stream.take n ++ ps := by
    have hdrop := congrArg List.dropLast htake
    rw [← List.append_assoc, List.dropLast_concat, List.dropLast_eq_take, List.take_take,
      List.length_take] at hdrop
    rw [← hdrop]
    congr 1
    omega
  have hp : stream[n + ps.length]? = some p := by
    have hlen' : (stream.take n ++ ps).length = n + ps.length := by
      rw [List.length_append, List.length_take]
      omega
    rw [← List.getElem?_take_of_lt (j := n'), htake, ← List.append_assoc, ← hlen',
      List.getElem?_concat_length]
    omega
  have hle := messageStart_le stream n
  by_cases hc : Completes p
  · have hstart : messageStart stream n' = n' := by
      rw [hn', messageStart_succ hp, if_pos hc]
    rw [if_neg (by omega), hstart, ← hcut, feed_completes ht hp hc, hn', Nat.add_sub_cancel]
  · have hstart : messageStart stream n' = messageStart stream n := by
      refine messageStart_eq (messageStart_messageStart stream n) (by omega) ?_
      intro a q ha han hq hcq
      by_cases hlt : a < n
      · exact not_completes_of_open ha hlt hq hcq
      · refine hc (hends q ?_ hcq)
        have hmem : (stream.take n')[a]? = some q := by
          rw [List.getElem?_take_of_lt han, hq]
        rw [htake, List.getElem?_append_right (by rw [List.length_take]; omega)] at hmem
        exact List.mem_of_getElem? hmem
    rw [if_pos hstart, Reassembly.feed_snd_of_not_completes _ hc]

theorem pushAll_released (ht : Tiled MTU false stream) (hfit : FitsAll REASM none stream)
    {r : Reassembly REASM} (hwait : r.message = none) {n n' : Nat} {ps : List Packet}
    (hopened : r.partialMessage = (feedAll none (stream.take n)).1)
    (htake : stream.take n' = stream.take n ++ ps) (hn : n ≤ stream.length)
    (hin : n' ≤ stream.length) (heos : ∀ x ∈ ps, ¬ IsEos x)
    (hends : ∀ x ∈ ps, Completes x → ∀ y, ps.getLast? = some y → Completes y) :
    ∃ r', r.pushAll ps = .ok r' ∧ r'.partialMessage = (feedAll none (stream.take n')).1 ∧
      r'.message = if messageStart stream n' = messageStart stream n then none
        else some (gathered stream (messageStart stream (messageStart stream n' - 1))
          (messageStart stream n')) := by
  have hfits := fitsAll_run hfit htake
  have hall := feedAll_append none (stream.take n) ps
  rw [← htake] at hall
  rcases List.eq_nil_or_concat ps with rfl | ⟨qs, p, rfl⟩
  · have hnn : n' = n := by
      have hlen := congrArg List.length htake
      simp only [List.length_take, List.append_nil] at hlen
      omega
    subst hnn
    exact ⟨r, rfl, hopened, by rw [if_pos rfl, hwait]⟩
  · rw [List.concat_eq_append] at *
    rw [← hopened] at hfits hall
    obtain ⟨r', hpush, hpart, hmsg⟩ := Reassembly.pushAll_last hfits heos
    refine ⟨r', hpush, by rw [hpart, hall], ?_⟩
    rw [← released_message ht hin htake hn fun x hx hc => hends x hx hc p (by simp), hmsg,
      feedAll_append, ← hopened]

variable (hW : 0 < WIN) (hW16 : WIN ≤ 16) (hmtu : 0 < MTU) (ht : Tiled MTU false stream)
variable (hfit : FitsAll REASM none stream)

include hW hW16 hmtu ht hfit in
theorem Pair.Inv.arrive {d : Pair REASM} (h : d.Inv WIN MTU stream) {a : Nat} {p : Packet}
    (hp : stream[a]? = some p) (hok : d.Admits WIN MTU stream a) :
    ∃ f l outf outl,
      d.fast.handleData (FastReceiver.slotsOf WIN MTU) WIN (seqOf a) p.1 p.2 =
        some (f, .ok outf) ∧
      d.lite.handleData REASM WIN MTU (seqOf a) p.1 p.2 = some (l, .ok outl) ∧
      (d.taking WIN a p f l).Inv WIN MTU stream := by
  obtain ⟨o, hlays⟩ := h.lays
  have hsource := h.follows.source
  obtain ⟨hrest, htake, hle, -⟩ := hsource.accept hp
  have hrecv := d.window.received_accept p hok.fast
  have hin := h.inside
  have harr := arrived_of_atRest hsource h.inside h.near
  have hin' := hsource.accept_next_le hp h.inside
  have hnear' : ∀ b, (d.window.accept WIN a p).2.received b = true →
      b < messageStart stream d.window.next + 16 := by
    intro b hb
    rw [hrecv, Bool.or_eq_true, beq_iff_eq] at hb
    rcases hb with hb | rfl
    · exact h.near b hb
    · exact hok.lite.near
  have hden : Denotes WIN d.window a := by
    intro hlt
    have hold := hok.old
    by_cases hge : d.window.next ≤ a
    · rw [denotes_distance hge hok.fast hW16]
      omega
    · rw [seqOf_sub_toNat_of_lt (by omega) (by omega), Nat.mod_eq_of_lt (by omega)] at hlt
      omega
  obtain ⟨reasm, hpush, hpart, hmsg⟩ := pushAll_released ht hfit h.waiting h.follows.opened htake
    hin hin' (hok.noEos p hp) (hok.endsMessage p hp)
  have hkeeps : KeepsStored (FastReceiver.slotsOf WIN MTU) WIN d.fast
      (.handleData (seqOf a) p.1 p.2) :=
    keepsStored_fast hW h.cells (tiled_getElem ht hp).1 (hok.short p hp)
  obtain ⟨f, outcome, hf, hfollows, hfreasm⟩ := h.follows.accept hW hW16 hp hden hok.apart hkeeps
    hpush (by rw [hpart, h.follows.feedAll_accept hp])
  have hcells := fast_call_length (c := .handleData (seqOf a) p.1 p.2) h.cells
    (by rw [Backend.call, hf]; rfl)
  have heos : ∀ b x, d.window.next ≤ b → b < (d.window.accept WIN a p).2.next →
      stream[b]? = some x → ¬ IsEos x := by
    intro b x hlo hhi hx
    refine hok.noEos p hp x ?_
    have hmem : (stream.take (d.window.accept WIN a p).2.next)[b]? = some x := by
      rw [List.getElem?_take_of_lt hhi, hx]
    rw [htake, List.getElem?_append_right (by rw [List.length_take]; omega)] at hmem
    exact List.mem_of_getElem? hmem
  have hwin : ∀ b, d.window.received b = true → b < d.window.next + WIN := by
    intro b hb
    rcases (Window.received_iff _ _).1 hb with hlt | hheld
    · omega
    · exact (hsource.ahead b hheld).2
  obtain ⟨l, outl, hl, hready⟩ := hlays.handleData h.liteWaiting ht hmtu hW harr rfl hwin hp
    hok.lite hrecv (arrived_of_atRest hrest hin' hnear') hle heos
  obtain ⟨o', hlays'⟩ := hready.lays
  refine ⟨f, l, outcome, outl, hf, hl, hfollows.takeMessage, hcells, rfl, ?_, rfl, ?_, hin', ?_, ?_⟩
  · exact ⟨o', hlays'.takeMessage⟩
  · intro b hb
    have : messageStart stream d.window.next ≤ _ := messageStart_mono hle
    exact Nat.lt_of_lt_of_le (hnear' b hb) (Nat.add_le_add_right this 16)
  · show d.liteTaken ++ l.takeMessage.1.toList = d.fastTaken ++ f.reasm.takeMessage.1.toList
    rw [h.taken, hready.message, Reassembly.takeMessage_fst, hfreasm, hmsg]
  · intro b
    show d.arrived b ∨ b = a ↔ (d.window.accept WIN a p).2.received b = true
    rw [hrecv, Bool.or_eq_true, beq_iff_eq, h.arrived]

include hW hW16 hmtu ht hfit in
theorem Pair.inv_of_reaches {d : Pair REASM}
    (h : (pairing WIN MTU REASM stream).Reaches (Pair.Admits WIN MTU stream) d) :
    d.Inv WIN MTU stream := by
  refine h.invariant (Pair.Inv WIN MTU stream) ?_ ?_
  · rintro _ rfl
    exact Pair.inv_start
  · rintro d a _ hinv hok ⟨p, f, l, resf, resl, hp, hf, hl, rfl⟩
    obtain ⟨f', l', outf, outl, hf', hl', hinv'⟩ := hinv.arrive hW hW16 hmtu ht hfit hp hok
    rw [hf, Option.some.injEq, Prod.mk.injEq] at hf'
    rw [hl, Option.some.injEq, Prod.mk.injEq] at hl'
    obtain ⟨rfl, -⟩ := hf'
    obtain ⟨rfl, -⟩ := hl'
    exact hinv'

end Run

/-- Lite agrees with Fast.  In a run whose arrivals are all admitted the same messages
are taken from both, the expected sequence numbers agree whenever what arrived without a
gap ends a message, and the next admitted arrival succeeds in both. -/
theorem lite_agrees_with_fast {WIN MTU REASM : Nat} {msgs : List Bytes} (hW : 0 < WIN)
    (hW16 : WIN ≤ 16) (hmtu : 0 < MTU) (hroom : ∀ msg ∈ msgs, msg.length ≤ REASM)
    {d : Pair REASM}
    (h : (pairing WIN MTU REASM (packets MTU msgs)).Reaches
      (Pair.Admits WIN MTU (packets MTU msgs)) d) :
    d.liteTaken = d.fastTaken ∧
      (∀ n, (∀ k < n, d.arrived k) → ¬ d.arrived n → messageStart (packets MTU msgs) n = n →
        d.lite.base.expectedSeq = d.fast.base.expectedSeq) ∧
      ∀ a p, (packets MTU msgs)[a]? = some p → d.Admits WIN MTU (packets MTU msgs) a →
        ∃ f l outf outl,
          d.fast.handleData (FastReceiver.slotsOf WIN MTU) WIN (seqOf a) p.1 p.2 =
            some (f, .ok outf) ∧
          d.lite.handleData REASM WIN MTU (seqOf a) p.1 p.2 = some (l, .ok outl) := by
  have ht := tiled_packets hmtu msgs
  have hfit : FitsAll REASM none (packets MTU msgs) :=
    fitsAll_packets (fun msg _ => Or.inr hmtu) hroom
  have hinv := Pair.inv_of_reaches hW hW16 hmtu ht hfit h
  refine ⟨hinv.taken, fun n hbelow hmissing hend => ?_, fun a p hp hok => ?_⟩
  · have harr := arrived_of_atRest hinv.follows.source hinv.inside hinv.near
    have hn : d.window.next = n := by
      rcases Nat.lt_trichotomy d.window.next n with hlt | heq | hgt
      · have hgot := (hinv.arrived _).1 (hbelow _ hlt)
        rw [harr.awaited] at hgot
        cases hgot
      · exact heq
      · exact absurd ((hinv.arrived n).2 (harr.before n hgt)) hmissing
    obtain ⟨o, hlays⟩ := hinv.lays
    rw [hlays.expected, hn, hend, hinv.follows.expected, hn]
  · obtain ⟨f, l, outf, outl, hf, hl, -⟩ := hinv.arrive hW hW16 hmtu ht hfit hp hok
    exact ⟨f, l, outf, outl, hf, hl⟩

/-- The state after packet `a` of `stream` arrived at receivers with four slots of four
bytes. -/
def arrivePair (stream : List Packet) (d : Pair 16) (a : Nat) : Pair 16 :=
  let p := (stream[a]?).getD (.unsegmented, [])
  match d.fast.handleData (FastReceiver.slotsOf 4 4) 4 (seqOf a) p.1 p.2,
      d.lite.handleData 16 4 4 (seqOf a) p.1 p.2 with
  | some (f, _), some (l, _) => d.taking 4 a p f l
  | _, _ => d

def startPair : Pair 16 := .start 4 4 16

theorem arrivePair_step (stream : List Packet) (d : Pair 16) (a : Nat) (p : Packet)
    (hp : stream[a]? = some p)
    (hf : (d.fast.handleData (FastReceiver.slotsOf 4 4) 4 (seqOf a) p.1 p.2).isSome = true)
    (hl : (d.lite.handleData 16 4 4 (seqOf a) p.1 p.2).isSome = true) :
    (pairing 4 4 16 stream).step d a (arrivePair stream d a) ∧
      ∀ n, (arrivePair stream d a).arrived n ↔ d.arrived n ∨ n = a := by
  obtain ⟨⟨f, resf⟩, hf⟩ := Option.isSome_iff_exists.1 hf
  obtain ⟨⟨l, resl⟩, hl⟩ := Option.isSome_iff_exists.1 hl
  have he : arrivePair stream d a = d.taking 4 a p f l := by
    simp only [arrivePair, hp, Option.getD_some, hf, hl]
  rw [he]
  exact ⟨⟨p, f, l, resf, resl, hp, hf, hl, rfl⟩, fun n => Iff.rfl⟩

/-- A message and its end-of-stream marker arrive in order.  Fast passes the marker, Lite
does not. -/
theorem marker_stalls_lite :
    ∃ d : Pair 16,
      (pairing 4 4 16 (packets 4 [[1], []])).Reaches (Pair.InWindow 4 4 (packets 4 [[1], []])) d ∧
        (∀ k < 2, d.arrived k) ∧ ¬ d.arrived 2 ∧ messageStart (packets 4 [[1], []]) 2 = 2 ∧
        d.lite.base.expectedSeq ≠ d.fast.base.expectedSeq := by
  let stream : List Packet := packets 4 [[1], []]
  obtain ⟨hs₀, ha₀⟩ := arrivePair_step stream startPair 0 (.unsegmented, [1]) (by decide)
    (by decide) (by decide)
  obtain ⟨hs₁, ha₁⟩ := arrivePair_step stream (arrivePair stream startPair 0) 1
    (.unsegmented, []) (by decide) (by decide) (by decide)
  have h₀ : startPair.InWindow 4 4 stream 0 :=
    ⟨by decide, ⟨by decide, by decide, by decide⟩, by decide⟩
  have h₁ : (arrivePair stream startPair 0).InWindow 4 4 stream 1 :=
    ⟨by decide, ⟨by decide, by decide, by decide⟩, by decide⟩
  refine ⟨_, .step 1 (.step 0 (.init rfl) h₀ hs₀) h₁ hs₁, fun k hk => ?_, fun h => ?_, by decide,
    by decide⟩
  · rw [ha₁, ha₀]
    omega
  · rw [ha₁, ha₀] at h
    have hstart : ¬ startPair.arrived 2 := id
    rcases h with (h | h) | h
    · exact hstart h
    · omega
    · omega

/-- The two segments of a message arrive in reverse; both receivers hand it out. -/
theorem lite_agrees_with_fast_reversed :
    ∃ d : Pair 16, (pairing 4 4 16 (packets 4 [[1, 2, 3, 4, 5]])).Reachable d ∧
      d.fastTaken = [[1, 2, 3, 4, 5]] ∧ d.liteTaken = d.fastTaken := by
  let stream : List Packet := packets 4 [[1, 2, 3, 4, 5]]
  obtain ⟨hs₁, -⟩ := arrivePair_step stream startPair 1 (.last, [5]) (by decide) (by decide)
    (by decide)
  obtain ⟨hs₀, -⟩ := arrivePair_step stream (arrivePair stream startPair 1) 0
    (.first, [1, 2, 3, 4]) (by decide) (by decide) (by decide)
  have h₁ : startPair.Admits 4 4 stream 1 := by
    refine ⟨⟨by decide, ⟨by decide, by decide, by decide⟩, by decide⟩, ?_, ?_, ?_, ?_⟩
    · rintro - - - b (hb | hb)
      · simp [Window.Holds, startPair, Pair.start, Window.empty] at hb
      · omega
    · intro p hp _
      cases hp
      decide
    · intro p hp x hx
      cases hp
      cases hx
    · intro p hp x hx
      cases hp
      cases hx
  have h₀ : (arrivePair stream startPair 1).Admits 4 4 stream 0 := by
    refine ⟨⟨by decide, ⟨by decide, by decide, by decide⟩, by decide⟩,
      fun h => absurd h (by decide), ?_, ?_, ?_⟩
    · intro p hp _
      cases hp
      decide
    · intro p hp
      cases hp
      decide
    · intro p hp x _ _ y hy
      cases hp
      cases hy
      decide
  have hrun : (pairing 4 4 16 stream).Reaches (Pair.Admits 4 4 stream)
      (arrivePair stream (arrivePair stream startPair 1) 0) :=
    .step 0 (.step 1 (.init rfl) h₁ hs₁) h₀ hs₀
  exact ⟨_, hrun.reachable, by decide,
    (lite_agrees_with_fast (by decide) (by decide) (by decide) (by decide) hrun).1⟩

end Srspp
end Leodos
