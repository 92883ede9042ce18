/-
A stream of packets between a driver and its consumer.

A receive API holds at most one completed message for its consumer.  `Mailbox` is that
slot: a later message replaces the one that waits, an empty packet that finds one
waiting is dropped, and the end of the stream takes an empty one with it.  A driver
that follows a mailbox hands its consumer some of the messages in order and then the
end; it hands over every empty one exactly when no empty message and no empty packet
ever meets a waiting one (`survives_iff`).
-/
import Leodos.Srspp.Receiver.Acceptance

namespace Leodos
namespace Srspp

open Spp

/-- What a receive call hands out: a message as far as it fits, or the end. -/
abbrev StreamEvent := Option Bytes

/-! ## Drivers -/

/-- A receive API under a stream that arrives in order.  `none` is a panic or an error
of an arrival, and a call that would wait. -/
structure Driver (τ : Type) where
  start : τ
  data : Nat → Packet → τ → Option τ
  eos : Nat → τ → Option τ
  take : τ → Option (StreamEvent × τ)

namespace Driver

variable {τ : Type}

/-- Up to `k` receive calls, as long as an event is ready. -/
def drain (D : Driver τ) : Nat → τ → List StreamEvent × τ
  | 0, s => ([], s)
  | k + 1, s =>
      match D.take s with
      | none => ([], s)
      | some (e, s') => (e :: (D.drain k s').1, (D.drain k s').2)

/-- The packets arrive from number `n` on, each with a number of receive calls after
it. -/
def receive (D : Driver τ) : Nat → τ → List (Packet × Nat) → Option (List StreamEvent × τ)
  | _, s, [] => some ([], s)
  | n, s, (p, k) :: items =>
      match D.data n p s with
      | none => none
      | some s' =>
          match D.receive (n + 1) (D.drain k s').2 items with
          | none => none
          | some (events, s'') => some ((D.drain k s').1 ++ events, s'')

/-- What the consumer sees of a whole stream.  After the EOS at most a message and the
end are ready. -/
def events (D : Driver τ) (items : List (Packet × Nat)) (last : Nat) :
    Option (List StreamEvent) :=
  match D.receive 0 D.start items with
  | none => none
  | some (events, s) =>
      match D.eos items.length s with
      | none => none
      | some s' => some (events ++ (D.drain (last + 2) s').1)

end Driver

def packetsOf (items : List (Packet × Nat)) : List Packet := items.map Prod.fst

def messagesOf (items : List (Packet × Nat)) : List Bytes := (feedAll none (packetsOf items)).2

/-- The consumer sees messages of the stream in their order, all the empty ones among
them, and then the end. -/
def EmptiesSurvive (room : Nat) (messages : List Bytes) (events : List StreamEvent) : Prop :=
  ∃ seen : List Bytes, events = seen.map (fun m => some (m.take room)) ++ [none] ∧
    seen.Sublist messages ∧ seen.count [] = messages.count []

/-- The packets go through, and the consumer misses no empty message. -/
def Driver.Survives {τ : Type} (D : Driver τ) (room : Nat) (items : List (Packet × Nat))
    (last : Nat) : Prop :=
  ∃ events, D.events items last = some events ∧ EmptiesSurvive room (messagesOf items) events

/-- A message that the consumer leaves waiting while the next packet arrives is not
empty, and neither is that packet when it is a whole message.  The EOS asks the former
only.  `waiting` is the message left by the packet before. -/
def NoEmptyMeets (opened waiting : Option Bytes) : List (Packet × Nat) → Prop
  | [] => waiting ≠ some []
  | (p, k) :: items =>
      (∀ m ∈ waiting, m ≠ [] ∧ ¬ IsEos p) ∧
        NoEmptyMeets (feed opened p).1 (if k = 0 then (feed opened p).2 else none) items

instance decidableNoEmptyMeets (opened waiting : Option Bytes) :
    (items : List (Packet × Nat)) → Decidable (NoEmptyMeets opened waiting items)
  | [] => inferInstanceAs (Decidable (_ ≠ _))
  | (p, k) :: items =>
      have := decidableNoEmptyMeets (feed opened p).1
        (if k = 0 then (feed opened p).2 else none) items
      inferInstanceAs (Decidable ((∀ m ∈ waiting, m ≠ [] ∧ ¬ IsEos p) ∧ _))

/-! ## The mailbox -/

structure Mailbox where
  opened : Option Bytes
  waiting : Option Bytes
  ended : Bool
  observed : Bool

namespace Mailbox

def empty : Mailbox := ⟨none, none, false, false⟩

def arrive (b : Mailbox) (p : Packet) : Mailbox :=
  if IsEos p ∧ b.waiting.isSome = true then b
  else { b with opened := (feed b.opened p).1, waiting := (feed b.opened p).2 }

def close (b : Mailbox) : Mailbox :=
  { b with
    opened := none
    waiting := if b.waiting = some [] then none else b.waiting
    ended := true }

def take (room : Nat) (b : Mailbox) : Option (StreamEvent × Mailbox) :=
  match b.waiting with
  | some m => some (some (m.take room), { b with waiting := none })
  | none =>
      if b.ended = true ∧ b.observed = false then some (none, { b with observed := true })
      else none

theorem without_waiting (b : Mailbox) (h : b.waiting = none) : { b with waiting := none } = b := by
  obtain ⟨opened, waiting, ended, observed⟩ := b
  obtain rfl : waiting = none := h
  rfl

/-- A message waits only while none is open. -/
def Exclusive (b : Mailbox) : Prop := b.waiting.isSome = true → b.opened = none

theorem feed_exclusive (opened : Option Bytes) (p : Packet) :
    (feed opened p).2.isSome = true → (feed opened p).1 = none := by
  obtain ⟨flags, payload⟩ := p
  cases flags with
  | unsegmented => exact fun _ => rfl
  | last => exact fun _ => rfl
  | first => exact fun h => by cases h
  | continuation => exact fun h => by cases h

theorem Exclusive.arrive {b : Mailbox} (h : b.Exclusive) (p : Packet) : (b.arrive p).Exclusive := by
  unfold Mailbox.arrive
  by_cases hskip : IsEos p ∧ b.waiting.isSome = true
  · rw [if_pos hskip]
    exact h
  · rw [if_neg hskip]
    exact feed_exclusive b.opened p

theorem arrive_opened {b : Mailbox} (h : b.Exclusive) (p : Packet) :
    (b.arrive p).opened = (feed b.opened p).1 := by
  unfold arrive
  by_cases hskip : IsEos p ∧ b.waiting.isSome = true
  · rw [if_pos hskip, h hskip.2]
    obtain ⟨flags, payload⟩ := p
    obtain rfl : flags = .unsegmented := hskip.1.1
    rfl
  · rw [if_neg hskip]

theorem arrive_ended (b : Mailbox) (p : Packet) :
    (b.arrive p).ended = b.ended ∧ (b.arrive p).observed = b.observed := by
  unfold arrive
  split <;> exact ⟨rfl, rfl⟩

end Mailbox

def mailboxDriver (room : Nat) : Driver Mailbox where
  start := .empty
  data _ p b := some (b.arrive p)
  eos _ b := some b.close
  take := Mailbox.take room

/-! ## Following a mailbox -/

/-- The driver does what the mailbox does, and fails on a packet that cannot be taken. -/
structure Simulates {τ : Type} (D : Driver τ) (REASM room : Nat)
    (Rel : Nat → Mailbox → τ → Prop) : Prop where
  start : Rel 0 .empty D.start
  data : ∀ {n b s p}, Rel n b s → b.ended = false → Fits REASM b.opened p →
    ∃ s', D.data n p s = some s' ∧ Rel (n + 1) (b.arrive p) s'
  refuse : ∀ {n b s p}, Rel n b s → b.ended = false → ¬ Fits REASM b.opened p →
    D.data n p s = none
  eos : ∀ {n b s}, Rel n b s → b.ended = false → ∃ s', D.eos n s = some s' ∧ Rel (n + 1) b.close s'
  takeNone : ∀ {n b s}, Rel n b s → b.take room = none → D.take s = none
  takeSome : ∀ {n b s e b'}, Rel n b s → b.take room = some (e, b') →
    ∃ s', D.take s = some (e, s') ∧ Rel n b' s'

section Follow

variable {τ : Type} {D : Driver τ} {REASM room : Nat} {Rel : Nat → Mailbox → τ → Prop}

theorem Simulates.drain (h : Simulates D REASM room Rel) {n : Nat} {b : Mailbox} {s : τ}
    (hrel : Rel n b s) (k : Nat) :
    (D.drain k s).1 = ((mailboxDriver room).drain k b).1 ∧
      Rel n ((mailboxDriver room).drain k b).2 (D.drain k s).2 := by
  induction k generalizing b s with
  | zero => exact ⟨rfl, hrel⟩
  | succ k ih =>
    unfold Driver.drain
    cases htake : b.take room with
    | none =>
      have hnone : (mailboxDriver room).take b = none := htake
      rw [h.takeNone hrel htake, hnone]
      exact ⟨rfl, hrel⟩
    | some x =>
      obtain ⟨e, b'⟩ := x
      obtain ⟨s', hs', hrel'⟩ := h.takeSome hrel htake
      have hsome : (mailboxDriver room).take b = some (e, b') := htake
      obtain ⟨hev, hend⟩ := ih hrel'
      rw [hs', hsome]
      exact ⟨congrArg (e :: ·) hev, hend⟩

theorem mailbox_drain (b : Mailbox) (hend : b.ended = false) (k : Nat) :
    (mailboxDriver room).drain k b =
      if k = 0 then ([], b)
      else (b.waiting.toList.map fun m => some (m.take room), { b with waiting := none }) := by
  have hdone : ∀ (b : Mailbox) (k : Nat), b.ended = false → b.waiting = none →
      (mailboxDriver room).drain k b = ([], b) := by
    intro b k hend hnone
    cases k with
    | zero => rfl
    | succ k =>
      have htake : (mailboxDriver room).take b = none := by
        show b.take room = none
        simp [Mailbox.take, hnone, hend]
      rw [Driver.drain, htake]
  cases k with
  | zero => rfl
  | succ k =>
    rw [if_neg (Nat.succ_ne_zero k)]
    cases hw : b.waiting with
    | none =>
      rw [hdone b (k + 1) hend hw, b.without_waiting hw]
      rfl
    | some m =>
      have htake : (mailboxDriver room).take b =
          some (some (m.take room), { b with waiting := none }) := by
        show b.take room = _
        simp [Mailbox.take, hw]
      rw [Driver.drain, htake]
      simp only [hdone { b with waiting := none } k hend rfl]
      rfl

/-- The mailbox after an arrival and the receive calls behind it. -/
def Mailbox.next (b : Mailbox) (p : Packet) (k : Nat) : Mailbox :=
  if k = 0 then b.arrive p else { b.arrive p with waiting := none }

def Mailbox.handed (room : Nat) (b : Mailbox) (p : Packet) (k : Nat) : List StreamEvent :=
  if k = 0 then [] else (b.arrive p).waiting.toList.map fun m => some (m.take room)

theorem Mailbox.next_fields {b : Mailbox} (hx : b.Exclusive) (p : Packet) (k : Nat) :
    (b.next p k).Exclusive ∧ (b.next p k).opened = (feed b.opened p).1 ∧
      (b.next p k).ended = b.ended ∧ (b.next p k).observed = b.observed := by
  unfold Mailbox.next
  by_cases hk : k = 0
  · rw [if_pos hk]
    exact ⟨hx.arrive p, arrive_opened hx p, arrive_ended b p⟩
  · rw [if_neg hk]
    refine ⟨fun h => ?_, arrive_opened hx p, arrive_ended b p⟩
    cases h

theorem drain_arrive (b : Mailbox) (p : Packet) (k : Nat) (hend : b.ended = false) :
    (mailboxDriver room).drain k (b.arrive p) = (b.handed room p k, b.next p k) := by
  rw [mailbox_drain _ ((b.arrive_ended p).1.trans hend)]
  unfold Mailbox.next Mailbox.handed
  by_cases hk : k = 0
  · rw [if_pos hk, if_pos hk, if_pos hk]
  · rw [if_neg hk, if_neg hk, if_neg hk]

theorem Simulates.receive (h : Simulates D REASM room Rel) {items : List (Packet × Nat)} {n : Nat}
    {b : Mailbox} {s : τ} (hrel : Rel n b s) (hx : b.Exclusive) (hend : b.ended = false)
    (hfit : FitsAll REASM b.opened (packetsOf items)) :
    ∃ events b' s', (mailboxDriver room).receive n b items = some (events, b') ∧
      D.receive n s items = some (events, s') ∧ Rel (n + items.length) b' s' ∧
        b'.ended = false := by
  induction items generalizing n b s with
  | nil => exact ⟨[], b, s, rfl, rfl, hrel, hend⟩
  | cons item items ih =>
    obtain ⟨p, k⟩ := item
    obtain ⟨s', hs', hrel'⟩ := h.data hrel hend hfit.1
    obtain ⟨hev, hnext⟩ := h.drain hrel' k
    obtain ⟨hx', hopened, hend', -⟩ := b.next_fields hx p k
    rw [drain_arrive b p k hend] at hev hnext
    obtain ⟨events, b', s'', hm, hd, hlast, hlive⟩ := ih hnext hx' (hend'.trans hend)
      (by rw [hopened]; exact hfit.2)
    have hmail : (mailboxDriver room).data n p b = some (b.arrive p) := rfl
    refine ⟨b.handed room p k ++ events, b', s'', ?_, ?_, ?_, hlive⟩
    · rw [Driver.receive, hmail]
      simp only [drain_arrive b p k hend, hm]
    · rw [Driver.receive, hs']
      simp only [hd, hev]
    · rw [List.length_cons, show n + (items.length + 1) = n + 1 + items.length by omega]
      exact hlast

theorem Simulates.receive_none (h : Simulates D REASM room Rel) {items : List (Packet × Nat)}
    {n : Nat} {b : Mailbox} {s : τ} (hrel : Rel n b s) (hx : b.Exclusive) (hend : b.ended = false)
    (hfit : ¬ FitsAll REASM b.opened (packetsOf items)) : D.receive n s items = none := by
  induction items generalizing n b s with
  | nil => exact absurd trivial hfit
  | cons item items ih =>
    obtain ⟨p, k⟩ := item
    by_cases hp : Fits REASM b.opened p
    · obtain ⟨s', hs', hrel'⟩ := h.data hrel hend hp
      obtain ⟨-, hnext⟩ := h.drain hrel' k
      obtain ⟨hx', hopened, hend', -⟩ := b.next_fields hx p k
      rw [drain_arrive b p k hend] at hnext
      have hnone := ih hnext hx' (hend'.trans hend) (by
        rw [hopened]
        exact fun hrest => hfit ⟨hp, hrest⟩)
      rw [Driver.receive, hs']
      simp only [hnone]
    · rw [Driver.receive, h.refuse hrel hend hp]

theorem Simulates.events_eq (h : Simulates D REASM room Rel) {items : List (Packet × Nat)}
    (hfit : FitsAll REASM none (packetsOf items)) (last : Nat) :
    D.events items last = (mailboxDriver room).events items last := by
  have hx : Mailbox.empty.Exclusive := fun h => by cases h
  obtain ⟨events, b', s', hm, hd, hrel, hend⟩ := h.receive h.start hx rfl hfit
  rw [Nat.zero_add] at hrel
  obtain ⟨s'', hs'', hrel'⟩ := h.eos hrel hend
  have hmail : (mailboxDriver room).eos items.length b' = some b'.close := rfl
  have hstart : (mailboxDriver room).start = Mailbox.empty := rfl
  unfold Driver.events
  rw [hstart, hm, hd]
  simp only [hs'', hmail]
  rw [(h.drain hrel' (last + 2)).1]

end Follow

/-! ## What gets lost -/

section Losses

variable {room : Nat}

def Mailbox.taken (b : Mailbox) (p : Packet) (k : Nat) : List Bytes :=
  if k = 0 then [] else (b.arrive p).waiting.toList

theorem Mailbox.taken_append (b : Mailbox) (p : Packet) (k : Nat) :
    b.taken p k ++ (b.next p k).waiting.toList = (b.arrive p).waiting.toList := by
  unfold Mailbox.taken Mailbox.next
  by_cases hk : k = 0
  · rw [if_pos hk, if_pos hk, List.nil_append]
  · rw [if_neg hk, if_neg hk]
    exact List.append_nil _

theorem Mailbox.handed_eq (b : Mailbox) (p : Packet) (k : Nat) :
    b.handed room p k = (b.taken p k).map fun m => some (m.take room) := by
  unfold Mailbox.handed Mailbox.taken
  split <;> rfl

/-- An arrival with its receive calls loses nothing of the packet itself, unless the
packet is dropped, and loses what waited. -/
theorem Mailbox.next_cases (b : Mailbox) (p : Packet) (k : Nat) :
    (b.arrive p).waiting = (feed b.opened p).2 ∧
        (b.next p k).waiting = (if k = 0 then (feed b.opened p).2 else none) ∧
        ((∀ m ∈ b.waiting, m ≠ [] ∧ ¬ IsEos p) ↔ b.waiting.toList.count [] = 0) ∨
      (feed b.opened p).2 = some [] ∧ b.arrive p = b ∧
        ¬ ∀ m ∈ b.waiting, m ≠ [] ∧ ¬ IsEos p := by
  by_cases hskip : IsEos p ∧ b.waiting.isSome = true
  · obtain ⟨m, hm⟩ := Option.isSome_iff_exists.mp hskip.2
    refine Or.inr ⟨?_, if_pos hskip, fun h => (h m hm).2 hskip.1⟩
    obtain ⟨flags, payload⟩ := p
    obtain ⟨hf, hp⟩ := hskip.1
    simp only at hf hp
    rw [hf, hp]
    rfl
  · have harrive : b.arrive p =
        { b with opened := (feed b.opened p).1, waiting := (feed b.opened p).2 } := if_neg hskip
    refine Or.inl ⟨by rw [harrive], ?_, ?_⟩
    · unfold Mailbox.next
      rw [harrive]
      split <;> rfl
    · cases hw : b.waiting with
      | none => simp
      | some m =>
        have hp : ¬ IsEos p := fun hp => hskip ⟨hp, by rw [hw]; rfl⟩
        by_cases hm : m = []
        · simp [hm]
        · simp [hp, hm]

theorem mailbox_receive (room : Nat) (items : List (Packet × Nat)) (n : Nat) {b : Mailbox}
    (hx : b.Exclusive) (hend : b.ended = false) :
    ∃ seen b', (mailboxDriver room).receive n b items =
        some (seen.map fun m => some (m.take room), b') ∧
      b'.ended = false ∧ b'.observed = b.observed ∧
      (seen ++ b'.waiting.toList).Sublist
        (b.waiting.toList ++ (feedAll b.opened (packetsOf items)).2) ∧
      (NoEmptyMeets b.opened b.waiting items ↔
        (seen ++ b'.waiting.toList).count [] =
            (b.waiting.toList ++ (feedAll b.opened (packetsOf items)).2).count [] ∧
          b'.waiting ≠ some []) := by
  induction items generalizing n b with
  | nil =>
    have hnil : (feedAll b.opened (packetsOf [])).2 = [] := rfl
    refine ⟨[], b, rfl, hend, rfl, ?_, ?_⟩
    · rw [hnil, List.append_nil, List.nil_append]
    · rw [hnil, List.append_nil, List.nil_append]
      exact ⟨fun h => ⟨rfl, h⟩, fun h => h.2⟩
  | cons item items ih =>
    obtain ⟨p, k⟩ := item
    obtain ⟨hx', hopened, hend', hobs'⟩ := b.next_fields hx p k
    obtain ⟨seen, b', hrec, hlive, hobs, hsub, hiff⟩ :=
      ih (n + 1) hx' (hend'.trans hend)
    rw [hopened] at hsub hiff
    have hmsgs : (feedAll b.opened (packetsOf ((p, k) :: items))).2 =
        (feed b.opened p).2.toList ++ (feedAll (feed b.opened p).1 (packetsOf items)).2 := rfl
    have htaken := b.taken_append p k
    have hmail : (mailboxDriver room).data n p b = some (b.arrive p) := rfl
    have hsub' := hsub.append_left (b.taken p k)
    rw [← List.append_assoc, ← List.append_assoc, htaken] at hsub'
    have hle := hsub.count_le []
    refine ⟨b.taken p k ++ seen, b', ?_, hlive, hobs.trans hobs', ?_, ?_⟩
    · rw [Driver.receive, hmail]
      simp only [drain_arrive b p k hend, hrec, b.handed_eq p k, List.map_append]
    · rw [hmsgs]
      rcases b.next_cases p k with ⟨harrive, -, -⟩ | ⟨-, harrive, -⟩
      · rw [harrive] at hsub'
        exact hsub'.trans (List.sublist_append_right _ _)
      · rw [harrive] at hsub'
        exact hsub'.trans ((List.sublist_append_right _ _).append_left _)
    · have hcount := congrArg (List.count []) htaken
      rw [hmsgs, NoEmptyMeets]
      simp only [List.count_append] at hcount hle hiff ⊢
      rcases b.next_cases p k with ⟨harrive, hwaiting, hnone⟩ | ⟨hempty, harrive, hmeets⟩
      · rw [hnone, ← hwaiting, hiff]
        rw [harrive] at hcount
        constructor
        · rintro ⟨h₀, heq, hlast⟩
          exact ⟨by omega, hlast⟩
        · rintro ⟨heq, hlast⟩
          exact ⟨by omega, by omega, hlast⟩
      · rw [harrive] at hcount
        have hone : (feed b.opened p).2.toList.count [] = 1 := by
          rw [hempty]
          rfl
        refine iff_of_false (fun h => hmeets h.1) (fun h => ?_)
        omega

theorem mailbox_close {b : Mailbox} (hobs : b.observed = false) (last : Nat) :
    ((mailboxDriver room).drain (last + 2) b.close).1 =
      (b.close.waiting.toList.map fun m => some (m.take room)) ++ [none] := by
  have hgone : ∀ (b : Mailbox) (k : Nat), b.waiting = none → b.observed = true →
      (mailboxDriver room).drain k b = ([], b) := by
    intro b k hw ho
    cases k with
    | zero => rfl
    | succ k =>
      have htake : (mailboxDriver room).take b = none := by
        show b.take room = none
        simp [Mailbox.take, hw, ho]
      rw [Driver.drain, htake]
  have hlast : ∀ (b : Mailbox) (k : Nat), b.waiting = none → b.ended = true →
      b.observed = false → ((mailboxDriver room).drain (k + 1) b).1 = [none] := by
    intro b k hw he ho
    have htake : (mailboxDriver room).take b = some (none, { b with observed := true }) := by
      show b.take room = _
      simp [Mailbox.take, hw, he, ho]
    rw [Driver.drain, htake]
    simp only [hgone { b with observed := true } k hw rfl]
  cases hw : b.close.waiting with
  | none => exact hlast b.close (last + 1) hw rfl hobs
  | some m =>
    have htake : (mailboxDriver room).take b.close =
        some (some (m.take room), { b.close with waiting := none }) := by
      show b.close.take room = _
      simp [Mailbox.take, hw]
    rw [Driver.drain, htake]
    simp only [hlast { b.close with waiting := none } last rfl rfl hobs]
    rfl

theorem count_take (hroom : 0 < room) (seen : List Bytes) :
    (seen.map fun m => (some (m.take room) : StreamEvent)).count (some []) = seen.count [] := by
  induction seen with
  | nil => rfl
  | cons m seen ih =>
    rw [List.map_cons, List.count_cons, List.count_cons, ih]
    cases m with
    | nil => simp
    | cons x m =>
      obtain ⟨k, rfl⟩ : ∃ k, room = k + 1 := ⟨room - 1, by omega⟩
      simp

theorem Simulates.survives_iff {τ : Type} {D : Driver τ} {REASM : Nat}
    {Rel : Nat → Mailbox → τ → Prop} (h : Simulates D REASM room Rel) (hroom : 0 < room)
    (items : List (Packet × Nat)) (last : Nat) :
    D.Survives room items last ↔
      FitsAll REASM none (packetsOf items) ∧ NoEmptyMeets none none items := by
  have hx : Mailbox.empty.Exclusive := fun h => by cases h
  by_cases hfit : FitsAll REASM none (packetsOf items)
  case neg =>
    refine iff_of_false ?_ (fun hc => hfit hc.1)
    rintro ⟨events, hev, -⟩
    rw [Driver.events, h.receive_none h.start hx rfl hfit] at hev
    cases hev
  rw [and_iff_right hfit]
  have hstart : (mailboxDriver room).start = Mailbox.empty := rfl
  obtain ⟨seen, b', hrec, hlive, hobs, hsub, hiff⟩ :=
    mailbox_receive room items 0 hx rfl
  have hevents : D.events items last =
      some ((seen ++ b'.close.waiting.toList).map (fun m => some (m.take room)) ++ [none]) := by
    rw [h.events_eq hfit last, Driver.events, hstart, hrec]
    show some (_ ++ ((mailboxDriver room).drain (last + 2) b'.close).1) = _
    rw [mailbox_close hobs last, List.map_append, List.append_assoc]
  have hmsgs : Mailbox.empty.waiting.toList ++ (feedAll Mailbox.empty.opened (packetsOf items)).2 =
      messagesOf items := rfl
  rw [hmsgs] at hsub hiff
  -- closing drops an empty message and nothing else
  have hclose : b'.close.waiting.toList.Sublist b'.waiting.toList ∧
      ((seen ++ b'.close.waiting.toList).count [] = (messagesOf items).count [] ↔
        (seen ++ b'.waiting.toList).count [] = (messagesOf items).count [] ∧
          b'.waiting ≠ some []) := by
    have hle := hsub.count_le []
    by_cases hw : b'.waiting = some []
    · have hnone : b'.close.waiting = none := if_pos hw
      rw [hnone, hw]
      rw [hw, List.count_append] at hle
      refine ⟨List.nil_sublist _, iff_of_false (fun heq => ?_) (fun hne => hne.2 rfl)⟩
      simp at heq hle
      omega
    · have hsame : b'.close.waiting = b'.waiting := if_neg hw
      rw [hsame]
      exact ⟨List.Sublist.refl _, fun heq => ⟨heq, hw⟩, fun heq => heq.1⟩
  rw [show NoEmptyMeets none none items ↔ _ from hiff, ← hclose.2]
  constructor
  · rintro ⟨events, hev, seen', rfl, -, hcount⟩
    rw [hevents, Option.some.injEq] at hev
    have hmap := congrArg (List.count (some [])) (List.append_cancel_right hev)
    rw [count_take hroom, count_take hroom] at hmap
    rw [hmap, hcount]
  · intro heq
    exact ⟨_, hevents, _, rfl, (hclose.1.append_left _).trans hsub, heq⟩

end Losses

/-! ## A backend in order -/

section InOrder

variable {σ : Type} {REASM : Nat}

/-- The backend waits for packet `n`, holds none ahead of it, and has the messages of
the mailbox. -/
structure InOrder (r : Backend σ REASM) (n : Nat) (b : Mailbox) : Prop where
  expected : r.base.expectedSeq = seqOf n
  occupied : r.occupied = Bitset.new
  opened : r.reasm.partialMessage = b.opened
  waiting : r.reasm.message = b.waiting

theorem inOrder_new (S : Slots σ) (REASM : Nat) : InOrder (.new S REASM) 0 .empty :=
  ⟨rfl, rfl, rfl, rfl⟩

variable {r : Backend σ REASM} {n : Nat} {b : Mailbox}

theorem InOrder.takeMessage (h : InOrder r n b) :
    InOrder r.takeMessage.2 n { b with waiting := none } :=
  ⟨h.expected, h.occupied, h.opened, rfl⟩

theorem push_arrive (h : InOrder r n b) {p : Packet} (hfit : Fits REASM b.opened p) :
    ∃ reasm, r.reasm.push p.1 p.2 = .ok reasm ∧ reasm.partialMessage = (b.arrive p).opened ∧
      reasm.message = (b.arrive p).waiting := by
  rw [← h.opened] at hfit
  unfold Mailbox.arrive
  by_cases hskip : IsEos p ∧ b.waiting.isSome = true
  · obtain ⟨m, hm⟩ := Option.isSome_iff_exists.mp hskip.2
    rw [if_pos hskip]
    exact ⟨r.reasm, Reassembly.push_eos_waiting hskip.1 (h.waiting.trans hm), h.opened, h.waiting⟩
  · have hfeed : r.reasm.message = none ∨ ¬ IsEos p := by
      by_cases hp : IsEos p
      · refine Or.inl (h.waiting.trans (Option.not_isSome_iff_eq_none.mp fun hs => ?_))
        exact hskip ⟨hp, hs⟩
      · exact Or.inr hp
    obtain ⟨reasm, hpush, hpart, hmsg⟩ := Reassembly.push_feed hfeed hfit
    rw [if_neg hskip, ← h.opened]
    exact ⟨reasm, hpush, hpart, hmsg⟩

theorem InOrder.handleData (h : InOrder r n b) (S : Slots σ) (WIN : Nat) {p : Packet}
    (hfit : Fits REASM b.opened p) :
    ∃ r' outcome, r.handleData S WIN (seqOf n) p.1 p.2 = some (r', .ok outcome) ∧
      InOrder r' (n + 1) (b.arrive p) := by
  obtain ⟨reasm, hpush, hpart, hmsg⟩ := push_arrive h hfit
  have hdist : r.base.distance (seqOf n) = 0 := by
    rw [ReceiverBase.distance, h.expected, BitVec.sub_self]
    rfl
  have hloop : ∀ q : Backend σ REASM, q.occupied = Bitset.new →
      q.deliverBuffered S WIN WIN = some ({ q with slots := S.finish q.slots }, .ok ()) := by
    intro q hq
    cases WIN with
    | zero => rfl
    | succ k =>
      have hset : ¬ q.occupied.isSet (slotIdx (k + 1) q.base.expectedSeq) = true := by
        rw [hq, Bitset.isSet_new]
        exact Bool.false_ne_true
      rw [Backend.deliverBuffered, if_neg hset]
  simp only [Backend.handleData, hdist, if_true, hpush]
  rw [hloop { r with reasm, base := r.base.advance } h.occupied]
  refine ⟨_, _, rfl, ?_, h.occupied, hpart, hmsg⟩
  show r.base.expectedSeq + 1 = seqOf (n + 1)
  rw [h.expected, seqOf_succ]

theorem InOrder.handleData_error (h : InOrder r n b) (S : Slots σ) (WIN : Nat) {p : Packet}
    (hfit : ¬ Fits REASM b.opened p) :
    ∃ e, r.handleData S WIN (seqOf n) p.1 p.2 = some (r, .error e) := by
  have hdist : r.base.distance (seqOf n) = 0 := by
    rw [ReceiverBase.distance, h.expected, BitVec.sub_self]
    rfl
  rw [← h.opened] at hfit
  cases hpush : r.reasm.push p.1 p.2 with
  | ok reasm => exact absurd ((Reassembly.push_ok_iff r.reasm p).1 ⟨reasm, hpush⟩) hfit
  | error e =>
    refine ⟨e, ?_⟩
    simp only [Backend.handleData, hdist, if_true, hpush]

theorem arrive_eos (b : Mailbox) (hx : b.Exclusive) :
    (b.arrive (.unsegmented, [])).opened = none ∧
      (if (b.arrive (.unsegmented, [])).waiting = some [] then none
        else (b.arrive (.unsegmented, [])).waiting) = b.close.waiting := by
  cases hw : b.waiting with
  | none =>
    have hskip : ¬ (IsEos (.unsegmented, []) ∧ b.waiting.isSome = true) := by
      rw [hw]
      exact fun h => by cases h.2
    rw [Mailbox.arrive, if_neg hskip, Mailbox.close, hw]
    exact ⟨rfl, rfl⟩
  | some m =>
    have hskip : IsEos (.unsegmented, []) ∧ b.waiting.isSome = true :=
      ⟨⟨rfl, rfl⟩, by rw [hw]; rfl⟩
    rw [Mailbox.arrive, if_pos hskip]
    exact ⟨hx hskip.2, rfl⟩

end InOrder

end Srspp
end Leodos
