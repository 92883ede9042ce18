/-
Messages as packets.

`packetize` cuts a message as the sender does and `feed` is the inverse a receiver
has to compute: it keeps the open message and says which message a packet
completes.  `packets` of a list of messages fed in order gives the messages back.
-/
import Leodos.Srspp.Sender.Machine

namespace Leodos
namespace Srspp

open Spp

abbrev Packet := SequenceFlag × Bytes

/-- The packet ends a message. -/
def Completes (p : Packet) : Prop := p.1 = .unsegmented ∨ p.1 = .last

instance (p : Packet) : Decidable (Completes p) :=
  inferInstanceAs (Decidable (_ ∨ _))

/-- The packet is an end-of-stream marker. -/
def IsEos (p : Packet) : Prop := p.1 = .unsegmented ∧ p.2 = []

instance (p : Packet) : Decidable (IsEos p) :=
  inferInstanceAs (Decidable (_ ∧ _))

/-- The message left open by a packet, and the one it completes. -/
def feed (opened : Option Bytes) : Packet → Option Bytes × Option Bytes
  | (.unsegmented, payload) => (none, some payload)
  | (.first, payload) => (some payload, none)
  | (.continuation, payload) => (opened.map (· ++ payload), none)
  | (.last, payload) => (none, opened.map (· ++ payload))

def feedAll (opened : Option Bytes) : List Packet → Option Bytes × List Bytes
  | [] => (opened, [])
  | p :: ps =>
      ((feedAll (feed opened p).1 ps).1,
        (feed opened p).2.toList ++ (feedAll (feed opened p).1 ps).2)

/-- A packet continues an open message, and the result fits `room` bytes. -/
def Fits (room : Nat) (opened : Option Bytes) : Packet → Prop
  | (.unsegmented, payload) | (.first, payload) => payload.length ≤ room
  | (.continuation, payload) | (.last, payload) =>
      ∃ q, opened = some q ∧ q.length + payload.length ≤ room

def FitsAll (room : Nat) (opened : Option Bytes) : List Packet → Prop
  | [] => True
  | p :: ps => Fits room opened p ∧ FitsAll room (feed opened p).1 ps

/-- The continuation of an open message is decided by its length. -/
instance decidableFits (room : Nat) (opened : Option Bytes) :
    (p : Packet) → Decidable (Fits room opened p)
  | (.unsegmented, _) | (.first, _) => inferInstanceAs (Decidable (_ ≤ _))
  | (.continuation, payload) | (.last, payload) =>
      match opened with
      | none => .isFalse fun ⟨_, h, _⟩ => by cases h
      | some q =>
          decidable_of_iff (q.length + payload.length ≤ room)
            ⟨fun h => ⟨q, rfl, h⟩, fun ⟨_, h, hle⟩ => Option.some.inj h ▸ hle⟩

instance decidableFitsAll (room : Nat) :
    (opened : Option Bytes) → (ps : List Packet) → Decidable (FitsAll room opened ps)
  | _, [] => .isTrue trivial
  | opened, p :: ps =>
      have := decidableFitsAll room (feed opened p).1 ps
      inferInstanceAs (Decidable (Fits room opened p ∧ _))

theorem feedAll_append (opened : Option Bytes) (ps qs : List Packet) :
    feedAll opened (ps ++ qs) =
      ((feedAll (feedAll opened ps).1 qs).1,
        (feedAll opened ps).2 ++ (feedAll (feedAll opened ps).1 qs).2) := by
  induction ps generalizing opened with
  | nil => simp [feedAll]
  | cons p ps ih => simp [feedAll, ih]

theorem fitsAll_append {room : Nat} {opened : Option Bytes} {ps qs : List Packet} :
    FitsAll room opened (ps ++ qs) ↔
      FitsAll room opened ps ∧ FitsAll room (feedAll opened ps).1 qs := by
  induction ps generalizing opened with
  | nil => simp [feedAll, FitsAll]
  | cons p ps ih => simp [feedAll, FitsAll, ih, and_assoc]

theorem fitsAll_run {room n n' : Nat} {stream ps : List Packet} (h : FitsAll room none stream)
    (htake : stream.take n' = stream.take n ++ ps) :
    FitsAll room (feedAll none (stream.take n)).1 ps := by
  have hall : stream = stream.take n ++ ps ++ stream.drop n' := by
    rw [← htake, List.take_append_drop]
  rw [hall, List.append_assoc, fitsAll_append, fitsAll_append] at h
  exact h.2.1

/-! ## Segmentation -/

/-- The packets of one message, as `handle_send_request` queues them. -/
def packetize (mp : Nat) (msg : Bytes) : List Packet :=
  if msg.length ≤ mp then [(.unsegmented, msg)]
  else SenderMachine.segments mp msg.length true msg

def packets (mp : Nat) (msgs : List Bytes) : List Packet :=
  msgs.flatMap (packetize mp)

theorem feedAll_segments {mp fuel : Nat} (hmp : 0 < mp) {data : Bytes} (hne : data ≠ [])
    (h : data.length ≤ fuel) (q : Bytes) :
    feedAll (some q) (SenderMachine.segments mp fuel false data) = (none, [q ++ data]) := by
  induction fuel generalizing data q with
  | zero => exact absurd (List.length_eq_zero_iff.1 (Nat.le_zero.1 h)) hne
  | succ fuel ih =>
    have hempty : data.isEmpty = false := by simpa using hne
    simp only [SenderMachine.segments, hempty, Bool.false_eq_true, if_false]
    by_cases hlast : data.length ≤ mp
    · have hdrop : data.drop mp = [] := List.drop_eq_nil_of_le hlast
      have htake : data.take mp = data := List.take_of_length_le hlast
      rw [if_pos hlast, hdrop, htake]
      cases fuel <;> simp [SenderMachine.segments, feedAll, feed]
    · have hdrop : data.drop mp ≠ [] := by
        simp only [ne_eq, List.drop_eq_nil_iff]
        exact hlast
      have hlen : (data.drop mp).length ≤ fuel := by
        simp only [List.length_drop]
        omega
      rw [if_neg hlast]
      simp only [feedAll, feed, Option.map_some]
      rw [ih hdrop hlen (q ++ data.take mp), List.append_assoc, List.take_append_drop]
      rfl

theorem fitsAll_segments {mp fuel room : Nat} {data q : Bytes}
    (hroom : q.length + data.length ≤ room) :
    FitsAll room (some q) (SenderMachine.segments mp fuel false data) := by
  induction fuel generalizing data q with
  | zero => trivial
  | succ fuel ih =>
    by_cases hempty : data.isEmpty
    · simp [SenderMachine.segments, hempty, FitsAll]
    · have htake : (data.take mp).length ≤ data.length := by simp
      have hsplit : (data.take mp).length + (data.drop mp).length = data.length := by
        simp
        omega
      simp only [SenderMachine.segments, hempty, Bool.false_eq_true, if_false]
      by_cases hlast : data.length ≤ mp
      · rw [if_pos hlast]
        refine ⟨⟨q, rfl, by omega⟩, ?_⟩
        rw [List.drop_eq_nil_of_le hlast]
        cases fuel <;> simp [SenderMachine.segments, FitsAll]
      · rw [if_neg hlast]
        refine ⟨⟨q, rfl, by omega⟩, ?_⟩
        simp only [feed, Option.map_some]
        exact ih (by rw [List.length_append]; omega)

theorem feedAll_packetize {mp : Nat} {msg : Bytes} (hmp : msg.length ≤ mp ∨ 0 < mp) :
    feedAll none (packetize mp msg) = (none, [msg]) := by
  unfold packetize
  by_cases hone : msg.length ≤ mp
  · rw [if_pos hone]
    rfl
  · rw [if_neg hone]
    have hpos : 0 < mp := hmp.resolve_left hone
    obtain ⟨n, hn⟩ : ∃ n, msg.length = n + 1 := ⟨msg.length - 1, by omega⟩
    have hempty : msg.isEmpty = false := by
      cases msg
      · simp at hn
      · rfl
    have hne : msg.drop mp ≠ [] := by
      simp only [ne_eq, List.drop_eq_nil_iff]
      exact hone
    rw [hn]
    simp only [SenderMachine.segments, hempty, Bool.false_eq_true, if_false, if_true, feedAll,
      feed]
    rw [feedAll_segments hpos hne (by simp only [List.length_drop]; omega),
      List.take_append_drop]
    rfl

theorem fitsAll_packetize {mp room : Nat} {msg : Bytes} (hroom : msg.length ≤ room) :
    FitsAll room none (packetize mp msg) := by
  unfold packetize
  split
  · exact ⟨hroom, trivial⟩
  · cases hlen : msg.length with
    | zero => trivial
    | succ n =>
      have hempty : msg.isEmpty = false := by
        cases msg
        · simp at hlen
        · rfl
      simp only [SenderMachine.segments, hempty, Bool.false_eq_true, if_false, if_true]
      have htake : (msg.take mp).length ≤ msg.length := by simp
      refine ⟨Nat.le_trans htake hroom, ?_⟩
      simp only [feed]
      exact fitsAll_segments (by simp; omega)

theorem feedAll_packets {mp : Nat} {msgs : List Bytes}
    (hmp : ∀ msg ∈ msgs, msg.length ≤ mp ∨ 0 < mp) :
    feedAll none (packets mp msgs) = (none, msgs) := by
  induction msgs with
  | nil => rfl
  | cons msg msgs ih =>
    have hcons : packets mp (msg :: msgs) = packetize mp msg ++ packets mp msgs :=
      List.flatMap_cons ..
    rw [hcons, feedAll_append, feedAll_packetize (hmp msg (List.mem_cons_self ..)),
      ih fun m hm => hmp m (List.mem_cons_of_mem _ hm)]
    rfl

theorem fitsAll_packets {mp room : Nat} {msgs : List Bytes}
    (hmp : ∀ msg ∈ msgs, msg.length ≤ mp ∨ 0 < mp) (hroom : ∀ msg ∈ msgs, msg.length ≤ room) :
    FitsAll room none (packets mp msgs) := by
  induction msgs with
  | nil => trivial
  | cons msg msgs ih =>
    have hcons : packets mp (msg :: msgs) = packetize mp msg ++ packets mp msgs :=
      List.flatMap_cons ..
    rw [hcons, fitsAll_append, feedAll_packetize (hmp msg (List.mem_cons_self ..))]
    exact ⟨fitsAll_packetize (hroom msg (List.mem_cons_self ..)),
      ih (fun m hm => hmp m (List.mem_cons_of_mem _ hm))
        (fun m hm => hroom m (List.mem_cons_of_mem _ hm))⟩

end Srspp
end Leodos

/-
Message boundaries in a packet stream.

`messageStart` is the packet at which the message open at a packet begins, and
`gathered` the payload bytes of a range of packets.  In a stream of segmented
messages the open message of `feed` is what was gathered since the last boundary,
and a completing packet completes exactly that.
-/

namespace Leodos
namespace Srspp

open Spp

/-- Where the message open at packet `n` begins; `n` itself at a boundary. -/
def messageStart (stream : List Packet) : Nat → Nat
  | 0 => 0
  | n + 1 =>
      match stream[n]? with
      | some p => if Completes p then n + 1 else messageStart stream n
      | none => messageStart stream n

/-- The payloads of the packets from `lo` up to `n`. -/
def gathered (stream : List Packet) (lo n : Nat) : Bytes :=
  ((stream.take n).drop lo).flatMap Prod.snd

section Starts

variable {stream : List Packet} {lo n : Nat} {p : Packet}

theorem messageStart_succ (hp : stream[n]? = some p) :
    messageStart stream (n + 1) = if Completes p then n + 1 else messageStart stream n := by
  simp only [messageStart, hp]

theorem messageStart_succ_none (hp : stream[n]? = none) :
    messageStart stream (n + 1) = messageStart stream n := by
  simp only [messageStart, hp]

theorem messageStart_succ_cases (stream : List Packet) (n : Nat) :
    (∃ p, stream[n]? = some p ∧ Completes p ∧ messageStart stream (n + 1) = n + 1) ∨
      (∀ p, stream[n]? = some p → ¬ Completes p) ∧
        messageStart stream (n + 1) = messageStart stream n := by
  cases hp : stream[n]? with
  | none => exact Or.inr ⟨by simp, messageStart_succ_none hp⟩
  | some p =>
    rw [messageStart_succ hp]
    by_cases hc : Completes p
    · exact Or.inl ⟨p, rfl, hc, if_pos hc⟩
    · refine Or.inr ⟨?_, if_neg hc⟩
      rintro q hq
      exact Option.some.inj hq ▸ hc

theorem messageStart_le (stream : List Packet) (n : Nat) : messageStart stream n ≤ n := by
  induction n with
  | zero => exact Nat.le_refl _
  | succ n ih =>
    rcases messageStart_succ_cases stream n with ⟨-, -, -, h⟩ | ⟨-, h⟩ <;> omega

theorem messageStart_eq (hlo : messageStart stream lo = lo) (hle : lo ≤ n)
    (hopen : ∀ a p, lo ≤ a → a < n → stream[a]? = some p → ¬ Completes p) :
    messageStart stream n = lo := by
  induction n with
  | zero => exact (Nat.le_zero.1 hle).symm
  | succ n ih =>
    by_cases heq : lo = n + 1
    · rw [← heq, hlo]
    · have hrest := ih (by omega) fun a p ha han => hopen a p ha (by omega)
      rcases messageStart_succ_cases stream n with ⟨p, hp, hc, -⟩ | ⟨-, h⟩
      · exact absurd hc (hopen n p (by omega) (by omega) hp)
      · rw [h, hrest]

theorem not_completes_of_open {a : Nat} (ha : messageStart stream n ≤ a) (han : a < n)
    (hp : stream[a]? = some p) : ¬ Completes p := by
  induction n with
  | zero => omega
  | succ n ih =>
    rcases messageStart_succ_cases stream n with ⟨-, -, -, h⟩ | ⟨hc, h⟩
    · omega
    · by_cases heq : a = n
      · exact hc p (heq ▸ hp)
      · exact ih (by omega) (by omega)

theorem messageStart_messageStart (stream : List Packet) (n : Nat) :
    messageStart stream (messageStart stream n) = messageStart stream n := by
  induction n with
  | zero => rfl
  | succ n ih =>
    rcases messageStart_succ_cases stream n with ⟨-, -, -, h⟩ | ⟨-, h⟩
    · rw [h, h]
    · rw [h, ih]

theorem messageStart_mono {m : Nat} (h : m ≤ n) :
    messageStart stream m ≤ messageStart stream n := by
  induction n with
  | zero => rw [Nat.le_zero.1 h]
  | succ n ih =>
    by_cases heq : m = n + 1
    · rw [heq]
    · have hm := ih (by omega)
      have hle := messageStart_le stream m
      rcases messageStart_succ_cases stream n with ⟨-, -, -, hs⟩ | ⟨-, hs⟩ <;> omega

@[simp] theorem gathered_self (stream : List Packet) (n : Nat) : gathered stream n n = [] := by
  simp [gathered, List.drop_eq_nil_of_le]

theorem gathered_succ (hle : lo ≤ n) (hp : stream[n]? = some p) :
    gathered stream lo (n + 1) = gathered stream lo n ++ p.2 := by
  have hlen : lo ≤ (stream.take n).length := by
    obtain ⟨hn, -⟩ := List.getElem?_eq_some_iff.1 hp
    rw [List.length_take]
    omega
  rw [gathered, gathered, List.take_add_one, hp, Option.toList_some,
    List.drop_append_of_le_length hlen, List.flatMap_append]
  simp

end Starts

/-! ## Well-formed streams -/

/-- Segments tile into `mtu` bytes: all but the last segment of a message are full,
and a message opens where none is open.  An empty unsegmented packet is an
end-of-stream marker. -/
def Tiled (mtu : Nat) : Bool → List Packet → Prop
  | _, [] => True
  | opened, (.unsegmented, payload) :: ps =>
      opened = false ∧ payload.length ≤ mtu ∧ Tiled mtu false ps
  | opened, (.first, payload) :: ps =>
      opened = false ∧ payload.length = mtu ∧ Tiled mtu true ps
  | opened, (.continuation, payload) :: ps =>
      opened = true ∧ payload.length = mtu ∧ Tiled mtu true ps
  | opened, (.last, payload) :: ps =>
      opened = true ∧ (0 < payload.length ∧ payload.length ≤ mtu) ∧ Tiled mtu false ps

section Tiled

variable {mtu : Nat} {opened : Bool} {stream : List Packet} {a n : Nat} {p : Packet}

theorem tiled_segments {fuel : Nat} {data : Bytes} (hmtu : 0 < mtu) (hne : data ≠ [])
    (hfuel : data.length ≤ fuel) {rest : List Packet} (hrest : Tiled mtu false rest) :
    Tiled mtu true (SenderMachine.segments mtu fuel false data ++ rest) := by
  induction fuel generalizing data with
  | zero => exact absurd (List.length_eq_zero_iff.1 (Nat.le_zero.1 hfuel)) hne
  | succ fuel ih =>
    have hempty : data.isEmpty = false := by simpa using hne
    have hpos : 0 < data.length := List.length_pos_iff.2 hne
    simp only [SenderMachine.segments, hempty, Bool.false_eq_true, if_false, List.cons_append]
    by_cases hlast : data.length ≤ mtu
    · have hdrop : data.drop mtu = [] := List.drop_eq_nil_of_le hlast
      have hnil : SenderMachine.segments mtu fuel false [] = [] := by
        cases fuel <;> rfl
      rw [if_pos hlast, hdrop, hnil]
      exact ⟨rfl, ⟨by rw [List.length_take]; omega, by rw [List.length_take]; omega⟩, hrest⟩
    · have hdrop : data.drop mtu ≠ [] := by
        simp only [ne_eq, List.drop_eq_nil_iff]
        exact hlast
      rw [if_neg hlast]
      exact ⟨rfl, by rw [List.length_take]; omega,
        ih hdrop (by simp only [List.length_drop]; omega)⟩

theorem tiled_packets (hmtu : 0 < mtu) (msgs : List Bytes) :
    Tiled mtu false (packets mtu msgs) := by
  induction msgs with
  | nil => trivial
  | cons msg msgs ih =>
    have hcons : packets mtu (msg :: msgs) = packetize mtu msg ++ packets mtu msgs :=
      List.flatMap_cons ..
    rw [hcons, packetize]
    by_cases hone : msg.length ≤ mtu
    · rw [if_pos hone]
      exact ⟨rfl, hone, ih⟩
    · obtain ⟨n, hn⟩ : ∃ n, msg.length = n + 1 := ⟨msg.length - 1, by omega⟩
      have hempty : msg.isEmpty = false := by
        cases msg
        · simp at hn
        · rfl
      have hdrop : msg.drop mtu ≠ [] := by
        simp only [ne_eq, List.drop_eq_nil_iff]
        exact hone
      rw [if_neg hone, hn]
      simp only [SenderMachine.segments, hempty, Bool.false_eq_true, if_false, if_true,
        List.cons_append]
      exact ⟨rfl, by rw [List.length_take]; omega,
        tiled_segments hmtu hdrop (by simp only [List.length_drop]; omega) ih⟩

theorem tiled_getElem (h : Tiled mtu opened stream) (hp : stream[a]? = some p) :
    p.2.length ≤ mtu ∧ (¬ Completes p → p.2.length = mtu) ∧ (p.1 = .last → p.2 ≠ []) ∧
      ((p.1 = .unsegmented ∨ p.1 = .first) ↔
        if a = 0 then opened = false else ∃ q, stream[a - 1]? = some q ∧ Completes q) := by
  induction stream generalizing opened a with
  | nil => simp at hp
  | cons q ps ih =>
    obtain ⟨flags, payload⟩ := q
    cases a with
    | zero =>
      simp only [List.getElem?_cons_zero, Option.some.injEq] at hp
      subst hp
      cases flags with
      | unsegmented | first =>
        obtain ⟨ho, hlen, -⟩ := h
        simp [Completes, ho]
        omega
      | continuation =>
        obtain ⟨ho, hlen, -⟩ := h
        simp [Completes, ho]
        omega
      | last =>
        obtain ⟨ho, ⟨hpos, hlen⟩, -⟩ := h
        have hne : payload ≠ [] := List.length_pos_iff.1 hpos
        simp [Completes, ho, hne]
        omega
    | succ a =>
      simp only [List.getElem?_cons_succ] at hp
      rw [if_neg (Nat.succ_ne_zero a), Nat.succ_sub_one]
      cases a with
      | zero =>
        simp only [List.getElem?_cons_zero, Option.some.injEq, exists_eq_left']
        cases flags with
        | unsegmented =>
          obtain ⟨h₁, h₂, h₃, h₄⟩ := ih h.2.2 hp
          exact ⟨h₁, h₂, h₃, by simpa [Completes] using h₄⟩
        | first =>
          obtain ⟨h₁, h₂, h₃, h₄⟩ := ih h.2.2 hp
          exact ⟨h₁, h₂, h₃, by simpa [Completes] using h₄⟩
        | continuation =>
          obtain ⟨h₁, h₂, h₃, h₄⟩ := ih h.2.2 hp
          exact ⟨h₁, h₂, h₃, by simpa [Completes] using h₄⟩
        | last =>
          obtain ⟨h₁, h₂, h₃, h₄⟩ := ih h.2.2 hp
          exact ⟨h₁, h₂, h₃, by simpa [Completes] using h₄⟩
      | succ a =>
        simp only [List.getElem?_cons_succ]
        cases flags with
        | unsegmented | first | continuation | last =>
          obtain ⟨h₁, h₂, h₃, h₄⟩ := ih h.2.2 hp
          exact ⟨h₁, h₂, h₃, by simpa using h₄⟩

theorem tiled_opens (h : Tiled mtu false stream) (hp : stream[n]? = some p) :
    (p.1 = .unsegmented ∨ p.1 = .first) ↔ messageStart stream n = n := by
  rw [(tiled_getElem h hp).2.2.2]
  cases n with
  | zero => simp [messageStart]
  | succ n =>
    rw [if_neg (Nat.succ_ne_zero n), Nat.succ_sub_one]
    have hle := messageStart_le stream n
    rcases messageStart_succ_cases stream n with ⟨q, hq, hc, hs⟩ | ⟨hc, hs⟩
    · exact ⟨fun _ => hs, fun _ => ⟨q, hq, hc⟩⟩
    · constructor
      · rintro ⟨q, hq, hq'⟩
        exact absurd hq' (hc q hq)
      · intro he
        omega

theorem feedAll_take (h : Tiled mtu false stream) (hn : n ≤ stream.length) :
    (feedAll none (stream.take n)).1 =
      if messageStart stream n = n then none
      else some (gathered stream (messageStart stream n) n) := by
  induction n with
  | zero => rfl
  | succ n ih =>
    have hp : stream[n]? = some stream[n] := List.getElem?_eq_getElem (by omega)
    have hle := messageStart_le stream n
    have hopens := tiled_opens h hp
    have hfeed : (feedAll none (stream.take (n + 1))).1 =
        (feed (feedAll none (stream.take n)).1 stream[n]).1 := by
      rw [List.take_add_one, hp, feedAll_append]
      rfl
    rw [hfeed, ih (by omega), messageStart_succ hp]
    generalize stream[n] = p at hp hopens
    obtain ⟨flags, payload⟩ := p
    cases flags with
    | unsegmented | last => simp [Completes, feed]
    | first =>
      have hstart := hopens.1 (Or.inr rfl)
      have hc : ¬ Completes (SequenceFlag.first, payload) := by simp [Completes]
      have hne : messageStart stream n ≠ n + 1 := by omega
      rw [if_neg hc, if_neg hne, gathered_succ hle hp, if_pos hstart, hstart, gathered_self]
      rfl
    | continuation =>
      have hstart : messageStart stream n ≠ n := fun he => by simpa using hopens.2 he
      have hc : ¬ Completes (SequenceFlag.continuation, payload) := by simp [Completes]
      have hne : messageStart stream n ≠ n + 1 := by omega
      rw [if_neg hc, if_neg hne, if_neg hstart, gathered_succ hle hp]
      rfl

theorem feed_completes (h : Tiled mtu false stream) (hp : stream[n]? = some p)
    (hc : Completes p) :
    (feed (feedAll none (stream.take n)).1 p).2 =
      some (gathered stream (messageStart stream n) (n + 1)) := by
  obtain ⟨hn, -⟩ := List.getElem?_eq_some_iff.1 hp
  have hle := messageStart_le stream n
  have hopens := tiled_opens h hp
  rw [feedAll_take h (by omega), gathered_succ hle hp]
  obtain ⟨flags, payload⟩ := p
  rcases hc with hf | hf
  · have hflags : flags = .unsegmented := hf
    subst hflags
    rw [if_pos (hopens.1 (Or.inl rfl)), hopens.1 (Or.inl rfl), gathered_self]
    rfl
  · have hflags : flags = .last := hf
    subst hflags
    have hstart : messageStart stream n ≠ n := fun he => by simpa using hopens.2 he
    rw [if_neg hstart]
    rfl

end Tiled

end Srspp
end Leodos
