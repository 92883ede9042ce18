/-
Nothing is lost on the way through a router.

The environment starts and drops `read` calls, hands packets to the router and completes
writes, in any order.  The log of the received packets with what became of each is compared
with what the links were given and what the calls returned.
-/
import Leodos.Isl.Router.Machine
import Leodos.Transition.System

namespace Leodos
namespace Isl

open Leodos.Ring Transition Function

variable {OUT : Nat}

/-! ## Runs of a router -/

/-- What became of a received packet. -/
inductive Fate where
  | dropped
  | returned
  | queued (link : Link)
  | refused (link : Link)
  deriving DecidableEq, Repr

/-- What the routing decision and the output queue make of received octets. -/
def Router.fate (r : Router OUT) (timeS : UInt32) (bytes : Bytes) : Fate :=
  match IslRoutingTelecommand.parse bytes with
  | .error _ => .dropped
  | .ok packet =>
    match (r.next packet timeS).link with
    | none => .returned
    | some link =>
      match (r.out link).push bytes with
      | some (true, _) => .queued link
      | _ => .refused link

/-- A router, `none` after a panic; the buffer length of a pending `read` call; the packets
it received, those that each link wrote, and those that the calls returned. -/
structure World (OUT : Nat) where
  router : Option (Router OUT)
  calling : Option Nat
  received : List (Bytes × Fate)
  written : Link → List Bytes
  returned : List Bytes

inductive Act (ε : Type) where
  | call (bufferLen : Nat)
  | drop
  | wake (timeS : UInt32) (event : Event ε)

namespace World

variable {ε : Type}

def start (mtu : Nat) (address : Address) (algorithm : Decision) : World OUT :=
  ⟨some (.new OUT mtu address algorithm), none, [], fun _ => [], []⟩

def withFate (s : World OUT) (fate : Fate) : List Bytes :=
  (s.received.filter fun x => x.2 = fate).map Prod.fst

/-- The logs after an event that the router is woken by. -/
def observe (s : World OUT) (r : Router OUT) (timeS : UInt32) : Event ε → World OUT
  | .read _ (.ok bytes) => { s with received := s.received ++ [(bytes, r.fate timeS bytes)] }
  | .write link (.ok ()) =>
    { s with written := update s.written link (s.written link ++ (r.stage link).join.toList) }
  | _ => s

def close (s : World OUT) : Option (Router OUT × Pass ε) → World OUT
  | none => { s with router := none }
  | some (r, .again) => { s with router := some r }
  | some (r, .returned (.error _)) => { s with router := some r, calling := none }
  | some (r, .returned (.ok bytes)) =>
    { s with router := some r, calling := none, returned := s.returned ++ [bytes] }

def next (s : World OUT) : Act ε → World OUT
  | .call bufferLen => { s with calling := some bufferLen }
  | .drop => { s with calling := none }
  | .wake timeS event =>
    match s.router, s.calling with
    | some r, some bufferLen =>
      (s.observe r timeS event).close (r.iteration bufferLen timeS event)
    | _, _ => s

/-- What can happen: a call with a buffer for every packet when none is pending, the end of
a pending one, a read of a packet that fits the port, a write of a staged packet. -/
def Possible (s : World OUT) : Act ε → Prop
  | .call bufferLen => s.calling = none ∧ ∃ r, s.router = some r ∧ r.mtu ≤ bufferLen
  | .drop => s.calling ≠ none
  | .wake _ event => s.calling ≠ none ∧ ∃ r, s.router = some r ∧
      match event with
      | .read _ (.ok bytes) => bytes.length ≤ r.mtu
      | .read _ (.error _) => True
      | .write link _ => ∃ data, r.stage link = some (some data)

/-- No write fails, and packets to forward find their queue in a clean position. -/
def Smooth (s : World OUT) : Act ε → Prop
  | .wake _ (.write _ result) => result.isOk
  | .wake timeS (.read _ (.ok bytes)) => ∀ r, s.router = some r → ∀ packet,
      IslRoutingTelecommand.parse bytes = .ok packet →
        ∀ link, (r.next packet timeS).link = some link → CleanlyQueued (r.out link) bytes
  | _ => True

def system (OUT : Nat) (ε : Type) : System (World OUT) (Act ε) where
  init s := ∃ mtu address algorithm, s = start mtu address algorithm
  step s act s' := s.Possible act ∧ s' = s.next act

/-- Every packet that a queue accepted was written by its link or waits in the queue, each
once and in order; the calls returned the packets for this node. -/
def Faithful (s : World OUT) : Prop :=
  ∃ r, s.router = some r ∧ s.returned = s.withFate .returned ∧
    ∀ link, ∃ q, (r.out link).contents = some q ∧ s.withFate (.queued link) = s.written link ++ q

/-! ## The invariant -/

/-- The queues hold what was accepted and not yet written, packets of the port's size. -/
structure Inv (s : World OUT) (r : Router OUT) : Prop where
  router : s.router = some r
  returned : s.returned = s.withFate .returned
  queues : ∀ link, ∃ q, Queues (r.out link) q ∧ (∀ bytes ∈ q, bytes.length ≤ r.mtu) ∧
    s.withFate (.queued link) = s.written link ++ q
  caller : ∀ bufferLen, s.calling = some bufferLen → r.mtu ≤ bufferLen

theorem Inv.faithful {s : World OUT} {r : Router OUT} (h : s.Inv r) : s.Faithful := by
  refine ⟨r, h.router, h.returned, fun link => ?_⟩
  obtain ⟨q, hq, -, hlog⟩ := h.queues link
  exact ⟨q, hq.contents, hlog⟩

theorem stage_eq {r : Router OUT} {link : Link} {q : List Bytes} (hq : Queues (r.out link) q)
    (hlen : ∀ bytes ∈ q, bytes.length ≤ r.mtu) : r.stage link = some q.head? := hq.staged hlen

theorem Inv.stage {s : World OUT} {r : Router OUT} (h : s.Inv r) (link : Link) :
    (r.stage link).isSome = true := by
  obtain ⟨q, hq, hlen, -⟩ := h.queues link
  rw [stage_eq hq hlen]
  rfl

theorem withFate_append (s : World OUT) (bytes : Bytes) (f fate : Fate) :
    withFate { s with received := s.received ++ [(bytes, f)] } fate =
      s.withFate fate ++ if f = fate then [bytes] else [] := by
  simp only [withFate, List.filter_append, List.map_append]
  congr 1
  by_cases h : f = fate
  · rw [if_pos h, h]
    simp
  · rw [if_neg h]
    simp [h]

theorem withFate_other (s : World OUT) (bytes : Bytes) {f fate : Fate} (h : f ≠ fate) :
    withFate { s with received := s.received ++ [(bytes, f)] } fate = s.withFate fate := by
  rw [withFate_append, if_neg h, List.append_nil]

theorem Inv.wrote {s : World OUT} {r : Router OUT} (h : s.Inv r) {bufferLen : Nat}
    (hcall : s.calling = some bufferLen) (timeS : UInt32) {link : Link} {data : Bytes}
    (hstage : r.stage link = some (some data)) :
    ∃ r', (s.next (.wake timeS (.write link (.ok ()) : Event ε))).Inv r' := by
  obtain ⟨q, hq, hlen, hlog⟩ := h.queues link
  rw [stage_eq hq hlen, Option.some_inj] at hstage
  obtain ⟨rest, rfl⟩ : ∃ rest, q = data :: rest := by
    cases q with
    | nil => cases hstage
    | cons d rest =>
      cases hstage
      exact ⟨rest, rfl⟩
  obtain ⟨ring', hpop, hrest⟩ := hq.pop
  obtain ⟨diag, hiter⟩ : ∃ diag, r.iteration bufferLen timeS (.write link (.ok ()) : Event ε) =
      some ({ r with out := update r.out link ring', diag }, .again) := by
    rw [Router.iteration_eq h.stage, Router.handle, hpop]
    exact ⟨_, rfl⟩
  have hnext : s.next (.wake timeS (.write link (.ok ()) : Event ε)) =
      { s with
        router := some { r with out := update r.out link ring', diag }
        written := update s.written link (s.written link ++ [data]) } := by
    simp only [next, h.router, hcall, hiter, observe, close, stage_eq hq hlen, List.head?_cons,
      Option.join_some, Option.toList_some]
  rw [hnext]
  refine ⟨_, rfl, h.returned, fun other => ?_, h.caller⟩
  by_cases heq : other = link
  · rw [heq]
    refine ⟨rest, ?_, fun bytes hmem => hlen bytes (List.mem_cons_of_mem _ hmem), ?_⟩
    · show Queues (update r.out link ring' link) rest
      rw [update_self]
      exact hrest
    · show s.withFate (.queued link) = update s.written link (s.written link ++ [data]) link ++ rest
      rw [update_self, hlog, List.append_assoc]
      rfl
  · obtain ⟨q', hq', hlen', hlog'⟩ := h.queues other
    refine ⟨q', ?_, hlen', ?_⟩
    · show Queues (update r.out link ring' other) q'
      rw [update_of_ne heq]
      exact hq'
    · show s.withFate (.queued other) = update s.written link _ other ++ q'
      rw [update_of_ne heq]
      exact hlog'

theorem Inv.readFailed {s : World OUT} {r : Router OUT} (h : s.Inv r) {bufferLen : Nat}
    (hcall : s.calling = some bufferLen) (timeS : UInt32) (link : Link) (e : ε) :
    ∃ r', (s.next (.wake timeS (.read link (.error e)))).Inv r' := by
  obtain ⟨diag, hiter⟩ : ∃ diag, r.iteration bufferLen timeS (.read link (.error e)) =
      some ({ r with diag }, .returned (.error (.link link e))) := by
    rw [Router.iteration_eq h.stage, Router.handle]
    exact ⟨_, rfl⟩
  have hnext : s.next (.wake timeS (.read link (.error e))) =
      { s with router := some { r with diag }, calling := none } := by
    simp only [next, h.router, hcall, hiter, observe, close]
  rw [hnext]
  exact ⟨_, rfl, h.returned, h.queues, fun n hn => by cases hn⟩

theorem Inv.dropped {s : World OUT} {r : Router OUT} (h : s.Inv r) {bufferLen : Nat}
    (hcall : s.calling = some bufferLen) (timeS : UInt32) (link : Link) {bytes : Bytes}
    {e : IslMessageError} (hparse : IslRoutingTelecommand.parse bytes = .error e) :
    ∃ r', (s.next (.wake timeS (.read link (.ok bytes) : Event ε))).Inv r' := by
  obtain ⟨diag, hiter⟩ : ∃ diag, r.iteration bufferLen timeS (.read link (.ok bytes) : Event ε) =
      some ({ r with diag }, .again) := by
    rw [Router.iteration_eq h.stage, Router.handle, Router.routePacket, hparse]
    exact ⟨_, rfl⟩
  have hfate : r.fate timeS bytes = .dropped := by rw [Router.fate, hparse]
  have hnext : s.next (.wake timeS (.read link (.ok bytes) : Event ε)) =
      { s with
        router := some { r with diag }
        received := s.received ++ [(bytes, .dropped)] } := by
    simp only [next, h.router, hcall, hiter, observe, close, hfate]
  rw [hnext]
  refine ⟨_, rfl, h.returned.trans (withFate_other s bytes (by decide)).symm, fun other => ?_,
    h.caller⟩
  obtain ⟨q, hq, hmtu, heq⟩ := h.queues other
  exact ⟨q, hq, hmtu, (withFate_other s bytes (by intro h'; cases h')).trans heq⟩

theorem Inv.delivered {s : World OUT} {r : Router OUT} (h : s.Inv r) {bufferLen : Nat}
    (hcall : s.calling = some bufferLen) {timeS : UInt32} (link : Link) {bytes : Bytes}
    (hlen : bytes.length ≤ r.mtu) {packet : IslRoutingTelecommand}
    (hparse : IslRoutingTelecommand.parse bytes = .ok packet)
    (hlink : (r.next packet timeS).link = none) :
    ∃ r', (s.next (.wake timeS (.read link (.ok bytes) : Event ε))).Inv r' := by
  have hbuf := h.caller bufferLen hcall
  obtain ⟨diag, hiter⟩ : ∃ diag, r.iteration bufferLen timeS (.read link (.ok bytes) : Event ε) =
      some ({ r with diag }, .returned (.ok bytes)) := by
    rw [Router.iteration_eq h.stage, Router.handle]
    exact Router.routePacket_returned hparse hlink (Nat.le_trans hlen hbuf) link _
  have hfate : r.fate timeS bytes = .returned := by
    rw [Router.fate, hparse]
    dsimp only
    rw [hlink]
  have hnext : s.next (.wake timeS (.read link (.ok bytes) : Event ε)) =
      { s with
        router := some { r with diag }
        calling := none
        received := s.received ++ [(bytes, .returned)]
        returned := s.returned ++ [bytes] } := by
    simp only [next, h.router, hcall, hiter, observe, close, hfate]
  rw [hnext]
  refine ⟨_, rfl, ?_, fun other => ?_, fun n hn => (by cases hn)⟩
  · show s.returned ++ [bytes] = withFate { s with received := s.received ++ [_] } .returned
    rw [withFate_append, if_pos rfl, h.returned]
  · obtain ⟨q, hq, hmtu, heq⟩ := h.queues other
    exact ⟨q, hq, hmtu, (withFate_other s bytes (by intro h'; cases h')).trans heq⟩

theorem Inv.forwarded {s : World OUT} {r : Router OUT} (h : s.Inv r) {bufferLen : Nat}
    (hcall : s.calling = some bufferLen) {timeS : UInt32} (link : Link) {bytes : Bytes}
    (hlen : bytes.length ≤ r.mtu) {packet : IslRoutingTelecommand}
    (hparse : IslRoutingTelecommand.parse bytes = .ok packet) {outLink : Link}
    (hlink : (r.next packet timeS).link = some outLink)
    (hclean : CleanlyQueued (r.out outLink) bytes) :
    ∃ r', (s.next (.wake timeS (.read link (.ok bytes) : Event ε))).Inv r' := by
  obtain ⟨q, hq, hmtu, heq⟩ := h.queues outLink
  obtain ⟨accepted, ring', hpush, hq'⟩ := hq.push hclean
  obtain ⟨diag, hiter⟩ : ∃ diag, r.iteration bufferLen timeS (.read link (.ok bytes) : Event ε) =
      some ({ r with out := update r.out outLink ring', diag }, .again) := by
    rw [Router.iteration_eq h.stage, Router.handle]
    exact Router.routePacket_pushed hparse hlink hpush bufferLen link _
  obtain ⟨fate, hfate, hne, hlog, hmtu'⟩ : ∃ fate, r.fate timeS bytes = fate ∧ fate ≠ .returned ∧
      (∀ other, withFate { s with received := s.received ++ [(bytes, fate)] } (.queued other) =
        if other = outLink then s.written outLink ++ (if accepted then q ++ [bytes] else q)
        else s.withFate (.queued other)) ∧
      ∀ data ∈ (if accepted then q ++ [bytes] else q), data.length ≤ r.mtu := by
    refine ⟨if accepted then .queued outLink else .refused outLink, ?_, ?_, fun other => ?_, ?_⟩
    · rw [Router.fate, hparse]
      dsimp only
      rw [hlink]
      dsimp only
      rw [hpush]
      cases accepted <;> rfl
    · cases accepted <;> simp
    · rw [withFate_append]
      by_cases hother : other = outLink
      · rw [if_pos hother, hother, heq]
        cases accepted <;> simp
      · have hother' : ¬ outLink = other := fun h' => hother h'.symm
        rw [if_neg hother]
        cases accepted <;> simp [hother']
    · cases accepted with
      | false => exact hmtu
      | true =>
        intro data hmem
        obtain hold | hnew := List.mem_append.1 hmem
        · exact hmtu data hold
        · rw [List.mem_singleton.1 hnew]
          exact hlen
  have hnext : s.next (.wake timeS (.read link (.ok bytes) : Event ε)) =
      { s with
        router := some { r with out := update r.out outLink ring', diag }
        received := s.received ++ [(bytes, fate)] } := by
    simp only [next, h.router, hcall, hiter, observe, close, hfate]
  rw [hnext]
  refine ⟨_, rfl, h.returned.trans (withFate_other s bytes hne).symm, fun other => ?_, h.caller⟩
  by_cases hother : other = outLink
  · refine ⟨if accepted then q ++ [bytes] else q, ?_, hmtu', (hlog other).trans ?_⟩
    · show Queues (update r.out outLink ring' other) _
      rw [hother, update_self]
      exact hq'
    · rw [if_pos hother, hother]
  · obtain ⟨q', hq₂, hmtu₂, heq'⟩ := h.queues other
    refine ⟨q', ?_, hmtu₂, (hlog other).trans ?_⟩
    · show Queues (update r.out outLink ring' other) q'
      rw [update_of_ne hother]
      exact hq₂
    · rw [if_neg hother, heq']

theorem Inv.received {s : World OUT} {r : Router OUT} (h : s.Inv r) {bufferLen : Nat}
    (hcall : s.calling = some bufferLen) (timeS : UInt32) (link : Link) {bytes : Bytes}
    (hlen : bytes.length ≤ r.mtu)
    (hsmooth : ∀ packet, IslRoutingTelecommand.parse bytes = .ok packet →
      ∀ outLink, (r.next packet timeS).link = some outLink →
        CleanlyQueued (r.out outLink) bytes) :
    ∃ r', (s.next (.wake timeS (.read link (.ok bytes) : Event ε))).Inv r' := by
  cases hparse : IslRoutingTelecommand.parse bytes with
  | error e => exact h.dropped hcall timeS link hparse
  | ok packet =>
    cases hlink : (r.next packet timeS).link with
    | none => exact h.delivered hcall link hlen hparse hlink
    | some outLink =>
      exact h.forwarded hcall link hlen hparse hlink (hsmooth packet hparse outLink hlink)

theorem Inv.step {s : World OUT} {r : Router OUT} (h : s.Inv r) {act : Act ε}
    (hpossible : s.Possible act) (hsmooth : s.Smooth act) : ∃ r', (s.next act).Inv r' := by
  cases act with
  | call bufferLen =>
    obtain ⟨-, r', hr, hle⟩ := hpossible
    cases h.router.symm.trans hr
    exact ⟨r, h.router, h.returned, h.queues, fun n hn => by cases hn; exact hle⟩
  | drop => exact ⟨r, h.router, h.returned, h.queues, fun n hn => by cases hn⟩
  | wake timeS event =>
    obtain ⟨hcalling, r', hr, hevent⟩ := hpossible
    cases h.router.symm.trans hr
    obtain ⟨bufferLen, hcall⟩ := Option.ne_none_iff_exists'.1 hcalling
    cases event with
    | read link result =>
      cases result with
      | error e => exact h.readFailed hcall timeS link e
      | ok bytes => exact h.received hcall timeS link hevent (hsmooth r h.router)
    | write link result =>
      cases result with
      | error e => cases hsmooth
      | ok u =>
        obtain ⟨data, hdata⟩ := hevent
        exact h.wrote hcall timeS hdata

end World

theorem faithful_of_smooth {ε : Type} {s : World OUT}
    (h : (World.system OUT ε).Reaches (fun s act => s.Smooth act) s) : s.Faithful := by
  obtain ⟨r, hr⟩ := h.invariant (fun s => ∃ r, s.Inv r)
    (fun s hinit => by
      obtain ⟨mtu, address, algorithm, rfl⟩ := hinit
      exact ⟨_, rfl, rfl, fun link => ⟨[], queues_new, fun _ hmem => (by cases hmem), rfl⟩,
        fun n hn => (by cases hn)⟩)
    (fun s act s' hinv hok hstep => by
      obtain ⟨r, hr⟩ := hinv
      obtain ⟨hpossible, rfl⟩ := hstep
      exact hr.step hpossible hok)
  exact hr.faithful

/-! ## Two runs of one packet -/

def onePacket : Bytes := [0x18, 0x2a, 0xc0, 0, 0, 3, 0, 0, 2, 2]

/-- A router that sends everything east, after a call began and `onePacket` came from the
north. -/
def oneQueued : World 64 :=
  ((World.start 32 (.satellite ⟨0, 0⟩) fun _ _ _ => .isl .east).next
    (.call 32 : Act Unit)).next (.wake 0 (.read (.isl .north) (.ok onePacket)) : Act Unit)

theorem oneQueued_reaches :
    (World.system 64 Unit).Reaches (fun s act => s.Smooth act) oneQueued := by
  obtain ⟨s₀, hs₀⟩ : ∃ s₀ : World 64,
      s₀ = World.start 32 (.satellite ⟨0, 0⟩) fun _ _ _ => .isl .east := ⟨_, rfl⟩
  have hstart : (World.system 64 Unit).Reaches (fun s act => s.Smooth act) s₀ :=
    .init ⟨_, _, _, hs₀⟩
  have hcall : s₀.Possible (.call 32 : Act Unit) := by
    rw [hs₀]
    exact ⟨rfl, _, rfl, by decide⟩
  have hread : (s₀.next (.call 32 : Act Unit)).Possible
      (.wake 0 (.read (.isl .north) (.ok onePacket)) : Act Unit) := by
    rw [hs₀]
    exact ⟨(by intro h; cases h), _, rfl, by decide⟩
  have hsmooth : (s₀.next (.call 32 : Act Unit)).Smooth
      (.wake 0 (.read (.isl .north) (.ok onePacket)) : Act Unit) := by
    rw [hs₀]
    intro r hr packet hp link hl
    cases hr
    cases hl
    decide
  have hqueued : oneQueued = (s₀.next (.call 32 : Act Unit)).next
      (.wake 0 (.read (.isl .north) (.ok onePacket)) : Act Unit) := by
    rw [hs₀]
    rfl
  rw [hqueued]
  exact .step _ (.step (.call 32) hstart trivial ⟨hcall, rfl⟩) hsmooth ⟨hread, rfl⟩

theorem oneQueued_write (result : Except Unit Unit) :
    oneQueued.Possible (.wake 0 (.write (.isl .east) result) : Act Unit) :=
  ⟨(by intro h; cases h), _, rfl, onePacket, by decide⟩

theorem faithful_of_smooth_one :
    (oneQueued.next (.wake 0 (.write (.isl .east) (.ok ())) : Act Unit)).written (.isl .east) =
      [onePacket] ∧
    (oneQueued.next (.wake 0 (.write (.isl .east) (.ok ())) : Act Unit)).Faithful :=
  ⟨by decide, faithful_of_smooth
    (.step (.wake 0 (.write (.isl .east) (.ok ())) : Act Unit) oneQueued_reaches rfl
      ⟨oneQueued_write (.ok ()), rfl⟩)⟩

/-- The packet leaves the queue although its write failed. -/
theorem failed_write_loses_packet :
    (World.system 64 Unit).Reachable
      (oneQueued.next (.wake 0 (.write (.isl .east) (.error ())) : Act Unit)) ∧
    ¬ (oneQueued.next (.wake 0 (.write (.isl .east) (.error ())) : Act Unit)).Faithful := by
  refine ⟨.step (.wake 0 (.write (.isl .east) (.error ()))) oneQueued_reaches.reachable trivial
    ⟨oneQueued_write (.error ()), rfl⟩, ?_⟩
  intro h
  obtain ⟨r, hr, -, hlinks⟩ := h
  obtain ⟨q, hq, hlog⟩ := hlinks (.isl .east)
  cases hr
  have hempty : some q = some [] := hq.symm.trans (by decide)
  cases hempty
  revert hlog
  decide

end Isl
end Leodos
