/-
Flooding a network with messages.

A node that handles a message for the first time queues a copy for every arc that leaves
it and does not lead to the origin; it drops what it has handled before.  Copies wait at
the foot of an arc, are sent, and are delivered in any order.  A handled message has been
handled next door or is on its way there, so when no copy is left every node that the
origin reaches has handled it; and every step but the issue of a message uses up some of
a finite supply.
-/
import Leodos.Transition.System
import Mathlib.Algebra.Order.BigOperators.Group.Finset
import Mathlib.Data.Fintype.BigOperators
import Mathlib.Logic.Function.Basic
import Mathlib.Logic.Relation

namespace Leodos
namespace Transition

open Function

structure Net (ν α : Type) where
  source : α → ν
  target : α → ν

namespace Net

variable {ν α : Type}

/-- An arc leads from the one node to the other. -/
def Linked (net : Net ν α) (x y : ν) : Prop := ∃ a, net.source a = x ∧ net.target a = y

def Reaches (net : Net ν α) : ν → ν → Prop := Relation.ReflTransGen net.Linked

end Net

namespace Flood

/-- The messages issued so far, those that each node handled, and the copies that wait at
each arc and travel on it. -/
structure State (ν α μ : Type) where
  issued : List μ
  handled : ν → List μ
  waiting : α → List μ
  flight : α → List μ

/-- A message is issued, the first copy that waits at an arc is sent, or the copy at a
place of the flight on an arc is delivered. -/
inductive Act (α μ : Type) where
  | issue (m : μ)
  | send (a : α)
  | deliver (a : α) (place : Nat)

variable {ν α μ : Type}

namespace State

def start : State ν α μ := ⟨[], fun _ => [], fun _ => [], fun _ => []⟩

def handle [DecidableEq ν] (s : State ν α μ) (x : ν) (m : μ) : State ν α μ :=
  { s with handled := update s.handled x (s.handled x ++ [m]) }

/-- The origin handles its message and sends it over every arc at once. -/
def issue [DecidableEq ν] (net : Net ν α) (origin : μ → ν) (s : State ν α μ) (m : μ) :
    State ν α μ :=
  { s.handle (origin m) m with
    issued := s.issued ++ [m]
    flight := fun a => if net.source a = origin m then s.flight a ++ [m] else s.flight a }

def send [DecidableEq α] (s : State ν α μ) (a : α) : State ν α μ :=
  { s with
    waiting := update s.waiting a (s.waiting a).tail
    flight := update s.flight a (s.flight a ++ (s.waiting a).head?.toList) }

/-- The arcs out of `x` that `m` is passed on over. -/
def Onward (net : Net ν α) (origin : μ → ν) (x : ν) (m : μ) (a : α) : Prop :=
  net.source a = x ∧ net.target a ≠ origin m

instance [DecidableEq ν] (net : Net ν α) (origin : μ → ν) (x : ν) (m : μ) (a : α) :
    Decidable (Onward net origin x m a) := inferInstanceAs (Decidable (_ ∧ _))

def forward [DecidableEq ν] (net : Net ν α) (origin : μ → ν) (s : State ν α μ) (x : ν) (m : μ) :
    State ν α μ :=
  { s.handle x m with
    waiting := fun a => if Onward net origin x m a then s.waiting a ++ [m] else s.waiting a }

def remove [DecidableEq α] (s : State ν α μ) (a : α) (place : Nat) : State ν α μ :=
  { s with flight := update s.flight a ((s.flight a).eraseIdx place) }

def deliver [DecidableEq ν] [DecidableEq α] [DecidableEq μ] (net : Net ν α) (origin : μ → ν)
    (s : State ν α μ) (a : α) (place : Nat) : State ν α μ :=
  match (s.flight a)[place]? with
  | none => s
  | some m =>
    if m ∈ s.handled (net.target a) then s.remove a place
    else (s.remove a place).forward net origin (net.target a) m

end State

open State

def system [DecidableEq ν] [DecidableEq α] [DecidableEq μ] (net : Net ν α) (origin : μ → ν) :
    System (State ν α μ) (Act α μ) where
  init s := s = start
  step s act s' :=
    match act with
    | .issue m => m ∉ s.issued ∧ s' = s.issue net origin m
    | .send a => s.waiting a ≠ [] ∧ s' = s.send a
    | .deliver a place => place < (s.flight a).length ∧ s' = s.deliver net origin a place

/-- A copy of the message waits at the arc or travels on it. -/
def State.Carries (s : State ν α μ) (a : α) (m : μ) : Prop := m ∈ s.waiting a ∨ m ∈ s.flight a

variable {net : Net ν α} {origin : μ → ν}

/-- Only issued messages are about, none is handled twice, and what a node handled was
handled by its neighbours or is on the way there. -/
structure Inv (net : Net ν α) (origin : μ → ν) (s : State ν α μ) : Prop where
  issued_nodup : s.issued.Nodup
  handled_nodup : ∀ x, (s.handled x).Nodup
  handled_issued : ∀ {x m}, m ∈ s.handled x → m ∈ s.issued
  carried_issued : ∀ {a m}, s.Carries a m → m ∈ s.issued
  origin_handled : ∀ {m}, m ∈ s.issued → m ∈ s.handled (origin m)
  passed : ∀ {a m}, m ∈ s.handled (net.source a) → s.Carries a m ∨ m ∈ s.handled (net.target a)

theorem inv_start : Inv net origin (start : State ν α μ) where
  issued_nodup := List.nodup_nil
  handled_nodup := fun _ => List.nodup_nil
  handled_issued := fun h => (List.not_mem_nil h).elim
  carried_issued := fun h => h.elim (fun h => (List.not_mem_nil h).elim)
    fun h => (List.not_mem_nil h).elim
  origin_handled := fun h => (List.not_mem_nil h).elim
  passed := fun h => (List.not_mem_nil h).elim

theorem mem_handle [DecidableEq ν] {s : State ν α μ} {x y : ν} {m n : μ} :
    n ∈ (s.handle x m).handled y ↔ n ∈ s.handled y ∨ y = x ∧ n = m := by
  show n ∈ update s.handled x (s.handled x ++ [m]) y ↔ _
  by_cases hy : y = x
  · rw [hy, update_self, List.mem_append, List.mem_singleton]
    simp only [true_and]
  · rw [update_of_ne hy]
    simp only [hy, false_and, or_false]

theorem nodup_handle [DecidableEq ν] {s : State ν α μ} {x : ν} {m : μ}
    (h : ∀ y, (s.handled y).Nodup)
    (hm : m ∉ s.handled x) (y : ν) : ((s.handle x m).handled y).Nodup := by
  show (update s.handled x (s.handled x ++ [m]) y).Nodup
  by_cases hy : y = x
  · rw [hy, update_self]
    exact List.nodup_append.2 ⟨h x, List.nodup_singleton m,
      fun a ha b hb hab => hm (List.mem_singleton.1 hb ▸ hab ▸ ha)⟩
  · rw [update_of_ne hy]
    exact h y

theorem Inv.issue [DecidableEq ν] {s : State ν α μ} (h : Inv net origin s) {m : μ}
    (hm : m ∉ s.issued) :
    Inv net origin (s.issue net origin m) where
  issued_nodup := List.nodup_append.2 ⟨h.issued_nodup, List.nodup_singleton m,
    fun a ha b hb hab => hm (List.mem_singleton.1 hb ▸ hab ▸ ha)⟩
  handled_nodup := nodup_handle h.handled_nodup fun hin => hm (h.handled_issued hin)
  handled_issued := by
    intro x n hn
    apply List.mem_append.2
    obtain hold | ⟨-, rfl⟩ := mem_handle.1 hn
    · exact Or.inl (h.handled_issued hold)
    · exact Or.inr List.mem_cons_self
  carried_issued := by
    intro a n hn
    apply List.mem_append.2
    obtain hwait | hfly := hn
    · exact Or.inl (h.carried_issued (Or.inl hwait))
    · replace hfly : n ∈ if net.source a = origin m then s.flight a ++ [m] else s.flight a := hfly
      by_cases ha : net.source a = origin m
      · rw [if_pos ha, List.mem_append] at hfly
        exact hfly.imp (fun hf => h.carried_issued (Or.inr hf)) id
      · rw [if_neg ha] at hfly
        exact Or.inl (h.carried_issued (Or.inr hfly))
  origin_handled := by
    intro n hn
    apply mem_handle.2
    obtain hold | hnew := List.mem_append.1 hn
    · exact Or.inl (h.origin_handled hold)
    · rw [List.mem_singleton.1 hnew]
      exact Or.inr ⟨rfl, rfl⟩
  passed := by
    intro a n hn
    have hfly : n ∈ s.flight a → n ∈ (s.issue net origin m).flight a := by
      intro hf
      show n ∈ if net.source a = origin m then s.flight a ++ [m] else s.flight a
      by_cases ha : net.source a = origin m
      · rw [if_pos ha]
        exact List.mem_append_left _ hf
      · rw [if_neg ha]
        exact hf
    obtain hold | ⟨hsource, rfl⟩ := mem_handle.1 hn
    · obtain hcarried | hdone := h.passed hold
      · exact Or.inl (hcarried.imp id hfly)
      · exact Or.inr (mem_handle.2 (Or.inl hdone))
    · refine Or.inl (Or.inr ?_)
      show n ∈ if net.source a = origin n then s.flight a ++ [n] else s.flight a
      rw [if_pos hsource]
      exact List.mem_append_right _ List.mem_cons_self

theorem carries_send [DecidableEq α] {s : State ν α μ} {a b : α} {m : μ} :
    (s.send a).Carries b m ↔ s.Carries b m := by
  show m ∈ update s.waiting a _ b ∨ m ∈ update s.flight a _ b ↔ m ∈ s.waiting b ∨ m ∈ s.flight b
  by_cases hb : b = a
  · rw [hb, update_self, update_self, List.mem_append]
    cases s.waiting a with
    | nil => simp
    | cons first rest =>
      simp only [List.tail_cons, List.head?_cons, Option.toList_some, List.mem_cons,
        List.not_mem_nil, or_false]
      constructor
      · intro h
        obtain hrest | hfly | hfirst := h
        · exact Or.inl (Or.inr hrest)
        · exact Or.inr hfly
        · exact Or.inl (Or.inl hfirst)
      · intro h
        obtain (hfirst | hrest) | hfly := h
        · exact Or.inr (Or.inr hfirst)
        · exact Or.inl hrest
        · exact Or.inr (Or.inl hfly)
  · rw [update_of_ne hb, update_of_ne hb]

theorem Inv.send [DecidableEq α] {s : State ν α μ} (h : Inv net origin s) (a : α) :
    Inv net origin (s.send a) where
  issued_nodup := h.issued_nodup
  handled_nodup := h.handled_nodup
  handled_issued := h.handled_issued
  carried_issued := fun hc => h.carried_issued (carries_send.1 hc)
  origin_handled := h.origin_handled
  passed := fun hm => (h.passed hm).imp carries_send.2 id

theorem carries_remove [DecidableEq α] {s : State ν α μ} {a : α} {place : Nat} {m : μ}
    (hm : (s.flight a)[place]? = some m) {b : α} {n : μ} (hn : s.Carries b n) :
    (s.remove a place).Carries b n ∨ b = a ∧ n = m := by
  obtain hwait | hfly := hn
  · exact Or.inl (Or.inl hwait)
  · by_cases hb : b = a
    · obtain ⟨i, hi⟩ := List.mem_iff_getElem?.1 hfly
      by_cases hplace : i = place
      · rw [hplace, hb, hm] at hi
        exact Or.inr ⟨hb, (Option.some_inj.1 hi).symm⟩
      · refine Or.inl (Or.inr ?_)
        show n ∈ update s.flight a _ b
        rw [hb] at hi ⊢
        rw [update_self]
        exact List.mem_eraseIdx_iff_getElem?.2 ⟨i, hplace, hi⟩
    · refine Or.inl (Or.inr ?_)
      show n ∈ update s.flight a _ b
      rw [update_of_ne hb]
      exact hfly

theorem carries_of_remove [DecidableEq α] {s : State ν α μ} {a b : α} {place : Nat} {n : μ}
    (hn : (s.remove a place).Carries b n) : s.Carries b n := by
  refine hn.imp id fun hfly => ?_
  replace hfly : n ∈ update s.flight a ((s.flight a).eraseIdx place) b := hfly
  by_cases hb : b = a
  · rw [hb, update_self] at hfly
    rw [hb]
    exact List.mem_of_mem_eraseIdx hfly
  · rw [update_of_ne hb] at hfly
    exact hfly

theorem Inv.deliver_dropped [DecidableEq α] {s : State ν α μ} (h : Inv net origin s) {a : α}
    {place : Nat} {m : μ}
    (hm : (s.flight a)[place]? = some m) (hdone : m ∈ s.handled (net.target a)) :
    Inv net origin (s.remove a place) where
  issued_nodup := h.issued_nodup
  handled_nodup := h.handled_nodup
  handled_issued := h.handled_issued
  carried_issued := fun hc => h.carried_issued (carries_of_remove hc)
  origin_handled := h.origin_handled
  passed := by
    intro b n hn
    obtain hcarried | hpassed := h.passed hn
    · obtain hstill | ⟨rfl, rfl⟩ := carries_remove hm hcarried
      · exact Or.inl hstill
      · exact Or.inr hdone
    · exact Or.inr hpassed

theorem carries_forward [DecidableEq ν] {s : State ν α μ} {x : ν} {m : μ} {b : α} {n : μ} :
    (s.forward net origin x m).Carries b n ↔
      s.Carries b n ∨ Onward net origin x m b ∧ n = m := by
  show (n ∈ if Onward net origin x m b then s.waiting b ++ [m] else s.waiting b) ∨
    n ∈ s.flight b ↔ _
  by_cases hb : Onward net origin x m b
  · rw [if_pos hb, List.mem_append, List.mem_singleton, or_right_comm]
    simp only [hb, true_and]
    rfl
  · rw [if_neg hb]
    simp only [hb, false_and, or_false]
    rfl

theorem Inv.deliver_handled [DecidableEq ν] [DecidableEq α] {s : State ν α μ}
    (h : Inv net origin s) {a : α} {place : Nat} {m : μ}
    (hm : (s.flight a)[place]? = some m) (hnew : m ∉ s.handled (net.target a)) :
    Inv net origin ((s.remove a place).forward net origin (net.target a) m) where
  issued_nodup := h.issued_nodup
  handled_nodup := nodup_handle h.handled_nodup hnew
  handled_issued := by
    intro x n hn
    obtain hold | ⟨-, rfl⟩ := mem_handle.1 hn
    · exact h.handled_issued hold
    · exact h.carried_issued (Or.inr (List.mem_of_getElem? hm))
  carried_issued := by
    intro b n hn
    obtain hold | ⟨-, rfl⟩ := carries_forward.1 hn
    · exact h.carried_issued (carries_of_remove hold)
    · exact h.carried_issued (Or.inr (List.mem_of_getElem? hm))
  origin_handled := fun hn => mem_handle.2 (Or.inl (h.origin_handled hn))
  passed := by
    intro b n hn
    obtain hold | ⟨hsource, rfl⟩ := mem_handle.1 hn
    · obtain hcarried | hpassed := h.passed hold
      · obtain hstill | ⟨rfl, rfl⟩ := carries_remove hm hcarried
        · exact Or.inl (carries_forward.2 (Or.inl hstill))
        · exact Or.inr (mem_handle.2 (Or.inr ⟨rfl, rfl⟩))
      · exact Or.inr (mem_handle.2 (Or.inl hpassed))
    · by_cases horigin : net.target b = origin n
      · refine Or.inr (mem_handle.2 (Or.inl ?_))
        rw [horigin]
        exact h.origin_handled (h.carried_issued (Or.inr (List.mem_of_getElem? hm)))
      · exact Or.inl (carries_forward.2 (Or.inr ⟨⟨hsource, horigin⟩, rfl⟩))

theorem Inv.reached {s : State ν α μ} (h : Inv net origin s) {m : μ} (hm : m ∈ s.issued)
    (hgone : ∀ a, ¬ s.Carries a m) {x : ν} (hx : net.Reaches (origin m) x) : m ∈ s.handled x := by
  induction hx with
  | refl => exact h.origin_handled hm
  | tail _ hlink ih =>
    obtain ⟨a, rfl, rfl⟩ := hlink
    exact (h.passed ih).resolve_left (hgone a)

/-! ## The supply -/

section Energy

variable [Fintype ν] [Fintype α]

/-- Two for a copy that waits, one for a copy on an arc, and enough for the copies that
each node may still put out. -/
def energy (s : State ν α μ) : Nat :=
  2 * ∑ a, (s.waiting a).length + ∑ a, (s.flight a).length +
    (2 * Fintype.card α + 1) * ∑ x, (s.issued.length - (s.handled x).length)

theorem sum_update {ι : Type} [DecidableEq ι] [Fintype ι] (f : ι → Nat) (i : ι) (v : Nat) :
    ∑ j, update f i v j + f i = ∑ j, f j + v := by
  rw [← Finset.add_sum_erase Finset.univ f (Finset.mem_univ i),
    ← Finset.add_sum_erase Finset.univ (update f i v) (Finset.mem_univ i), update_self]
  have hrest : ∑ j ∈ Finset.univ.erase i, update f i v j = ∑ j ∈ Finset.univ.erase i, f j :=
    Finset.sum_congr rfl fun j hj => update_of_ne (Finset.ne_of_mem_erase hj) _ _
  rw [hrest]
  omega

theorem sum_length_update {ι β : Type} [DecidableEq ι] [Fintype ι] (f : ι → List β) (i : ι)
    (v : List β) : ∑ j, (update f i v j).length + (f i).length = ∑ j, (f j).length + v.length := by
  rw [← sum_update (fun j => (f j).length) i v.length]
  congr 2
  funext j
  by_cases hj : j = i
  · rw [hj, update_self, update_self]
  · rw [update_of_ne hj, update_of_ne hj]

theorem energy_send [DecidableEq α] {s : State ν α μ} {a : α} (ha : s.waiting a ≠ []) :
    energy (s.send a) < energy s := by
  obtain ⟨first, rest, hq⟩ := List.exists_cons_of_ne_nil ha
  have hwait := sum_length_update s.waiting a (s.waiting a).tail
  have hfly := sum_length_update s.flight a (s.flight a ++ (s.waiting a).head?.toList)
  have htail : (s.waiting a).tail.length + 1 = (s.waiting a).length := by
    rw [hq]
    rfl
  have hhead : (s.waiting a).head?.toList.length = 1 := by
    rw [hq]
    rfl
  rw [List.length_append, hhead] at hfly
  show 2 * ∑ b, (update s.waiting a (s.waiting a).tail b).length +
    ∑ b, (update s.flight a (s.flight a ++ (s.waiting a).head?.toList) b).length +
    (2 * Fintype.card α + 1) * ∑ x, (s.issued.length - (s.handled x).length) < energy s
  rw [energy]
  omega

theorem energy_remove [DecidableEq α] {s : State ν α μ} {a : α} {place : Nat}
    (hplace : place < (s.flight a).length) : energy (s.remove a place) + 1 = energy s := by
  have hfly := sum_length_update s.flight a ((s.flight a).eraseIdx place)
  rw [List.length_eraseIdx_of_lt hplace] at hfly
  show 2 * ∑ b, (s.waiting b).length +
    ∑ b, (update s.flight a ((s.flight a).eraseIdx place) b).length +
    (2 * Fintype.card α + 1) * ∑ x, (s.issued.length - (s.handled x).length) + 1 = energy s
  rw [energy]
  omega

theorem energy_forward [DecidableEq ν] {s : State ν α μ} {x : ν} {m : μ}
    (hroom : (s.handled x).length < s.issued.length) :
    energy (s.forward net origin x m) < energy s := by
  have hwait : ∑ a, ((s.forward net origin x m).waiting a).length ≤
      ∑ a, (s.waiting a).length + Fintype.card α := by
    have hone : ∑ _a : α, 1 = Fintype.card α := (Finset.card_eq_sum_ones _).symm
    rw [← hone, ← Finset.sum_add_distrib]
    refine Finset.sum_le_sum fun a _ => ?_
    show (if Onward net origin x m a then s.waiting a ++ [m] else s.waiting a).length ≤ _
    by_cases ha : Onward net origin x m a
    · rw [if_pos ha, List.length_append, List.length_singleton]
    · rw [if_neg ha]
      exact Nat.le_succ _
  have hleft : ∑ y, (s.issued.length - ((s.forward net origin x m).handled y).length) + 1 =
      ∑ y, (s.issued.length - (s.handled y).length) := by
    have hsum := sum_update (fun y => s.issued.length - (s.handled y).length) x
      (s.issued.length - (s.handled x).length - 1)
    have hsame : ∑ y, (s.issued.length - ((s.forward net origin x m).handled y).length) =
        ∑ y, update (fun y => s.issued.length - (s.handled y).length) x
          (s.issued.length - (s.handled x).length - 1) y := by
      refine Finset.sum_congr rfl fun y _ => ?_
      show s.issued.length - (update s.handled x (s.handled x ++ [m]) y).length = _
      by_cases hy : y = x
      · rw [hy, update_self, update_self, List.length_append, List.length_singleton]
        omega
      · rw [update_of_ne hy, update_of_ne hy]
    rw [hsame]
    omega
  show 2 * ∑ a, ((s.forward net origin x m).waiting a).length + ∑ a, (s.flight a).length +
    (2 * Fintype.card α + 1) *
      ∑ y, (s.issued.length - ((s.forward net origin x m).handled y).length) < energy s
  rw [energy, ← hleft, Nat.mul_add, Nat.mul_one]
  omega

theorem Inv.energy_deliver [DecidableEq ν] [DecidableEq α] [DecidableEq μ] {s : State ν α μ}
    (h : Inv net origin s) {a : α} {place : Nat}
    (hplace : place < (s.flight a).length) :
    energy (s.deliver net origin a place) < energy s := by
  have hm : (s.flight a)[place]? = some (s.flight a)[place] := List.getElem?_eq_getElem hplace
  have hremove := energy_remove hplace
  rw [State.deliver, hm]
  dsimp only
  by_cases hdone : (s.flight a)[place] ∈ s.handled (net.target a)
  · rw [if_pos hdone]
    omega
  · rw [if_neg hdone]
    have hroom : (s.handled (net.target a)).length < s.issued.length := by
      -- the message is issued and not yet among the handled ones
      have hissued := h.carried_issued (Or.inr (List.mem_of_getElem? hm))
      have hsub : (s.flight a)[place] :: s.handled (net.target a) ⊆ s.issued :=
        List.cons_subset.2 ⟨hissued, fun _ hn => h.handled_issued hn⟩
      exact (List.Nodup.subperm (List.nodup_cons.2 ⟨hdone, h.handled_nodup _⟩) hsub).length_le
    have hforward : energy ((s.remove a place).forward net origin (net.target a)
        (s.flight a)[place]) < energy (s.remove a place) := energy_forward hroom
    omega

end Energy

end Flood

end Transition
end Leodos
