/-
Partial matchings kept in two arrays, and the paths that make them larger.

The arrays name each other's entries for the indices in use.  `flip` walks back from a free
node over predecessors and gives each node on its way to its predecessor.  The walk ends at the
source, and the arrays name each other's entries again (`flip_spec`).
-/
import Mathlib.Data.Fintype.Card
import Mathlib.Logic.Equiv.Defs

namespace Leodos
namespace Assignment

variable {ι κ : Type}

/-- The two arrays name each other's entries, but for the nodes in `hole`. -/
structure PairingBut (inUse hole : ι → Prop) (nodeFor taskFor : ι → Option ι) : Prop where
  node : ∀ i j, inUse i → nodeFor i = some j → inUse j ∧ ¬ hole j ∧ taskFor j = some i
  task : ∀ i j, inUse j → ¬ hole j → taskFor j = some i → inUse i ∧ nodeFor i = some j

/-- The two arrays name each other's entries. -/
abbrev Pairing (inUse : ι → Prop) (nodeFor taskFor : ι → Option ι) : Prop :=
  PairingBut inUse (fun _ => False) nodeFor taskFor

section Counting

variable {inUse : ι → Prop} {nodeFor taskFor : ι → Option ι}

theorem Pairing.symm (h : Pairing inUse nodeFor taskFor) : Pairing inUse taskFor nodeFor where
  node j i hj hi := ⟨(h.task i j hj id hi).1, id, (h.task i j hj id hi).2⟩
  task j i hi _ hj := ⟨(h.node i j hi hj).1, (h.node i j hi hj).2.2⟩

theorem Pairing.exists_perm [Finite κ] (h : Pairing inUse nodeFor taskFor) (e : κ ↪ ι)
    (hrange : ∀ i, inUse i ↔ ∃ k, e k = i) (hall : ∀ i, inUse i → nodeFor i ≠ none) :
    ∃ σ : Equiv.Perm κ, ∀ k, nodeFor (e k) = some (e (σ k)) := by
  have hnode : ∀ k, ∃ l, nodeFor (e k) = some (e l) := by
    intro k
    have hk : inUse (e k) := (hrange _).2 ⟨k, rfl⟩
    obtain ⟨j, hj⟩ := Option.ne_none_iff_exists'.1 (hall _ hk)
    obtain ⟨l, rfl⟩ := (hrange j).1 (h.node _ _ hk hj).1
    exact ⟨l, hj⟩
  choose f hf using hnode
  have hinj : Function.Injective f := by
    intro k k' hkk
    have hk := (h.node _ _ ((hrange _).2 ⟨k, rfl⟩) (hf k)).2.2
    have hk' := (h.node _ _ ((hrange _).2 ⟨k', rfl⟩) (hf k')).2.2
    rw [hkk, hk'] at hk
    exact e.injective (Option.some.inj hk).symm
  exact ⟨Equiv.ofBijective f (Finite.injective_iff_bijective.1 hinj), hf⟩

theorem Pairing.exists_free [Finite κ] (h : Pairing inUse nodeFor taskFor) (e : κ ↪ ι)
    (hrange : ∀ i, inUse i ↔ ∃ k, e k = i) {t : ι} (ht : inUse t) (hfree : nodeFor t = none) :
    ∃ j, inUse j ∧ taskFor j = none := by
  by_contra hnone
  have hall : ∀ j, inUse j → taskFor j ≠ none := fun j hj hj' => hnone ⟨j, hj, hj'⟩
  obtain ⟨σ, hσ⟩ := h.symm.exists_perm e hrange hall
  obtain ⟨k, rfl⟩ := (hrange t).1 ht
  have hk := hσ (σ.symm k)
  rw [Equiv.apply_symm_apply] at hk
  have := (h.task _ _ ((hrange _).2 ⟨_, rfl⟩) id hk).2
  rw [hfree] at this
  cases this

end Counting

/-! ## Walking back -/

section Flip

variable [DecidableEq ι]

/-- Give each node from `node` back to the source to the task that is recorded for it. -/
def flip (pred : ι → Option ι) (source : ι) :
    Nat → ι → (ι → Option ι) × (ι → Option ι) → Option ((ι → Option ι) × (ι → Option ι))
  | 0, _, _ => none
  | fuel + 1, node, (nodeFor, taskFor) =>
    match pred node with
    | none => none
    | some task =>
      let arrays := (Function.update nodeFor task (some node),
        Function.update taskFor node (some task))
      if task = source then some arrays
      else
        match nodeFor task with
        | none => none
        | some prevNode => flip pred source fuel prevNode arrays

variable {inUse on : ι → Prop} {pred : ι → Option ι} {source : ι} {rank : ι → Nat}

/-- Every node that the walk can meet has a task recorded for it: the source, or the task of a
node that the search has met before. -/
structure Tree (inUse on : ι → Prop) (pred : ι → Option ι) (source : ι) (rank : ι → Nat)
    (taskFor : ι → Option ι) : Prop where
  use : ∀ x, on x → inUse x
  step : ∀ x, on x → ∃ task, pred x = some task ∧
    (task = source ∨ ∃ y, on y ∧ rank y < rank x ∧ taskFor y = some task)

/-- What has changed after a walk. -/
structure Flipped (inUse on : ι → Prop) (pred : ι → Option ι) (source sink : ι)
    (nodeFor taskFor nodeFor' taskFor' : ι → Option ι) : Prop where
  pairing : Pairing inUse nodeFor' taskFor'
  old : ∀ i j, nodeFor' i = some j → nodeFor i = some j ∨ (on j ∧ pred j = some i)
  none_iff : ∀ i, nodeFor' i = none ↔ nodeFor i = none ∧ i ≠ source
  task : ∀ j, taskFor' j = none → taskFor j = none
  sink : taskFor' sink ≠ none

theorem PairingBut.give {nodeFor taskFor : ι → Option ι} {sink task : ι}
    (h : PairingBut inUse (· = sink) nodeFor taskFor) (hsink : inUse sink) (htask : inUse task) :
    PairingBut inUse (fun j => nodeFor task = some j)
      (Function.update nodeFor task (some sink)) (Function.update taskFor sink (some task)) where
  node i j hi hj := by
    by_cases hit : i = task
    · subst hit
      rw [Function.update_self, Option.some.injEq] at hj
      subst hj
      exact ⟨hsink, fun hold => (h.node _ _ hi hold).2.1 rfl, Function.update_self ..⟩
    · rw [Function.update_of_ne hit] at hj
      obtain ⟨huse, hne, hback⟩ := h.node i j hi hj
      refine ⟨huse, fun hold => hit ?_, by rw [Function.update_of_ne hne, hback]⟩
      have := (h.node task j htask hold).2.2
      rw [hback] at this
      exact Option.some.inj this
  task i j hj hhole hi := by
    by_cases hjs : j = sink
    · subst hjs
      rw [Function.update_self, Option.some.injEq] at hi
      subst hi
      exact ⟨htask, Function.update_self ..⟩
    · rw [Function.update_of_ne hjs] at hi
      obtain ⟨huse, hnode⟩ := h.task i j hj hjs hi
      have hne : i ≠ task := fun heq => hhole (heq ▸ hnode)
      exact ⟨huse, by rw [Function.update_of_ne hne, hnode]⟩

theorem flip_spec {nodeFor taskFor : ι → Option ι} {sink : ι}
    (htree : Tree inUse on pred source rank taskFor) (hsource : inUse source)
    (hunmatched : nodeFor source = none) (hon : on sink)
    (hpairing : PairingBut inUse (· = sink) nodeFor taskFor) {fuel : Nat}
    (hfuel : rank sink < fuel) :
    ∃ nodeFor' taskFor', flip pred source fuel sink (nodeFor, taskFor) =
        some (nodeFor', taskFor') ∧
      Flipped inUse on pred source sink nodeFor taskFor nodeFor' taskFor' := by
  induction fuel generalizing nodeFor taskFor sink on with
  | zero => exact absurd hfuel (Nat.not_lt_zero _)
  | succ fuel ih =>
    obtain ⟨task, hpred, htask⟩ := htree.step sink hon
    by_cases hlast : task = source
    · subst hlast
      have hgive := hpairing.give (htree.use _ hon) hsource
      refine ⟨Function.update nodeFor task (some sink), Function.update taskFor sink (some task),
        by simp [flip, hpred], ?_⟩
      rw [hunmatched] at hgive
      refine ⟨⟨fun i j hi hj => ?_, fun i j hj _ => hgive.task i j hj (by simp)⟩,
        fun i j hj => ?_, fun i => ?_, fun j hj => ?_, by simp⟩
      · obtain ⟨huse, -, hback⟩ := hgive.node i j hi hj
        exact ⟨huse, id, hback⟩
      · by_cases hit : i = task
        · subst hit
          rw [Function.update_self, Option.some.injEq] at hj
          exact Or.inr ⟨hj ▸ hon, hj ▸ hpred⟩
        · rw [Function.update_of_ne hit] at hj
          exact Or.inl hj
      · by_cases hit : i = task <;> simp [hit]
      · by_cases hjs : j = sink
        · simp [hjs] at hj
        · rwa [Function.update_of_ne hjs] at hj
    · obtain ⟨y, hy, hrank, hyt⟩ := htask.resolve_left hlast
      have hne : y ≠ sink := fun h => Nat.lt_irrefl _ (h ▸ hrank)
      obtain ⟨huse, hnode⟩ := hpairing.task task y (htree.use y hy) hne hyt
      have hgive := hpairing.give (htree.use _ hon) huse
      have hhole : (fun j => nodeFor task = some j) = (· = y) := by
        funext j
        simp [hnode, eq_comm]
      rw [hhole] at hgive
      -- below the sink's rank the arrays are as they were
      have htree' : Tree inUse (fun x => on x ∧ rank x < rank sink) pred source rank
          (Function.update taskFor sink (some task)) := by
        refine ⟨fun x hx => htree.use x hx.1, fun x hx => ?_⟩
        obtain ⟨t, ht, hback⟩ := htree.step x hx.1
        refine ⟨t, ht, hback.imp_right fun ⟨z, hz, hlt, hzt⟩ => ⟨z, ⟨hz, by omega⟩, hlt, ?_⟩⟩
        have hzs : z ≠ sink := fun h => by
          rw [h] at hlt
          omega
        rw [Function.update_of_ne hzs, hzt]
      obtain ⟨nodeFor', taskFor', hflip, hspec⟩ := ih htree'
        (by rwa [Function.update_of_ne (Ne.symm hlast)]) ⟨hy, hrank⟩ hgive (by omega)
      have htasks : ∀ j, taskFor' j = none → j ≠ sink ∧ taskFor j = none := by
        intro j hj
        have := hspec.task j hj
        by_cases hjs : j = sink
        · simp [hjs] at this
        · exact ⟨hjs, by rwa [Function.update_of_ne hjs] at this⟩
      refine ⟨nodeFor', taskFor', by simpa [flip, hpred, hlast, hnode] using hflip, hspec.pairing,
        fun i j hj => ?_, fun i => ?_, fun j hj => (htasks j hj).2, fun h => (htasks sink h).1 rfl⟩
      · rcases hspec.old i j hj with hold | hnew
        · by_cases hit : i = task
          · subst hit
            rw [Function.update_self, Option.some.injEq] at hold
            exact Or.inr ⟨hold ▸ hon, hold ▸ hpred⟩
          · rw [Function.update_of_ne hit] at hold
            exact Or.inl hold
        · exact Or.inr ⟨hnew.1.1, hnew.2⟩
      · rw [hspec.none_iff i]
        by_cases hit : i = task
        · simp [hit, hnode]
        · rw [Function.update_of_ne hit]

end Flip

end Assignment
end Leodos
