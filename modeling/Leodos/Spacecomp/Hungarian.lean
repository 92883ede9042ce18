/-
The Hungarian solver, `plan/assignment/hungarian.rs`.

During the search for a task the visited tasks are that task and those of the visited nodes.
Every node's slack is the reduced cost from its recorded task, and no visited task has a lower
one (`Searching`).  Raising the visited tasks and lowering the visited nodes by the least slack
keeps the potentials below the costs and the matched pairs tight.
-/
import Leodos.Spacecomp.Solver
import Mathlib.Data.Fintype.Fin
import Mathlib.Data.Fintype.Prod

namespace Leodos
namespace Spacecomp

open Assignment Function

attribute [local instance] lawfulBEq_index

structure Hungarian (N : Nat) where
  u : Fin N → Int
  v : Fin N → Int
  nodeForTask : Fin N → Option (Fin N)
  taskForNode : Fin N → Option (Fin N)
  slack : Fin N → Int
  slackTask : Fin N → Fin N
  visitedTask : Fin N → Bool
  visitedNode : Fin N → Bool

namespace Hungarian

variable {N n : Nat}

def new (C : CostType) : Hungarian N where
  u _ := 0
  v _ := 0
  nodeForTask _ := none
  taskForNode _ := none
  slack _ := C.MAX
  slackTask i := ⟨0, i.pos⟩
  visitedTask _ := false
  visitedNode _ := false

def resetMatching (hn : n ≤ N) (s : Hungarian N) : Hungarian N :=
  { s with
    nodeForTask := fill hn (fun _ => none) s.nodeForTask
    taskForNode := fill hn (fun _ => none) s.taskForNode }

def resetAugmentState (C : CostType) (hn : n ≤ N) (s : Hungarian N) : Hungarian N :=
  { s with
    slack := fill hn (fun _ => C.MAX) s.slack
    visitedTask := fill hn (fun _ => false) s.visitedTask
    visitedNode := fill hn (fun _ => false) s.visitedNode }

/-- One turn of the second loop of `init_potentials`. -/
def initPrice (C : CostType) (hn : n ≤ N) (cost : Fin N → Fin N → Int) (u v : Fin N → Int)
    (j : Fin N) : Option (Fin N → Int) := do
  let column ← (indices hn).mapM fun i => C.sub (cost i j) (u i)
  pure (update v j (minimum column))

def initPotentials (C : CostType) (hn : n ≤ N) (cost : Fin N → Fin N → Int) (s : Hungarian N) :
    Option (Hungarian N) := do
  let u := fill hn (fun i => minimum ((indices hn).map (cost i))) s.u
  let v ← (indices hn).foldlM (initPrice C hn cost u) s.v
  pure { s with u := u, v := v }

def reducedCost (C : CostType) (cost : Fin N → Fin N → Int) (s : Hungarian N)
    (task node : Fin N) : Option Int := do
  let cost ← C.sub (cost task node) (s.u task)
  C.sub cost (s.v node)

/-- One turn of the loop of `update_slack_from_task`. -/
def updateSlack (C : CostType) (cost : Fin N → Fin N → Int) (task : Fin N) (s : Hungarian N)
    (node : Fin N) : Option (Hungarian N) := do
  let reduced ← s.reducedCost C cost task node
  if reduced < s.slack node then
    pure { s with
      slack := update s.slack node reduced
      slackTask := update s.slackTask node task }
  else pure s

def updateSlackFromTask (C : CostType) (hn : n ≤ N) (cost : Fin N → Fin N → Int)
    (s : Hungarian N) (task : Fin N) : Option (Hungarian N) :=
  (indices hn).foldlM (updateSlack C cost task) s

def findMinSlackNode (C : CostType) (hn : n ≤ N) (s : Hungarian N) : Int × Option (Fin N) :=
  findMin C hn s.visitedNode s.slack

/-- One turn of the loop of `update_potentials`. -/
def updatePotential (C : CostType) (delta : Int) (s : Hungarian N) (node : Fin N) :
    Option (Hungarian N) :=
  if s.visitedNode node then
    match s.taskForNode node with
    | none => none -- no array has the index `UNMATCHED`
    | some task => do
      let u ← C.add (s.u task) delta
      let v ← C.sub (s.v node) delta
      pure { s with u := update s.u task u, v := update s.v node v }
  else do
    let slack ← C.sub (s.slack node) delta
    pure { s with slack := update s.slack node slack }

def updatePotentials (C : CostType) (hn : n ≤ N) (s : Hungarian N) (delta : Int)
    (sourceTask : Fin N) : Option (Hungarian N) := do
  let s ← (indices hn).foldlM (updatePotential C delta) s
  let u ← C.add (s.u sourceTask) delta
  pure { s with u := update s.u sourceTask u }

def augmentPath (fuel : Nat) (s : Hungarian N) (sinkNode sourceTask : Fin N) :
    Option (Hungarian N) := do
  let (nodeForTask, taskForNode) ← flip (fun node => some (s.slackTask node)) sourceTask fuel
    sinkNode (s.nodeForTask, s.taskForNode)
  pure { s with nodeForTask := nodeForTask, taskForNode := taskForNode }

/-- One turn of the search for `task`. -/
def turn (C : CostType) (hn : n ≤ N) (cost : Fin N → Fin N → Int) (fuel : Nat) (task : Fin N)
    (s : Hungarian N) : Option (Turn (Hungarian N)) := do
  let (delta, bestNode) := s.findMinSlackNode C hn
  let node := bestNode.getD ⟨0, task.pos⟩
  let s ← s.updatePotentials C hn delta task
  let s := { s with
    visitedNode := update s.visitedNode node true
    visitedTask := update s.visitedTask (s.slackTask node) true }
  match s.taskForNode node with
  | none => do
    let s ← s.augmentPath fuel node task
    pure (.done s)
  | some matched => do
    let s ← s.updateSlackFromTask C hn cost matched
    pure (.again s)

def beginSearch (C : CostType) (hn : n ≤ N) (cost : Fin N → Fin N → Int) (s : Hungarian N)
    (task : Fin N) : Option (Hungarian N) :=
  (s.resetAugmentState C hn).updateSlackFromTask C hn cost task

def search (C : CostType) (hn : n ≤ N) (cost : Fin N → Fin N → Int) (fuel : Nat)
    (s : Hungarian N) (task : Fin N) : Option (Hungarian N) := do
  let s ← s.beginSearch C hn cost task
  loop (turn C hn cost fuel task) fuel s

/-- `fuel` bounds the turns of each of the two loops without a bound of their own. -/
def solve (C : CostType) (fuel : Nat) (hn : n ≤ N) (s : Hungarian N)
    (cost : Fin N → Fin N → Int) : Option (List (Option (Fin N)) × Hungarian N) := do
  let s ← (s.resetMatching hn).initPotentials C hn cost
  let s ← (indices hn).foldlM (search C hn cost fuel) s
  pure ((indices hn).map s.nodeForTask, s)

/-! ## What the loops compute -/

/-- The reduced cost over the integers. -/
def red (cost : Fin N → Fin N → Int) (s : Hungarian N) (i j : Fin N) : Int :=
  cost i j - s.u i - s.v j

/-- The tasks that a search has visited. -/
def Chosen (n : Nat) (source : Fin N) (s : Hungarian N) (i : Fin N) : Prop :=
  i = source ∨ ∃ j : Fin N, j.val < n ∧ s.visitedNode j = true ∧ s.taskForNode j = some i

instance (n : Nat) (source : Fin N) (s : Hungarian N) (i : Fin N) :
    Decidable (Chosen n source s i) :=
  inferInstanceAs (Decidable (_ ∨ _))

/-- The slacks after a task has been looked at. -/
def relaxed (n : Nat) (cost : Fin N → Fin N → Int) (s : Hungarian N) (task : Fin N) :
    Hungarian N :=
  { s with
    slack := fun j =>
      if j.val < n ∧ red cost s task j < s.slack j then red cost s task j else s.slack j
    slackTask := fun j =>
      if j.val < n ∧ red cost s task j < s.slack j then task else s.slackTask j }

/-- The potentials and slacks after a change by `delta`. -/
def raised (n : Nat) (s : Hungarian N) (delta : Int) (source : Fin N) : Hungarian N :=
  { s with
    u := fun i => if Chosen n source s i then s.u i + delta else s.u i
    v := fun j => if j.val < n ∧ s.visitedNode j = true then s.v j - delta else s.v j
    slack := fun j =>
      if j.val < n ∧ s.visitedNode j = false then s.slack j - delta else s.slack j }

variable {C : CostType} {hn : n ≤ N} {cost : Fin N → Fin N → Int} {s : Hungarian N}

theorem updateSlack_eq {task node : Fin N} (hu : C.holds (cost task node - s.u task) = true)
    (hv : C.holds (red cost s task node) = true) :
    s.updateSlack C cost task node =
      some { s with
        slack := if red cost s task node < s.slack node then
          update s.slack node (red cost s task node) else s.slack
        slackTask := if red cost s task node < s.slack node then
          update s.slackTask node task else s.slackTask } := by
  have hred : s.reducedCost C cost task node = some (red cost s task node) := by
    rw [reducedCost, CostType.sub_of_holds hu]
    exact CostType.sub_of_holds hv
  rw [updateSlack, hred]
  by_cases hless : red cost s task node < s.slack node <;> simp [hless]

theorem updateSlackFromTask_eq {task : Fin N}
    (hu : ∀ j : Fin N, j.val < n → C.holds (cost task j - s.u task) = true)
    (hv : ∀ j : Fin N, j.val < n → C.holds (red cost s task j) = true) :
    s.updateSlackFromTask C hn cost task = some (relaxed n cost s task) := by
  obtain ⟨s', hfold, hs'⟩ := foldlM_of_inv (updateSlack C cost task)
    (fun before s' => s' = { s with
      slack := fun j =>
        if j ∈ before ∧ red cost s task j < s.slack j then red cost s task j else s.slack j
      slackTask := fun j =>
        if j ∈ before ∧ red cost s task j < s.slack j then task else s.slackTask j })
    (indices hn) s (by simp) fun before x after s' hxs hs' => by
      have hx := lt_of_indices_eq hxs
      have hnot := not_mem_of_indices_eq hxs
      subst hs'
      refine ⟨_, updateSlack_eq (hu x hx) (hv x hx), ?_⟩
      simp only [red, hnot, false_and, if_false, List.mem_append, List.mem_singleton]
      congr 1 <;> funext j <;> by_cases hless : cost task x - s.u task - s.v x < s.slack x <;>
        by_cases hj : j = x <;> simp [hless, hj] <;> congr
  rw [updateSlackFromTask, hfold, hs', relaxed]
  simp only [mem_indices]

/-- The nodes that are visited have tasks, each a task of its own other than the source. -/
structure Distinct (n : Nat) (source : Fin N) (s : Hungarian N) : Prop where
  task : ∀ j : Fin N, j.val < n → s.visitedNode j = true →
    ∃ i, s.taskForNode j = some i ∧ i ≠ source
  inj : ∀ j k i : Fin N, j.val < n → k.val < n → s.taskForNode j = some i →
    s.taskForNode k = some i → j = k

/-- The state of `update_potentials` after the nodes in `before`. -/
def partly (before : List (Fin N)) (delta : Int) (s : Hungarian N) : Hungarian N :=
  { s with
    u := fun i => if ∃ j ∈ before, s.visitedNode j = true ∧ s.taskForNode j = some i then
      s.u i + delta else s.u i
    v := fun j => if j ∈ before ∧ s.visitedNode j = true then s.v j - delta else s.v j
    slack := fun j =>
      if j ∈ before ∧ s.visitedNode j = false then s.slack j - delta else s.slack j }

theorem partly_step {source : Fin N} {delta : Int} (hd : Distinct n source s)
    {before after : List (Fin N)} {x : Fin N} (hxs : indices hn = before ++ x :: after)
    (hu : ∀ i, Chosen n source s i → C.holds (s.u i + delta) = true)
    (hslack : ∀ j : Fin N, j.val < n → s.visitedNode j = false →
      C.holds (s.slack j - delta) = true) :
    (partly before delta s).updatePotential C delta x =
      if s.visitedNode x = true ∧ C.holds (s.v x - delta) = false then none
      else some (partly (before ++ [x]) delta s) := by
  have hx := lt_of_indices_eq hxs
  have hnot := not_mem_of_indices_eq hxs
  have hbefore : ∀ j ∈ before, j.val < n := fun j hj => by
    have : j ∈ indices hn := by simp [hxs, hj]
    exact mem_indices.1 this
  cases hvis : s.visitedNode x with
  | false =>
    have hcell : (partly before delta s).slack x = s.slack x := by simp [partly, hnot]
    have hturn : (partly before delta s).updatePotential C delta x =
      some { partly before delta s with
        slack := update (partly before delta s).slack x (s.slack x - delta) } := by
      rw [updatePotential, if_neg (by simp [partly, hvis]), hcell,
        CostType.sub_of_holds (hslack x hx hvis)]
      rfl
    rw [hturn, if_neg (by simp), Option.some.injEq]
    simp only [partly]
    congr 1
    · funext i
      simp [or_and_right, exists_or, hvis]
    · funext j
      by_cases hj : j = x <;> simp [hj, hnot, hvis]
    · funext j
      by_cases hj : j = x <;> simp [hj, hnot, hvis]
  | true =>
    obtain ⟨i, hi, hne⟩ := hd.task x hx hvis
    have hfresh : ¬ ∃ j ∈ before, s.visitedNode j = true ∧ s.taskForNode j = some i := by
      rintro ⟨j, hj, -, hji⟩
      exact hnot (hd.inj j x i (hbefore j hj) hx hji hi ▸ hj)
    have hucell : (partly before delta s).u i = s.u i := if_neg hfresh
    have hvcell : (partly before delta s).v x = s.v x := by simp [partly, hnot]
    have hturn : (partly before delta s).updatePotential C delta x =
        (C.sub (s.v x) delta).map fun v => { partly before delta s with
          u := update (partly before delta s).u i (s.u i + delta)
          v := update (partly before delta s).v x v } := by
      rw [updatePotential, if_pos (by simp [partly, hvis])]
      simp only [show (partly before delta s).taskForNode x = some i from hi, hucell, hvcell]
      rw [CostType.add_of_holds (hu i (Or.inr ⟨x, hx, hvis, hi⟩))]
      cases C.sub (s.v x) delta <;> rfl
    rw [hturn]
    cases hholds : C.holds (s.v x - delta) with
    | false => simp [CostType.sub, CostType.checked, hholds]
    | true =>
      rw [CostType.sub_of_holds hholds, Option.map_some, if_neg (by simp), Option.some.injEq]
      simp only [partly]
      congr 1
      · funext k
        by_cases hk : k = i
        · subst hk
          simp [hvis, hi]
        · have : ¬ s.taskForNode x = some k := fun h => hk (Option.some.inj (h.symm.trans hi))
          simp [hk, or_and_right, exists_or, this]
      · funext j
        by_cases hj : j = x <;> simp [hj, hnot, hvis]
      · funext j
        by_cases hj : j = x <;> simp [hj, hnot, hvis]

/-- The prices can be lowered by `delta`. -/
def Lowerable (C : CostType) (n : Nat) (s : Hungarian N) (delta : Int) : Prop :=
  ∀ j : Fin N, j.val < n → s.visitedNode j = true → C.holds (s.v j - delta) = true

section UpdatePotentials

variable {source : Fin N} {delta : Int} (hd : Distinct n source s)
  (hu : ∀ i, Chosen n source s i → C.holds (s.u i + delta) = true)
  (hslack : ∀ j : Fin N, j.val < n → s.visitedNode j = false →
    C.holds (s.slack j - delta) = true)
include hd hu hslack

theorem updatePotentials_eq (hv : Lowerable C n s delta) :
    s.updatePotentials C hn delta source = some (raised n s delta source) := by
  obtain ⟨s', hfold, rfl⟩ := foldlM_of_inv (updatePotential C delta)
    (fun before s' => s' = partly before delta s) (indices hn) s (by simp [partly])
    fun before x after s' hxs hs' => by
      subst hs'
      rw [partly_step hd hxs hu hslack, if_neg]
      · exact ⟨_, rfl, rfl⟩
      · intro ⟨hvis, hholds⟩
        rw [hv x (lt_of_indices_eq hxs) hvis] at hholds
        cases hholds
  have hsource : ¬ ∃ j ∈ indices hn, s.visitedNode j = true ∧ s.taskForNode j = some source := by
    intro ⟨j, hj, hvis, hjs⟩
    obtain ⟨i, hi, hne⟩ := hd.task j (mem_indices.1 hj) hvis
    exact hne (Option.some.inj (hi.symm.trans hjs))
  have hcell : (partly (indices hn) delta s).u source = s.u source := if_neg hsource
  have hlast : s.updatePotentials C hn delta source = some { partly (indices hn) delta s with
      u := update (partly (indices hn) delta s).u source (s.u source + delta) } := by
    rw [updatePotentials, hfold, Option.bind_eq_bind, Option.bind_some, hcell,
      CostType.add_of_holds (hu source (Or.inl rfl))]
    rfl
  rw [hlast, Option.some.injEq]
  simp only [raised, partly, mem_indices]
  congr 1
  funext i
  by_cases hi : i = source
  · subst hi
    simp [Chosen]
  · simp only [Function.update_of_ne hi, Chosen, hi, false_or]

theorem updatePotentials_eq_none (hv : ¬ Lowerable C n s delta) :
    s.updatePotentials C hn delta source = none := by
  have hfold : (indices hn).foldlM (updatePotential C delta) s = none := by
    refine foldlM_eq_none (fun before s' => s' = partly before delta s)
      (fun x => ¬ (s.visitedNode x = true ∧ C.holds (s.v x - delta) = false))
      (by simp [partly]) ?_ ?_ ?_
    · intro before x after s' hxs hs' hgood
      subst hs'
      exact ⟨_, by rw [partly_step hd hxs hu hslack, if_neg hgood], rfl⟩
    · intro before x after s' hxs hs' hbad
      subst hs'
      rw [partly_step hd hxs hu hslack, if_pos (not_not.1 hbad)]
    · simp only [Lowerable, not_forall, Bool.not_eq_true] at hv
      obtain ⟨j, hj, hvis, hholds⟩ := hv
      exact ⟨j, mem_indices.2 hj, not_not.2 ⟨hvis, hholds⟩⟩
  rw [updatePotentials, hfold]
  rfl

end UpdatePotentials

/-! ## Potentials and slacks -/

/-- Bounds of the costs, and what the cost type holds of the values that come of them.  Below
zero that is the values from `floor` on. -/
structure Bounds (C : CostType) (n : Nat) (cost : Fin N → Fin N → Int) (cmin cmax floor : Int) :
    Prop where
  entry : ∀ i j : Fin N, i.val < n → j.val < n → cmin ≤ cost i j ∧ cost i j ≤ cmax
  cost_holds : ∀ x, cmin ≤ x → x ≤ cmax → C.holds x = true
  holds_low : ∀ x, floor ≤ x → x ≤ 2 * (cmax - cmin) → C.holds x = true
  floor_le : floor ≤ 0
  sentinel : 2 * (cmax - cmin) < C.MAX

/-- The arrays name each other's entries, and the potentials stay below the costs and meet them
at the matched pairs. -/
structure Dual (n : Nat) (cost : Fin N → Fin N → Int) (cmin floor : Int) (s : Hungarian N) :
    Prop where
  pairing : Pairing (fun i => i.val < n) s.nodeForTask s.taskForNode
  feasible : ∀ i j : Fin N, i.val < n → j.val < n → s.u i + s.v j ≤ cost i j
  tight : ∀ i j : Fin N, i.val < n → s.nodeForTask i = some j → s.u i + s.v j = cost i j
  free : ∀ j : Fin N, j.val < n → s.taskForNode j = none → 0 ≤ s.v j
  low : ∀ i : Fin N, i.val < n → cmin ≤ s.u i
  price : ∀ j : Fin N, j.val < n → floor ≤ s.v j

def visitedCount (n : Nat) (s : Hungarian N) : Nat :=
  (Finset.univ.filter fun j : Fin N => j.val < n ∧ s.visitedNode j = true).card

/-- The state at the head of every turn of a search. -/
structure Searching (n : Nat) (cost : Fin N → Fin N → Int) (cmin floor : Int) (source : Fin N)
    (s : Hungarian N) : Prop extends Dual n cost cmin floor s where
  source_lt : source.val < n
  unmatched : s.nodeForTask source = none
  slack_eq : ∀ j : Fin N, j.val < n →
    Chosen n source s (s.slackTask j) ∧ s.slack j = red cost s (s.slackTask j) j
  slack_le : ∀ i j : Fin N, Chosen n source s i → j.val < n → s.slack j ≤ red cost s i j
  visited : ∀ j : Fin N, j.val < n → s.visitedNode j = true →
    s.slack j = 0 ∧ s.taskForNode j ≠ none
  tree : ∃ rank : Fin N → Nat, ∀ j : Fin N, j.val < n → s.visitedNode j = true →
    rank j < visitedCount n s ∧ (s.slackTask j = source ∨ ∃ y : Fin N, y.val < n ∧
      s.visitedNode y = true ∧ rank y < rank j ∧ s.taskForNode y = some (s.slackTask j))

variable {cmin cmax floor : Int} {source : Fin N}

theorem Dual.chosen_lt (h : Dual n cost cmin floor s) (hsource : source.val < n) {i : Fin N}
    (hi : Chosen n source s i) : i.val < n := by
  rcases hi with rfl | ⟨j, hj, -, hji⟩
  · exact hsource
  · exact (h.pairing.task i j hj id hji).1

theorem Dual.ranges (h : Dual n cost cmin floor s) (hb : Bounds C n cost cmin cmax floor)
    (hn : n ≤ N) (hsource : source.val < n) (hun : s.nodeForTask source = none) {i j : Fin N}
    (hi : i.val < n) (hj : j.val < n) :
    s.u i ≤ cmax ∧ cmin - cmax ≤ s.v j ∧ s.v j ≤ cmax - cmin ∧ 0 ≤ red cost s i j ∧
      red cost s i j ≤ 2 * (cmax - cmin) := by
  obtain ⟨f, hf, hfree⟩ := h.pairing.exists_free (Fin.castLEEmb hn) (inUse_iff hn) hsource hun
  have hu : ∀ k : Fin N, k.val < n → s.u k ≤ cmax := by
    intro k hk
    have h₁ := h.feasible k f hk hf
    have h₂ := h.free f hf hfree
    have h₃ := hb.entry k f hk hf
    omega
  have hlow := h.low i hi
  have hfeas := h.feasible i j hi hj
  have hentry := hb.entry i j hi hj
  have hv : cmin - cmax ≤ s.v j := by
    cases hjt : s.taskForNode j with
    | none =>
      have := h.free j hj hjt
      omega
    | some k =>
      obtain ⟨hk, hkj⟩ := h.pairing.task k j hj id hjt
      have h₁ := h.tight k j hk hkj
      have h₂ := hu k hk
      have h₃ := hb.entry k j hk hj
      omega
  refine ⟨hu i hi, hv, by omega, ?_, ?_⟩ <;> rw [red] <;> omega

theorem Dual.reduced_holds (h : Dual n cost cmin floor s) (hb : Bounds C n cost cmin cmax floor)
    (hn : n ≤ N) (hsource : source.val < n) (hun : s.nodeForTask source = none) {i j : Fin N}
    (hi : i.val < n) (hj : j.val < n) :
    C.holds (cost i j - s.u i) = true ∧ C.holds (red cost s i j) = true := by
  obtain ⟨-, hv, -, hred, hred'⟩ := h.ranges hb hn hsource hun hi hj
  have hlow := h.low i hi
  have hfeas := h.feasible i j hi hj
  have hprice := h.price j hj
  have hentry := hb.entry i j hi hj
  have hfloor := hb.floor_le
  exact ⟨hb.holds_low _ (by omega) (by omega), hb.holds_low _ (by omega) hred'⟩

theorem Searching.distinct (h : Searching n cost cmin floor source s) : Distinct n source s where
  task j hj hvis := by
    obtain ⟨i, hi⟩ := Option.ne_none_iff_exists'.1 (h.visited j hj hvis).2
    refine ⟨i, hi, fun heq => ?_⟩
    have := (h.pairing.task i j hj id hi).2
    rw [heq, h.unmatched] at this
    cases this
  inj j k i hj hk hji hki := by
    have h₁ := (h.pairing.task i j hj id hji).2
    have h₂ := (h.pairing.task i k hk id hki).2
    exact Option.some.inj (h₁.symm.trans h₂)

theorem Searching.not_visited (h : Searching n cost cmin floor source s) {j : Fin N}
    (hj : j.val < n) (hfree : s.taskForNode j = none) : s.visitedNode j = false := by
  cases hvis : s.visitedNode j with
  | false => rfl
  | true => exact absurd hfree (h.visited j hj hvis).2

theorem Searching.exists_least (h : Searching n cost cmin floor source s)
    (hb : Bounds C n cost cmin cmax floor) (hn : n ≤ N) :
    ∃ node, s.findMinSlackNode C hn = (s.slack node, some node) ∧ node.val < n ∧
      s.visitedNode node = false ∧ 0 ≤ s.slack node ∧
      ∀ j : Fin N, j.val < n → s.visitedNode j = false → s.slack node ≤ s.slack j := by
  obtain ⟨hle, hbest, hnone⟩ := findMin_spec C hn s.visitedNode s.slack
  obtain ⟨f, hf, hfree⟩ :=
    h.pairing.exists_free (Fin.castLEEmb hn) (inUse_iff hn) h.source_lt h.unmatched
  cases hfound : (findMin C hn s.visitedNode s.slack).2 with
  | none =>
    have h₁ := hle f hf (h.not_visited hf hfree)
    have h₂ := h.slack_le source f (Or.inl rfl) hf
    have h₃ := (h.ranges hb hn h.source_lt h.unmatched h.source_lt hf).2.2.2.2
    have h₄ := hb.sentinel
    rw [hnone hfound] at h₁
    omega
  | some node =>
    obtain ⟨hnode, hvis, hslack⟩ := hbest node hfound
    obtain ⟨hchosen, heq⟩ := h.slack_eq node hnode
    have hred := (h.ranges hb hn h.source_lt h.unmatched
      (h.chosen_lt h.source_lt hchosen) hnode).2.2.2.1
    exact ⟨node, Prod.ext hslack.symm hfound, hnode, hvis, by omega, fun j hj hj' => by
      rw [hslack]
      exact hle j hj hj'⟩

/-! ## One turn -/

def mark (s : Hungarian N) (node : Fin N) : Hungarian N :=
  { s with
    visitedNode := update s.visitedNode node true
    visitedTask := update s.visitedTask (s.slackTask node) true }

/-- The state of a turn once the potentials have changed and the node is visited. -/
def reached (n : Nat) (source : Fin N) (s : Hungarian N) (node : Fin N) : Hungarian N :=
  mark (raised n s (s.slack node) source) node

/-- The slack of the node that a turn visits comes off the price of no visited node that would
be left with a price below the floor. -/
def PricesHold (C : CostType) (hn : n ≤ N) (floor : Int) (s : Hungarian N) : Prop :=
  ∀ j : Fin N, j.val < n → s.visitedNode j = true → floor ≤ s.v j - (s.findMinSlackNode C hn).1

theorem Searching.chosen_iff (h : Searching n cost cmin floor source s) {i j : Fin N}
    (hi : i.val < n) (hij : s.nodeForTask i = some j) :
    Chosen n source s i ↔ s.visitedNode j = true := by
  obtain ⟨hj, -, hji⟩ := h.pairing.node i j hi hij
  constructor
  · intro hchosen
    rcases hchosen with rfl | ⟨k, hk, hvis, hki⟩
    · rw [h.unmatched] at hij
      cases hij
    · rwa [h.distinct.inj j k i hj hk hji hki]
  · exact fun hvis => Or.inr ⟨j, hj, hvis, hji⟩

theorem red_raised {delta : Int} {i j : Fin N} (hj : j.val < n) :
    red cost (raised n s delta source) i j = red cost s i j -
      (if Chosen n source s i then delta else 0) +
      (if s.visitedNode j = true then delta else 0) := by
  simp only [red, raised, hj, true_and]
  split <;> split <;> omega

theorem slack_raised {delta : Int} {j : Fin N} (hj : j.val < n) :
    (raised n s delta source).slack j =
      s.slack j - (if s.visitedNode j = true then 0 else delta) := by
  cases hvis : s.visitedNode j <;> simp [raised, hj, hvis]

section Turn

variable {node : Fin N} (h : Searching n cost cmin floor source s) (hzero : 0 ≤ s.slack node)
  (hleast : ∀ j : Fin N, j.val < n → s.visitedNode j = false → s.slack node ≤ s.slack j)
include h hzero hleast

theorem Searching.dual_raised (hprice : ∀ j : Fin N, j.val < n → s.visitedNode j = true →
    floor ≤ s.v j - s.slack node) :
    Dual n cost cmin floor (raised n s (s.slack node) source) where
  pairing := h.pairing
  feasible i j hi hj := by
    have hfeas := h.feasible i j hi hj
    simp only [raised, hj, true_and]
    cases hvisj : s.visitedNode j with
    | true => split <;> simp <;> omega
    | false =>
      by_cases hchosen : Chosen n source s i
      · have h₁ := h.slack_le i j hchosen hj
        have h₂ := hleast j hj hvisj
        rw [red] at h₁
        simp [hchosen]
        omega
      · simpa [hchosen] using hfeas
  tight i j hi hij := by
    have htight := h.tight i j hi hij
    have hiff := h.chosen_iff hi hij
    have hj := (h.pairing.node i j hi hij).1
    simp only [raised, hj, true_and, hiff]
    split <;> omega
  free j hj hfree := by
    have := h.free j hj hfree
    simpa [raised, h.not_visited hj hfree] using this
  low i hi := by
    have := h.low i hi
    simp only [raised]
    split <;> omega
  price j hj := by
    have := h.price j hj
    simp only [raised, hj, true_and]
    split
    · exact hprice j hj ‹_›
    · exact this

theorem Searching.lowered_range (hb : Bounds C n cost cmin cmax floor) (hn : n ≤ N) {j : Fin N}
    (hj : j.val < n) (hvisj : s.visitedNode j = true) :
    cmin - cmax ≤ s.v j - s.slack node ∧ s.v j - s.slack node ≤ cmax - cmin := by
  obtain ⟨f, hf, hfree⟩ :=
    h.pairing.exists_free (Fin.castLEEmb hn) (inUse_iff hn) h.source_lt h.unmatched
  obtain ⟨i, hi⟩ := Option.ne_none_iff_exists'.1 (h.visited j hj hvisj).2
  obtain ⟨hin, hij⟩ := h.pairing.task i j hj id hi
  have hv := (h.ranges hb hn h.source_lt h.unmatched h.source_lt hj).2.2.1
  have htight := h.tight i j hin hij
  have hslack := h.slack_le i f (Or.inr ⟨j, hj, hvisj, hi⟩) hf
  have hmin := hleast f hf (h.not_visited hf hfree)
  have hprice := h.free f hf hfree
  have h₁ := hb.entry i j hin hj
  have h₂ := hb.entry i f hin hf
  rw [red] at hslack
  constructor <;> omega

theorem Searching.raised_holds (hb : Bounds C n cost cmin cmax floor) (hn : n ≤ N) :
    (∀ i, Chosen n source s i → C.holds (s.u i + s.slack node) = true) ∧
      ∀ j : Fin N, j.val < n → s.visitedNode j = false →
        C.holds (s.slack j - s.slack node) = true := by
  obtain ⟨f, hf, hfree⟩ :=
    h.pairing.exists_free (Fin.castLEEmb hn) (inUse_iff hn) h.source_lt h.unmatched
  have hmin := hleast f hf (h.not_visited hf hfree)
  have hprice := h.free f hf hfree
  have hfloor := hb.floor_le
  constructor
  · intro i hchosen
    have hi := h.chosen_lt h.source_lt hchosen
    have hlow := h.low i hi
    have hslack := h.slack_le i f hchosen hf
    have hentry := hb.entry i f hi hf
    rw [red] at hslack
    exact hb.cost_holds _ (by omega) (by omega)
  · intro j hj hvisj
    have h₁ := hleast j hj hvisj
    have h₂ := h.slack_le source j (Or.inl rfl) hj
    have h₃ := (h.ranges hb hn h.source_lt h.unmatched h.source_lt hj).2.2.2.2
    have h₄ := hb.entry source j h.source_lt hj
    exact hb.holds_low _ (by omega) (by omega)

end Turn

theorem visitedCount_reached (source : Fin N) {node : Fin N} (hnode : node.val < n)
    (hvis : s.visitedNode node = false) :
    visitedCount n (reached n source s node) = visitedCount n s + 1 := by
  have hset : (Finset.univ.filter fun j : Fin N =>
      j.val < n ∧ (reached n source s node).visitedNode j = true) =
        insert node (Finset.univ.filter fun j : Fin N => j.val < n ∧ s.visitedNode j = true) := by
    ext j
    rw [Finset.mem_insert, Finset.mem_filter, Finset.mem_filter]
    by_cases hj : j = node
    · subst hj
      simp [reached, mark, hnode]
    · simp [reached, mark, raised, hj]
  rw [visitedCount, hset, Finset.card_insert_of_notMem (by simp [hvis]), visitedCount]

theorem Searching.visitedCount_lt (h : Searching n cost cmin floor source s) (hn : n ≤ N) :
    visitedCount n s < n := by
  obtain ⟨f, hf, hfree⟩ :=
    h.pairing.exists_free (Fin.castLEEmb hn) (inUse_iff hn) h.source_lt h.unmatched
  have hsub : (Finset.univ.filter fun j : Fin N => j.val < n ∧ s.visitedNode j = true) ⊂
      Finset.univ.map (Fin.castLEEmb hn) := by
    refine Finset.ssubset_iff_of_subset (fun j hj => ?_) |>.2 ⟨f, ?_, ?_⟩
    · exact Finset.mem_map.2 ⟨⟨j, (Finset.mem_filter.1 hj).2.1⟩, Finset.mem_univ _, rfl⟩
    · exact Finset.mem_map.2 ⟨⟨f, hf⟩, Finset.mem_univ _, rfl⟩
    · simp [h.not_visited hf hfree]
  have := Finset.card_lt_card hsub
  rwa [Finset.card_map, Finset.card_univ, Fintype.card_fin] at this

theorem chosen_reached {node i : Fin N} (hnode : node.val < n) :
    Chosen n source (reached n source s node) i ↔
      Chosen n source s i ∨ s.taskForNode node = some i := by
  constructor
  · intro hi
    rcases hi with rfl | ⟨j, hj, hvis, hji⟩
    · exact Or.inl (Or.inl rfl)
    · by_cases hjn : j = node
      · exact Or.inr (hjn ▸ hji)
      · exact Or.inl (Or.inr ⟨j, hj, by simpa [reached, mark, raised, hjn] using hvis, hji⟩)
  · intro hi
    rcases hi with (rfl | ⟨j, hj, hvis, hji⟩) | hi
    · exact Or.inl rfl
    · refine Or.inr ⟨j, hj, ?_, hji⟩
      by_cases hjn : j = node <;> simp [reached, mark, raised, hjn, hvis]
    · exact Or.inr ⟨node, hnode, by simp [reached, mark], hi⟩

section Reached

variable {node : Fin N} (h : Searching n cost cmin floor source s)
include h

theorem Searching.slack_reached {j : Fin N} (hj : j.val < n) :
    (reached n source s node).slack j =
      red cost (reached n source s node) (s.slackTask j) j := by
  obtain ⟨hchosen, heq⟩ := h.slack_eq j hj
  change (raised n s _ source).slack j = red cost (raised n s _ source) (s.slackTask j) j
  rw [slack_raised hj, red_raised hj, if_pos hchosen]
  split <;> omega

theorem Searching.slack_reached_le {i j : Fin N} (hi : Chosen n source s i) (hj : j.val < n) :
    (reached n source s node).slack j ≤ red cost (reached n source s node) i j := by
  have := h.slack_le i j hi hj
  change (raised n s _ source).slack j ≤ red cost (raised n s _ source) i j
  rw [slack_raised hj, red_raised hj, if_pos hi]
  split <;> omega

variable (hnode : node.val < n) (hvis : s.visitedNode node = false)
include hnode hvis

theorem Searching.slack_visited {j : Fin N} (hj : j.val < n)
    (hvisj : (reached n source s node).visitedNode j = true) :
    (reached n source s node).slack j = 0 := by
  change (raised n s _ source).slack j = 0
  rw [slack_raised hj]
  by_cases hjn : j = node
  · subst hjn
    simp [hvis]
  · have hvisj' : s.visitedNode j = true := by
      simpa [reached, mark, raised, hjn] using hvisj
    simp [hvisj', (h.visited j hj hvisj').1]

theorem Searching.again (hdual : Dual n cost cmin floor (reached n source s node))
    (hb : Bounds C n cost cmin cmax floor) (hn : n ≤ N) {t : Fin N}
    (ht : s.taskForNode node = some t) :
    Searching n cost cmin floor source (relaxed n cost (reached n source s node) t) := by
  have hred : ∀ i j : Fin N, i.val < n → j.val < n →
      0 ≤ red cost (reached n source s node) i j := fun i j hi hj =>
    (hdual.ranges hb hn h.source_lt h.unmatched hi hj).2.2.2.1
  have htn : t.val < n := (h.pairing.task t node hnode id ht).1
  have hchosen : ∀ i, Chosen n source (relaxed n cost (reached n source s node) t) i ↔
      Chosen n source s i ∨ s.taskForNode node = some i := fun i => chosen_reached hnode
  -- the slack of a visited node cannot become less
  have hkeep : ∀ j : Fin N, j.val < n → (reached n source s node).visitedNode j = true →
      ¬ red cost (reached n source s node) t j < (reached n source s node).slack j := by
    intro j hj hvisj
    have := hred t j htn hj
    have := h.slack_visited hnode hvis hj hvisj
    omega
  refine ⟨⟨hdual.pairing, hdual.feasible, hdual.tight, hdual.free, hdual.low, hdual.price⟩,
    h.source_lt, h.unmatched, ?_, ?_, ?_, ?_⟩
  · intro j hj
    rw [hchosen]
    by_cases hless : red cost (reached n source s node) t j < (reached n source s node).slack j
    · simp only [relaxed, hj, hless, true_and, if_true]
      exact ⟨Or.inr ht, rfl⟩
    · simp only [relaxed, hj, hless, and_false, if_false]
      exact ⟨Or.inl (h.slack_eq j hj).1, h.slack_reached hj⟩
  · intro i j hi hj
    have hle : (relaxed n cost (reached n source s node) t).slack j ≤
        (reached n source s node).slack j ∧
        (relaxed n cost (reached n source s node) t).slack j ≤
          red cost (reached n source s node) t j := by
      simp only [relaxed, hj, true_and]
      split <;> omega
    rcases (hchosen i).1 hi with hold | hnew
    · exact Int.le_trans hle.1 (h.slack_reached_le hold hj)
    · have : i = t := Option.some.inj (hnew.symm.trans ht)
      exact this ▸ hle.2
  · intro j hj hvisj
    have hzero := h.slack_visited hnode hvis hj hvisj
    refine ⟨by simp only [relaxed]; rw [if_neg (not_and_of_not_right _ (hkeep j hj hvisj)), hzero],
      ?_⟩
    by_cases hjn : j = node
    · simp [hjn, relaxed, reached, mark, raised, ht]
    · exact (h.visited j hj (by simpa [relaxed, reached, mark, raised, hjn] using hvisj)).2
  · obtain ⟨rank, hrank⟩ := h.tree
    refine ⟨update rank node (visitedCount n s), fun j hj hvisj => ?_⟩
    have hcount := visitedCount_reached source hnode hvis
    have htask : (relaxed n cost (reached n source s node) t).slackTask j = s.slackTask j := by
      simp only [relaxed, if_neg (not_and_of_not_right _ (hkeep j hj hvisj))]
      rfl
    rw [htask]
    change _ < visitedCount n (reached n source s node) ∧ _
    rw [hcount]
    have hother : ∀ y : Fin N, s.visitedNode y = true → y ≠ node := fun y hy heq => by
      rw [heq, hvis] at hy
      cases hy
    by_cases hjn : j = node
    · subst hjn
      rw [update_self]
      refine ⟨Nat.lt_succ_self _, ?_⟩
      rcases (h.slack_eq j hj).1 with heq | ⟨y, hy, hyvis, hyt⟩
      · exact Or.inl heq
      · refine Or.inr ⟨y, hy, ?_, ?_, hyt⟩
        · simp [relaxed, reached, mark, raised, hother y hyvis, hyvis]
        · rw [update_of_ne (hother y hyvis)]
          exact (hrank y hy hyvis).1
    · rw [update_of_ne hjn]
      have hvisj' : s.visitedNode j = true := by
        simpa [relaxed, reached, mark, raised, hjn] using hvisj
      obtain ⟨hlt, hback⟩ := hrank j hj hvisj'
      refine ⟨Nat.lt_succ_of_lt hlt, hback.imp_right fun ⟨y, hy, hyvis, hless, hyt⟩ =>
        ⟨y, hy, ?_, ?_, hyt⟩⟩
      · simp [relaxed, reached, mark, raised, hother y hyvis, hyvis]
      · rwa [update_of_ne (hother y hyvis)]

end Reached

theorem Searching.augmentPath_spec (h : Searching n cost cmin floor source s) {node : Fin N}
    (hnode : node.val < n) (hvis : s.visitedNode node = false)
    (hdual : Dual n cost cmin floor (reached n source s node)) {fuel : Nat}
    (hfuel : visitedCount n s < fuel) (hfree : s.taskForNode node = none) :
    ∃ s', (reached n source s node).augmentPath fuel node source = some s' ∧
      Dual n cost cmin floor s' ∧
      ∀ i, s'.nodeForTask i = none ↔ s.nodeForTask i = none ∧ i ≠ source := by
  obtain ⟨rank, hrank⟩ := h.tree
  have hother : ∀ y : Fin N, s.visitedNode y = true → y ≠ node := fun y hy heq => by
    rw [heq, hvis] at hy
    cases hy
  have htree : Tree (fun i => i.val < n)
      (fun j => j.val < n ∧ (reached n source s node).visitedNode j = true)
      (fun j => some (s.slackTask j)) source (update rank node (visitedCount n s))
      s.taskForNode := by
    have hon : ∀ y : Fin N, s.visitedNode y = true →
        (reached n source s node).visitedNode y = true := fun y hy => by
      simp [reached, mark, raised, hother y hy, hy]
    refine ⟨fun j hj => hj.1, fun j ⟨hj, hvisj⟩ => ⟨s.slackTask j, rfl, ?_⟩⟩
    by_cases hjn : j = node
    · subst hjn
      refine (h.slack_eq j hj).1.imp_right fun ⟨y, hy, hyvis, hyt⟩ =>
        ⟨y, ⟨hy, hon y hyvis⟩, ?_, hyt⟩
      rw [update_self, update_of_ne (hother y hyvis)]
      exact (hrank y hy hyvis).1
    · have hvisj' : s.visitedNode j = true := by
        simpa [reached, mark, raised, hjn] using hvisj
      refine (hrank j hj hvisj').2.imp_right fun ⟨y, hy, hyvis, hless, hyt⟩ =>
        ⟨y, ⟨hy, hon y hyvis⟩, ?_, hyt⟩
      rwa [update_of_ne hjn, update_of_ne (hother y hyvis)]
  have hpairing : PairingBut (fun i => i.val < n) (· = node) s.nodeForTask s.taskForNode := by
    refine ⟨fun i j hi hij => ?_, fun i j hj _ => h.pairing.task i j hj id⟩
    obtain ⟨hj, -, hji⟩ := h.pairing.node i j hi hij
    refine ⟨hj, fun heq => ?_, hji⟩
    rw [heq, hfree] at hji
    cases hji
  obtain ⟨nodeFor, taskFor, hflip, hspec⟩ := flip_spec htree h.source_lt h.unmatched
    ⟨hnode, by simp [reached, mark]⟩ hpairing (by rwa [update_self])
  refine ⟨{ reached n source s node with nodeForTask := nodeFor, taskForNode := taskFor }, ?_, ?_,
    hspec.none_iff⟩
  · rw [augmentPath]
    simp only [show (reached n source s node).nodeForTask = s.nodeForTask from rfl,
      show (reached n source s node).taskForNode = s.taskForNode from rfl,
      show (reached n source s node).slackTask = s.slackTask from rfl, hflip]
    rfl
  · refine ⟨hspec.pairing, hdual.feasible, fun i j hi hij => ?_,
      fun j hj hj' => hdual.free j hj (hspec.task j hj'), hdual.low, hdual.price⟩
    rcases hspec.old i j hij with hold | ⟨⟨hj, hvisj⟩, hpred⟩
    · exact hdual.tight i j hi hold
    · have hzero := h.slack_visited hnode hvis hj hvisj
      rw [h.slack_reached hj, Option.some.inj hpred, red] at hzero
      change (reached n source s node).u i + (reached n source s node).v j = cost i j
      omega

theorem Searching.turn_eq (h : Searching n cost cmin floor source s)
    (hb : Bounds C n cost cmin cmax floor) (hn : n ≤ N) (fuel : Nat)
    (hprice : PricesHold C hn floor s) :
    ∃ node, s.findMinSlackNode C hn = (s.slack node, some node) ∧ node.val < n ∧
      s.visitedNode node = false ∧ Dual n cost cmin floor (reached n source s node) ∧
      turn C hn cost fuel source s =
        match s.taskForNode node with
        | none => ((reached n source s node).augmentPath fuel node source).map .done
        | some t => some (.again (relaxed n cost (reached n source s node) t)) := by
  obtain ⟨node, hfind, hnode, hvis, hzero, hleast⟩ := h.exists_least hb hn
  have hprice' : ∀ j : Fin N, j.val < n → s.visitedNode j = true →
      floor ≤ s.v j - s.slack node := by
    simpa only [PricesHold, hfind] using hprice
  have hdual := h.dual_raised hzero hleast hprice'
  obtain ⟨hu, hslack⟩ := h.raised_holds hzero hleast hb hn
  have hv : Lowerable C n s (s.slack node) := fun j hj hvisj => by
    obtain ⟨hlow, hhigh⟩ := h.lowered_range hzero hleast hb hn hj hvisj
    have hentry := hb.entry j j hj hj
    exact hb.holds_low _ (hprice' j hj hvisj) (by omega)
  refine ⟨node, hfind, hnode, hvis, ⟨hdual.pairing, hdual.feasible, hdual.tight, hdual.free,
    hdual.low, hdual.price⟩, ?_⟩
  rw [turn, hfind]
  simp only [Option.getD_some, updatePotentials_eq h.distinct hu hslack hv, Option.bind_eq_bind,
    Option.bind_some]
  cases ht : s.taskForNode node with
  | none =>
    simp only [show (raised n s (s.slack node) source).taskForNode node = none from ht]
    rw [Option.map_eq_bind]
    rfl
  | some t =>
    have htn : t.val < n := (h.pairing.task t node hnode id ht).1
    have hholds := fun (j : Fin N) (hj : j.val < n) =>
      hdual.reduced_holds hb hn h.source_lt h.unmatched htn hj
    have hrelax : (reached n source s node).updateSlackFromTask C hn cost t =
        some (relaxed n cost (reached n source s node) t) :=
      updateSlackFromTask_eq (fun j hj => (hholds j hj).1) fun j hj => (hholds j hj).2
    simp only [show (raised n s (s.slack node) source).taskForNode node = some t from ht]
    change ((reached n source s node).updateSlackFromTask C hn cost t).bind _ = _
    rw [hrelax]
    rfl

theorem Searching.turn_eq_none (h : Searching n cost cmin floor source s)
    (hb : Bounds C n cost cmin cmax floor) (hn : n ≤ N)
    (hfloor : ∀ x, x < floor → C.holds x = false)
    {fuel : Nat} (hprice : ¬ PricesHold C hn floor s) : turn C hn cost fuel source s = none := by
  obtain ⟨node, hfind, hnode, hvis, hzero, hleast⟩ := h.exists_least hb hn
  obtain ⟨hu, hslack⟩ := h.raised_holds hzero hleast hb hn
  have hv : ¬ Lowerable C n s (s.slack node) := fun hv => hprice fun j hj hvisj => by
    by_contra hlt
    have hholds := hv j hj hvisj
    rw [hfind] at hlt
    rw [hfloor _ (by dsimp only at hlt; omega)] at hholds
    cases hholds
  rw [turn, hfind]
  simp only [Option.getD_some, updatePotentials_eq_none h.distinct hu hslack hv,
    Option.bind_eq_bind, Option.bind_none]

/-! ## One task after the other -/

theorem Searching.pricesHold (h : Searching n cost cmin floor source s)
    (hb : Bounds C n cost cmin cmax floor) (hn : n ≤ N) (hfloor : floor ≤ cmin - cmax) :
    PricesHold C hn floor s := by
  obtain ⟨node, hfind, -, -, hzero, hleast⟩ := h.exists_least hb hn
  intro j hj hvis
  have := (h.lowered_range hzero hleast hb hn hj hvis).1
  rw [hfind]
  dsimp only
  omega

/-- What a turn leaves: a search that goes on, with one more node visited, or one task more that
has a node. -/
theorem Searching.turn_spec (h : Searching n cost cmin floor source s)
    (hb : Bounds C n cost cmin cmax floor) (hn : n ≤ N) {fuel : Nat} (hfuel : n ≤ fuel)
    (hprice : PricesHold C hn floor s) :
    (∃ s', turn C hn cost fuel source s = some (.done s') ∧ Dual n cost cmin floor s' ∧
        ∀ i, s'.nodeForTask i = none ↔ s.nodeForTask i = none ∧ i ≠ source) ∨
      ∃ s', turn C hn cost fuel source s = some (.again s') ∧
        Searching n cost cmin floor source s' ∧ s'.nodeForTask = s.nodeForTask ∧
        visitedCount n s' = visitedCount n s + 1 := by
  obtain ⟨node, -, hnode, hvis, hdual, hturn⟩ := h.turn_eq hb hn fuel hprice
  cases ht : s.taskForNode node with
  | none =>
    obtain ⟨s', haugment, hdual', hnone⟩ := h.augmentPath_spec hnode hvis hdual
      (Nat.lt_of_lt_of_le (h.visitedCount_lt hn) hfuel) ht
    exact Or.inl ⟨s', by rw [hturn, ht, haugment]; rfl, hdual', hnone⟩
  | some t =>
    exact Or.inr ⟨_, by rw [hturn, ht], h.again hnode hvis hdual hb hn ht, rfl,
      visitedCount_reached source hnode hvis⟩

theorem Dual.beginSearch_spec (h : Dual n cost cmin floor s)
    (hb : Bounds C n cost cmin cmax floor) (hn : n ≤ N) (hsource : source.val < n)
    (hun : s.nodeForTask source = none) :
    s.beginSearch C hn cost source = some (relaxed n cost (s.resetAugmentState C hn) source) ∧
      Searching n cost cmin floor source (relaxed n cost (s.resetAugmentState C hn) source) := by
  have hless : ∀ j : Fin N, j.val < n → j.val < n ∧
      red cost (s.resetAugmentState C hn) source j < (s.resetAugmentState C hn).slack j := by
    intro j hj
    have := (h.ranges hb hn hsource hun hsource hj).2.2.2.2
    have := hb.sentinel
    simp only [resetAugmentState, fill_apply, hj, if_true]
    exact ⟨trivial, by change red cost s source j < C.MAX; omega⟩
  have hslack : ∀ j : Fin N, j.val < n →
      (relaxed n cost (s.resetAugmentState C hn) source).slack j = red cost s source j :=
    fun j hj => if_pos (hless j hj)
  have htask : ∀ j : Fin N, j.val < n →
      (relaxed n cost (s.resetAugmentState C hn) source).slackTask j = source :=
    fun j hj => if_pos (hless j hj)
  have hvis : ∀ j : Fin N, j.val < n →
      (relaxed n cost (s.resetAugmentState C hn) source).visitedNode j = false := by
    intro j hj
    simp [relaxed, resetAugmentState, hj]
  have hholds := fun (j : Fin N) (hj : j.val < n) => h.reduced_holds hb hn hsource hun hsource hj
  refine ⟨updateSlackFromTask_eq (fun j hj => (hholds j hj).1) fun j hj => (hholds j hj).2,
    ⟨h.pairing, h.feasible, h.tight, h.free, h.low, h.price⟩, hsource, hun,
    fun j hj => ⟨?_, ?_⟩, fun i j hi hj => ?_, fun j hj hvisj => ?_, fun _ => 0,
    fun j hj hvisj => ?_⟩
  · exact Or.inl (htask j hj)
  · rw [hslack j hj, htask j hj]
    rfl
  · rcases hi with rfl | ⟨k, hk, hvisk, -⟩
    · exact Int.le_of_eq (hslack j hj)
    · rw [hvis k hk] at hvisk
      cases hvisk
  · rw [hvis j hj] at hvisj
    cases hvisj
  · rw [hvis j hj] at hvisj
    cases hvisj

/-- The prices hold at every turn of a search that begins here. -/
def SearchHolds (C : CostType) (hn : n ≤ N) (cost : Fin N → Fin N → Int) (floor : Int)
    (fuel : Nat) (s : Hungarian N) (task : Fin N) : Prop :=
  ∀ s', s.beginSearch C hn cost task = some s' →
    Throughout (turn C hn cost fuel task) (PricesHold C hn floor) fuel s'

theorem Dual.searchHolds (h : Dual n cost cmin floor s) (hb : Bounds C n cost cmin cmax floor)
    (hn : n ≤ N) (hfloor : floor ≤ cmin - cmax) (hsource : source.val < n)
    (hun : s.nodeForTask source = none) {fuel : Nat} (hfuel : n ≤ fuel) :
    SearchHolds C hn cost floor fuel s source := by
  intro s' hbegin
  obtain ⟨hbegin', hsearching⟩ := h.beginSearch_spec hb hn hsource hun
  rw [hbegin', Option.some.injEq] at hbegin
  subst hbegin
  refine throughout_of_inv (Searching n cost cmin floor source)
    (fun s' hs' => hs'.pricesHold hb hn hfloor) (fun s' r hs' hturn => ?_) fuel hsearching
  rcases hs'.turn_spec hb hn hfuel (hs'.pricesHold hb hn hfloor) with
    ⟨r', hturn', -⟩ | ⟨r', hturn', hr', -⟩
  · rw [hturn'] at hturn
    cases hturn
  · rw [hturn', Option.some.injEq, Turn.again.injEq] at hturn
    exact hturn ▸ hr'

theorem Dual.search_spec (h : Dual n cost cmin floor s) (hb : Bounds C n cost cmin cmax floor)
    (hn : n ≤ N) (hsource : source.val < n) (hun : s.nodeForTask source = none) {fuel : Nat}
    (hfuel : n ≤ fuel) (hholds : SearchHolds C hn cost floor fuel s source) :
    ∃ s', search C hn cost fuel s source = some s' ∧ Dual n cost cmin floor s' ∧
      ∀ i, s'.nodeForTask i = none ↔ s.nodeForTask i = none ∧ i ≠ source := by
  obtain ⟨hbegin, hsearching⟩ := h.beginSearch_spec hb hn hsource hun
  have hturn : ∀ s' : Hungarian N,
      Searching n cost cmin floor source s' ∧ s'.nodeForTask = s.nodeForTask →
      PricesHold C hn floor s' →
      (∃ r, turn C hn cost fuel source s' = some (.done r) ∧ Dual n cost cmin floor r ∧
          ∀ i, r.nodeForTask i = none ↔ s.nodeForTask i = none ∧ i ≠ source) ∨
        ∃ r, turn C hn cost fuel source s' = some (.again r) ∧
          (Searching n cost cmin floor source r ∧ r.nodeForTask = s.nodeForTask) ∧
          n - 1 - visitedCount n r < n - 1 - visitedCount n s' := by
    intro s' ⟨hs', hsame⟩ hprice
    rcases hs'.turn_spec hb hn hfuel hprice with
      ⟨r, hturn, hdual, hnone⟩ | ⟨r, hturn, hr, hkeep, hcount⟩
    · exact Or.inl ⟨r, hturn, hdual, by rwa [hsame] at hnone⟩
    · have := hr.visitedCount_lt hn
      exact Or.inr ⟨r, hturn, ⟨hr, hkeep.trans hsame⟩, by omega⟩
  have hleft :
      n - 1 - visitedCount n (relaxed n cost (s.resetAugmentState C hn) source) < fuel := by
    have := hsearching.visitedCount_lt hn
    omega
  obtain ⟨s', hloop, hpost⟩ :=
    loop_of_throughout _ _ _ _ _ hturn ⟨hsearching, rfl⟩ hleft (hholds _ hbegin)
  exact ⟨s', by rw [search, hbegin]; exact hloop, hpost⟩

/-! ## The first potentials -/

def rowMin (hn : n ≤ N) (cost : Fin N → Fin N → Int) (i : Fin N) : Int :=
  minimum ((indices hn).map (cost i))

/-- The least of a node's costs when each is taken less the least cost of its task. -/
def columnMin (hn : n ≤ N) (cost : Fin N → Fin N → Int) (j : Fin N) : Int :=
  minimum ((indices hn).map fun i => cost i j - rowMin hn cost i)

theorem rowMin_le (hn : n ≤ N) (cost : Fin N → Fin N → Int) {i j : Fin N} (hj : j.val < n) :
    rowMin hn cost i ≤ cost i j :=
  minimum_le (List.mem_map_of_mem (mem_indices.2 hj))

theorem rowMin_mem (hn : n ≤ N) (cost : Fin N → Fin N → Int) {i : Fin N} (hi : i.val < n) :
    ∃ j : Fin N, j.val < n ∧ cost i j = rowMin hn cost i := by
  have hne : (indices hn).map (cost i) ≠ [] :=
    List.ne_nil_of_mem (List.mem_map_of_mem (mem_indices.2 hi))
  obtain ⟨j, hj, heq⟩ := List.mem_map.1 (minimum_mem hne)
  exact ⟨j, mem_indices.1 hj, heq⟩

theorem columnMin_le (hn : n ≤ N) (cost : Fin N → Fin N → Int) {i j : Fin N} (hi : i.val < n) :
    columnMin hn cost j ≤ cost i j - rowMin hn cost i :=
  minimum_le (List.mem_map_of_mem (f := fun i => cost i j - rowMin hn cost i) (mem_indices.2 hi))

theorem columnMin_nonneg (hn : n ≤ N) (cost : Fin N → Fin N → Int) {j : Fin N} (hj : j.val < n) :
    0 ≤ columnMin hn cost j := by
  have hne : ((indices hn).map fun i => cost i j - rowMin hn cost i) ≠ [] :=
    List.ne_nil_of_mem (List.mem_map_of_mem (mem_indices.2 hj))
  obtain ⟨i, hi, heq⟩ := List.mem_map.1 (minimum_mem hne)
  have hle := rowMin_le hn cost (i := i) hj
  rw [columnMin, ← heq]
  omega

/-- The state in which the first search begins. -/
def started (hn : n ≤ N) (cost : Fin N → Fin N → Int) (s : Hungarian N) : Hungarian N :=
  { s.resetMatching hn with
    u := fun i => if i.val < n then rowMin hn cost i else s.u i
    v := fun j => if j.val < n then columnMin hn cost j else s.v j }

theorem initPotentials_eq (hb : Bounds C n cost cmin cmax floor) :
    (s.resetMatching hn).initPotentials C hn cost = some (started hn cost s) := by
  have hu : fill hn (fun i => minimum ((indices hn).map (cost i))) (s.resetMatching hn).u =
      fun i => if i.val < n then rowMin hn cost i else s.u i := by
    funext i
    exact fill_apply hn _ _ i
  have hcolumn : ∀ j : Fin N, j.val < n → (indices hn).mapM (fun i =>
      C.sub (cost i j) (if i.val < n then rowMin hn cost i else s.u i)) =
        some ((indices hn).map fun i => cost i j - rowMin hn cost i) := by
    intro j hj
    have hsame : (indices hn).map (fun i => cost i j - rowMin hn cost i) = (indices hn).map fun i =>
        cost i j - (if i.val < n then rowMin hn cost i else s.u i) :=
      List.map_congr_left fun i hi => by rw [if_pos (mem_indices.1 hi)]
    rw [hsame]
    refine CostType.mapM_checked fun i hi => ?_
    have hi := mem_indices.1 hi
    obtain ⟨k, hk, heq⟩ := rowMin_mem hn cost hi
    have hle := rowMin_le hn cost (i := i) hj
    have h₁ := hb.entry i j hi hj
    have h₂ := hb.entry i k hi hk
    have h₃ := hb.floor_le
    rw [if_pos hi]
    exact hb.holds_low _ (by omega) (by omega)
  obtain ⟨v, hfold, hv⟩ := foldlM_of_inv
    (initPrice C hn cost fun i => if i.val < n then rowMin hn cost i else s.u i)
    (fun before v => v = fun j => if j ∈ before then columnMin hn cost j else s.v j)
    (indices hn) s.v (by simp) fun before x after v hxs hv => by
      refine ⟨update v x (columnMin hn cost x), ?_, ?_⟩
      · rw [initPrice, hcolumn x (lt_of_indices_eq hxs)]
        rfl
      · subst hv
        funext j
        by_cases hj : j = x <;> simp [hj]
  have hsame : (s.resetMatching hn).v = s.v := rfl
  rw [initPotentials]
  simp only [hu, hsame, hfold, hv, mem_indices]
  rfl

theorem dual_started (hb : Bounds C n cost cmin cmax floor) (s : Hungarian N) :
    Dual n cost cmin floor (started hn cost s) where
  pairing := by
    constructor
    · intro i j hi hij
      simp [started, resetMatching, hi] at hij
    · intro i j hj _ hji
      simp [started, resetMatching, hj] at hji
  feasible i j hi hj := by
    have := columnMin_le hn cost (j := j) hi
    simp only [started, hi, hj, if_true]
    omega
  tight i j hi hij := by simp [started, resetMatching, hi] at hij
  free j hj _ := by
    simpa [started, hj] using columnMin_nonneg hn cost hj
  low i hi := by
    obtain ⟨k, hk, heq⟩ := rowMin_mem hn cost hi
    have := hb.entry i k hi hk
    simp only [started, hi, if_true]
    omega
  price j hj := by
    have := columnMin_nonneg hn cost hj
    have := hb.floor_le
    simp only [started, hj, if_true]
    omega

/-! ## The result -/

theorem Dual.result (h : Dual n cost cmin floor s) (hn : n ≤ N)
    (hall : ∀ i : Fin N, i.val < n → s.nodeForTask i ≠ none) :
    ∃ σ : Equiv.Perm (Fin n), (indices hn).map s.nodeForTask = assignmentOf hn σ ∧
      Optimal (corner hn cost) σ := by
  obtain ⟨σ, hσ⟩ := h.pairing.exists_perm (Fin.castLEEmb hn) (inUse_iff hn) hall
  refine ⟨σ, ?_, ?_⟩
  · rw [indices, List.map_map, assignmentOf]
    exact List.map_congr_left fun i _ => hσ i
  · exact Potentials.optimal (u := fun i => s.u (i.castLE hn)) (v := fun j => s.v (j.castLE hn))
      (fun i j => h.feasible _ _ i.isLt j.isLt) fun i => h.tight _ _ i.isLt (hσ i)

theorem solve_of_bounds (hb : Bounds C n cost cmin cmax floor) (hn : n ≤ N)
    (hfloor : floor ≤ cmin - cmax) {fuel : Nat} (hfuel : n ≤ fuel) (s : Hungarian N) :
    ∃ s' σ, solve C fuel hn s cost = some (assignmentOf hn σ, s') ∧
      Optimal (corner hn cost) σ := by
  obtain ⟨s', hfold, hdual, hnone⟩ := foldlM_of_inv (search C hn cost fuel)
    (fun before s => Dual n cost cmin floor s ∧
      ∀ i : Fin N, i.val < n → (s.nodeForTask i = none ↔ i ∉ before))
    (indices hn) (started hn cost s)
    ⟨dual_started hb s, fun i hi => by simp [started, resetMatching, hi]⟩
    fun before x after s hxs ⟨hdual, hnone⟩ => by
      have hx := lt_of_indices_eq hxs
      have hun := (hnone x hx).2 (not_mem_of_indices_eq hxs)
      obtain ⟨s', hsearch, hdual', hnone'⟩ := hdual.search_spec hb hn hx hun hfuel
        (hdual.searchHolds hb hn hfloor hx hun hfuel)
      refine ⟨s', hsearch, hdual', fun i hi => ?_⟩
      rw [hnone', hnone i hi]
      simp
  obtain ⟨σ, hresult, hopt⟩ := hdual.result hn fun i hi hi' =>
    (hnone i hi).1 hi' (mem_indices.2 hi)
  refine ⟨s', σ, ?_, hopt⟩
  rw [solve, initPotentials_eq hb, Option.bind_eq_bind, Option.bind_some, hfold, ← hresult]
  rfl

theorem bounds_i64 (hcost : ∀ i j : Fin N, i.val < n → j.val < n →
      (cost i j).natAbs < (2 ^ 63 - 1) / 8) :
    Bounds .i64 n cost (1 - (2 ^ 63 - 1) / 8) ((2 ^ 63 - 1) / 8 - 1)
      (2 * (1 - (2 ^ 63 - 1) / 8)) where
  entry i j hi hj := by
    have := hcost i j hi hj
    omega
  cost_holds x hlow hhigh := by
    simp only [CostType.i64, decide_eq_true_eq]
    omega
  holds_low x hlow hhigh := by
    simp only [CostType.i64, decide_eq_true_eq]
    omega
  floor_le := by decide
  sentinel := by decide

/-- Whatever earlier calls have left, the solver ends, and no permutation costs less than the one
it returns. -/
theorem solve_optimal (hn : n ≤ N) (cost : Fin N → Fin N → Int)
    (hcost : ∀ i j : Fin N, i.val < n → j.val < n →
      (cost i j).natAbs < (2 ^ 63 - 1) / (4 * (n + 1)))
    (s : Hungarian N) {fuel : Nat} (hfuel : n ≤ fuel) :
    ∃ s' σ, solve .i64 fuel hn s cost = some (assignmentOf hn σ, s') ∧
      Optimal (corner hn cost) σ := by
  have hcost' : ∀ i j : Fin N, i.val < n → j.val < n →
      (cost i j).natAbs < (2 ^ 63 - 1) / 8 := by
    intro i j hi hj
    have hdiv : (2 ^ 63 - 1) / (4 * (n + 1)) ≤ (2 ^ 63 - 1) / 8 :=
      Nat.div_le_div_left (by omega) (by decide)
    exact Nat.lt_of_lt_of_le (hcost i j hi hj) hdiv
  exact solve_of_bounds (bounds_i64 hcost') hn (by decide) hfuel s

/-- Three tasks with costs of either sign. -/
theorem solve_optimal_three :
    ∃ s' σ, solve .i64 3 (Nat.le_refl 3) (new .i64)
        (fun i j => if i = j then -2 else (j.val : Int)) =
          some (assignmentOf (Nat.le_refl 3) σ, s') ∧
      Optimal (corner (Nat.le_refl 3) fun i j => if i = j then -2 else (j.val : Int)) σ :=
  solve_optimal (Nat.le_refl 3) _ (by decide) (new .i64) (Nat.le_refl 3)

end Hungarian

end Spacecomp
end Leodos
