/-
The Jonker-Volgenant solver, `plan/assignment/lapjv.rs`.

The search for a task scans nodes by their distance.  From a scanned node it goes on by the
reduced costs of the node's task, but does not take the reduced cost of the matched pair off the
way.  Every run ends with a permutation (`solve_terminates`).  Its cost is the least one as long
as no scanned node that keeps its task has a shorter way to offer (`solve_optimal_of_short`).
-/
import Leodos.Spacecomp.Hungarian
import Mathlib.Data.Fintype.Perm

namespace Leodos
namespace Spacecomp

open Assignment Function

attribute [local instance] lawfulBEq_index

structure JonkerVolgenant (N : Nat) where
  v : Fin N → Int
  nodeForTask : Fin N → Option (Fin N)
  taskForNode : Fin N → Option (Fin N)
  dist : Fin N → Int
  predTask : Fin N → Option (Fin N)
  scanned : Fin N → Bool

namespace JonkerVolgenant

variable {N n : Nat}

def new (C : CostType) : JonkerVolgenant N where
  v _ := 0
  nodeForTask _ := none
  taskForNode _ := none
  dist _ := C.MAX
  predTask _ := none
  scanned _ := false

def resetMatching (hn : n ≤ N) (s : JonkerVolgenant N) : JonkerVolgenant N :=
  { s with
    nodeForTask := fill hn (fun _ => none) s.nodeForTask
    taskForNode := fill hn (fun _ => none) s.taskForNode }

def resetSearchState (C : CostType) (hn : n ≤ N) (s : JonkerVolgenant N) : JonkerVolgenant N :=
  { s with
    dist := fill hn (fun _ => C.MAX) s.dist
    predTask := fill hn (fun _ => none) s.predTask
    scanned := fill hn (fun _ => false) s.scanned }

def initNodePrices (hn : n ≤ N) (cost : Fin N → Fin N → Int) (s : JonkerVolgenant N) :
    JonkerVolgenant N :=
  { s with v := fill hn (fun j => minimum ((indices hn).map fun i => cost i j)) s.v }

def reducedCost (C : CostType) (cost : Fin N → Fin N → Int) (s : JonkerVolgenant N)
    (task node : Fin N) : Option Int :=
  C.sub (cost task node) (s.v node)

/-- One turn of the loop of `init_distances_from_task`. -/
def initDistance (C : CostType) (cost : Fin N → Fin N → Int) (task : Fin N)
    (s : JonkerVolgenant N) (node : Fin N) : Option (JonkerVolgenant N) := do
  let dist ← s.reducedCost C cost task node
  pure { s with
    dist := update s.dist node dist
    predTask := update s.predTask node (some task) }

def initDistancesFromTask (C : CostType) (hn : n ≤ N) (cost : Fin N → Fin N → Int)
    (s : JonkerVolgenant N) (task : Fin N) : Option (JonkerVolgenant N) :=
  (indices hn).foldlM (initDistance C cost task) s

def findMinUnscannedNode (C : CostType) (hn : n ≤ N) (s : JonkerVolgenant N) :
    Option (Int × Fin N) :=
  let (minDist, bestNode) := findMin C hn s.scanned s.dist
  bestNode.map fun node => (minDist, node)

/-- One turn of the loop of `relax_edges_from_task`. -/
def relaxEdge (C : CostType) (cost : Fin N → Fin N → Int) (task : Fin N) (baseDist : Int)
    (s : JonkerVolgenant N) (node : Fin N) : Option (JonkerVolgenant N) :=
  if s.scanned node then some s
  else do
    let reduced ← s.reducedCost C cost task node
    let newDist ← C.add baseDist reduced
    if newDist < s.dist node then
      pure { s with
        dist := update s.dist node newDist
        predTask := update s.predTask node (some task) }
    else pure s

def relaxEdgesFromTask (C : CostType) (hn : n ≤ N) (cost : Fin N → Fin N → Int)
    (s : JonkerVolgenant N) (task : Fin N) (baseDist : Int) : Option (JonkerVolgenant N) :=
  (indices hn).foldlM (relaxEdge C cost task baseDist) s

/-- The new price of a node in `update_node_prices`. -/
def setPrice (C : CostType) (minDist : Int) (s : JonkerVolgenant N) (node : Fin N) :
    Option (JonkerVolgenant N) := do
  let sum ← C.add (s.v node) (s.dist node)
  let price ← C.sub sum minDist
  pure { s with v := update s.v node price }

/-- One turn of the loop of `update_node_prices`. -/
def updatePrice (C : CostType) (minDist : Int) (s : JonkerVolgenant N) (node : Fin N) :
    Option (JonkerVolgenant N) :=
  if s.scanned node then s.setPrice C minDist node else some s

def updateNodePrices (C : CostType) (hn : n ≤ N) (s : JonkerVolgenant N) (minDist : Int)
    (sink : Option (Fin N)) : Option (JonkerVolgenant N) := do
  let s ← (indices hn).foldlM (updatePrice C minDist) s
  match sink with
  | none => pure s
  | some sink => s.setPrice C minDist sink

def augmentFromSink (fuel : Nat) (s : JonkerVolgenant N) (sinkNode sourceTask : Fin N) :
    Option (JonkerVolgenant N) := do
  let (nodeForTask, taskForNode) ← flip s.predTask sourceTask fuel sinkNode
    (s.nodeForTask, s.taskForNode)
  pure { s with nodeForTask := nodeForTask, taskForNode := taskForNode }

/-- A search: the solver, the distance of the last node, and the node without a task. -/
structure Search (N : Nat) where
  solver : JonkerVolgenant N
  minDist : Int
  sink : Option (Fin N)

def turn (C : CostType) (hn : n ≤ N) (cost : Fin N → Fin N → Int) (search : Search N) :
    Option (Turn (Search N)) :=
  match search.solver.findMinUnscannedNode C hn with
  | none => some (.done search)
  | some (dist, node) =>
    let s := { search.solver with scanned := update search.solver.scanned node true }
    match s.taskForNode node with
    | none => some (.done ⟨s, dist, some node⟩)
    | some matched => do
      let s ← s.relaxEdgesFromTask C hn cost matched dist
      pure (.again ⟨s, dist, none⟩)

def beginSearch (C : CostType) (hn : n ≤ N) (cost : Fin N → Fin N → Int)
    (s : JonkerVolgenant N) (task : Fin N) : Option (JonkerVolgenant N) :=
  (s.resetSearchState C hn).initDistancesFromTask C hn cost task

def scan (C : CostType) (hn : n ≤ N) (cost : Fin N → Fin N → Int) (fuel : Nat)
    (s : JonkerVolgenant N) (task : Fin N) : Option (Search N) := do
  let s ← s.beginSearch C hn cost task
  loop (turn C hn cost) fuel ⟨s, 0, none⟩

def search (C : CostType) (hn : n ≤ N) (cost : Fin N → Fin N → Int) (fuel : Nat)
    (s : JonkerVolgenant N) (task : Fin N) : Option (JonkerVolgenant N) := do
  let found ← s.scan C hn cost fuel task
  let s ← found.solver.updateNodePrices C hn found.minDist found.sink
  match found.sink with
  | none => pure s
  | some sink => s.augmentFromSink fuel sink task

/-- `fuel` bounds the turns of each of the two loops without a bound of their own. -/
def solve (C : CostType) (fuel : Nat) (hn : n ≤ N) (s : JonkerVolgenant N)
    (cost : Fin N → Fin N → Int) : Option (List (Option (Fin N)) × JonkerVolgenant N) := do
  let s ← (indices hn).foldlM (search C hn cost fuel)
    ((s.resetMatching hn).initNodePrices hn cost)
  pure ((indices hn).map s.nodeForTask, s)

/-! ## What the loops compute -/

/-- The reduced cost over the integers. -/
def red (cost : Fin N → Fin N → Int) (s : JonkerVolgenant N) (i j : Fin N) : Int :=
  cost i j - s.v j

/-- The state in which a search begins. -/
def begun (n : Nat) (cost : Fin N → Fin N → Int) (s : JonkerVolgenant N) (task : Fin N) :
    JonkerVolgenant N :=
  { s with
    dist := fun j => if j.val < n then red cost s task j else s.dist j
    predTask := fun j => if j.val < n then some task else s.predTask j
    scanned := fun j => if j.val < n then false else s.scanned j }

/-- The distances after the way over a task has been looked at. -/
def relaxed (n : Nat) (cost : Fin N → Fin N → Int) (s : JonkerVolgenant N) (task : Fin N)
    (baseDist : Int) : JonkerVolgenant N :=
  { s with
    dist := fun j =>
      if j.val < n ∧ s.scanned j = false ∧ baseDist + red cost s task j < s.dist j then
        baseDist + red cost s task j else s.dist j
    predTask := fun j =>
      if j.val < n ∧ s.scanned j = false ∧ baseDist + red cost s task j < s.dist j then
        some task else s.predTask j }

def priced (n : Nat) (s : JonkerVolgenant N) (minDist : Int) : JonkerVolgenant N :=
  { s with
    v := fun j => if j.val < n ∧ s.scanned j = true then s.v j + s.dist j - minDist else s.v j }

variable {C : CostType} {hn : n ≤ N} {cost : Fin N → Fin N → Int} {s : JonkerVolgenant N}

theorem initDistance_eq {task node : Fin N} (h : C.holds (red cost s task node) = true) :
    s.initDistance C cost task node = some { s with
      dist := update s.dist node (red cost s task node)
      predTask := update s.predTask node (some task) } := by
  rw [initDistance, reducedCost, CostType.sub_of_holds h]
  rfl

theorem beginSearch_eq {task : Fin N}
    (hred : ∀ j : Fin N, j.val < n → C.holds (red cost s task j) = true) :
    s.beginSearch C hn cost task = some (begun n cost s task) := by
  obtain ⟨s', hfold, hs'⟩ := foldlM_of_inv (initDistance C cost task)
    (fun before s' => s' = { s.resetSearchState C hn with
      dist := fun j => if j ∈ before then red cost s task j else (s.resetSearchState C hn).dist j
      predTask := fun j =>
        if j ∈ before then some task else (s.resetSearchState C hn).predTask j })
    (indices hn) (s.resetSearchState C hn) (by simp) fun before x after s' hxs hs' => by
      subst hs'
      refine ⟨_, initDistance_eq (hred x (lt_of_indices_eq hxs)), ?_⟩
      simp only [List.mem_append, List.mem_singleton]
      congr 1 <;> funext j <;> by_cases hj : j = x
      · subst hj
        simp [red, resetSearchState]
      · simp [hj]
      · simp [hj]
      · simp [hj]
  rw [beginSearch, initDistancesFromTask, hfold, hs', begun]
  simp only [mem_indices, Option.some.injEq]
  congr 1 <;> funext j <;> by_cases hj : j.val < n <;> simp [resetSearchState, hj]

theorem relaxEdge_eq {task node : Fin N} {baseDist : Int}
    (hred : C.holds (red cost s task node) = true)
    (hadd : C.holds (baseDist + red cost s task node) = true) :
    s.relaxEdge C cost task baseDist node = some
      (if s.scanned node = false ∧ baseDist + red cost s task node < s.dist node then
        { s with
          dist := update s.dist node (baseDist + red cost s task node)
          predTask := update s.predTask node (some task) }
      else s) := by
  cases hscan : s.scanned node with
  | true => simp [relaxEdge, hscan]
  | false =>
    have hreduced : s.reducedCost C cost task node = some (red cost s task node) :=
      CostType.sub_of_holds hred
    rw [relaxEdge, if_neg (by simp [hscan]), hreduced, Option.bind_eq_bind, Option.bind_some,
      CostType.add_of_holds hadd]
    by_cases hless : baseDist + red cost s task node < s.dist node <;> simp [hless]

theorem relaxEdgesFromTask_eq {task : Fin N} {baseDist : Int}
    (hred : ∀ j : Fin N, j.val < n → C.holds (red cost s task j) = true)
    (hadd : ∀ j : Fin N, j.val < n → C.holds (baseDist + red cost s task j) = true) :
    s.relaxEdgesFromTask C hn cost task baseDist = some (relaxed n cost s task baseDist) := by
  obtain ⟨s', hfold, hs'⟩ := foldlM_of_inv (relaxEdge C cost task baseDist)
    (fun before s' => s' = { s with
      dist := fun j => if j ∈ before ∧ s.scanned j = false ∧
          baseDist + red cost s task j < s.dist j then
        baseDist + red cost s task j else s.dist j
      predTask := fun j => if j ∈ before ∧ s.scanned j = false ∧
          baseDist + red cost s task j < s.dist j then
        some task else s.predTask j })
    (indices hn) s (by simp) fun before x after s' hxs hs' => by
      have hx := lt_of_indices_eq hxs
      have hnot := not_mem_of_indices_eq hxs
      subst hs'
      refine ⟨_, relaxEdge_eq (hred x hx) (hadd x hx), ?_⟩
      simp only [red, hnot, false_and, if_false, List.mem_append, List.mem_singleton]
      by_cases hless : s.scanned x = false ∧ baseDist + (cost task x - s.v x) < s.dist x
      · rw [if_pos hless]
        congr 1 <;> funext j <;> by_cases hj : j = x <;> simp [hj, hless] <;> congr
      · rw [if_neg hless]
        congr 1 <;> funext j <;> by_cases hj : j = x
        · simp only [hj, hnot, or_true, true_and, false_and, if_false, if_neg hless]
        · simp only [hj, or_false]
          congr
        · simp only [hj, hnot, or_true, true_and, false_and, if_false, if_neg hless]
        · simp only [hj, or_false]
          congr
  rw [relaxEdgesFromTask, hfold, hs', relaxed]
  simp only [mem_indices]

/-- The prices can come down to what a search asks for. -/
def Lowerable (C : CostType) (n : Nat) (s : JonkerVolgenant N) (minDist : Int) : Prop :=
  ∀ j : Fin N, j.val < n → s.scanned j = true → C.holds (s.v j + s.dist j - minDist) = true

/-- The state of `update_node_prices` after the nodes in `before`. -/
def partly (before : List (Fin N)) (s : JonkerVolgenant N) (minDist : Int) : JonkerVolgenant N :=
  { s with
    v := fun j => if j ∈ before ∧ s.scanned j = true then s.v j + s.dist j - minDist else s.v j }

theorem setPrice_eq {minDist : Int} {node : Fin N}
    (hadd : C.holds (s.v node + s.dist node) = true) :
    s.setPrice C minDist node = if C.holds (s.v node + s.dist node - minDist) = true then
      some { s with v := update s.v node (s.v node + s.dist node - minDist) } else none := by
  rw [setPrice, CostType.add_of_holds hadd, Option.bind_eq_bind, Option.bind_some, CostType.sub,
    CostType.checked]
  split <;> rfl

section UpdateNodePrices

variable {minDist : Int}
  (hadd : ∀ j : Fin N, j.val < n → s.scanned j = true → C.holds (s.v j + s.dist j) = true)
include hadd

theorem partly_step {before after : List (Fin N)} {x : Fin N}
    (hxs : indices hn = before ++ x :: after) :
    (partly before s minDist).updatePrice C minDist x =
      if s.scanned x = true ∧ C.holds (s.v x + s.dist x - minDist) = false then none
      else some (partly (before ++ [x]) s minDist) := by
  have hnot := not_mem_of_indices_eq hxs
  have hcell : (partly before s minDist).v x = s.v x := by simp [partly, hnot]
  cases hscan : s.scanned x with
  | false =>
    rw [updatePrice, if_neg (by simp [partly, hscan]), if_neg (by simp), Option.some.injEq]
    simp only [partly]
    congr 1
    funext j
    by_cases hj : j = x <;> simp [hj, hscan]
  | true =>
    have hsum :
        C.holds ((partly before s minDist).v x + (partly before s minDist).dist x) = true := by
      rw [hcell]
      exact hadd x (lt_of_indices_eq hxs) hscan
    rw [updatePrice, if_pos (by simp [partly, hscan]), setPrice_eq hsum, hcell]
    change (if C.holds (s.v x + s.dist x - minDist) = true then _ else _) = _
    cases hholds : C.holds (s.v x + s.dist x - minDist) with
    | false => simp
    | true =>
      rw [if_pos rfl, if_neg (by simp), Option.some.injEq]
      simp only [partly]
      congr 1
      funext j
      by_cases hj : j = x <;> simp [hj, hnot, hscan]

theorem updateNodePrices_eq {sink : Fin N} (hsink : sink.val < n) (hscan : s.scanned sink = true)
    (hdist : s.dist sink = minDist) (hv : Lowerable C n s minDist) :
    s.updateNodePrices C hn minDist (some sink) = some (priced n s minDist) := by
  obtain ⟨s', hfold, rfl⟩ := foldlM_of_inv (updatePrice C minDist)
    (fun before s' => s' = partly before s minDist) (indices hn) s (by simp [partly])
    fun before x after s' hxs hs' => by
      subst hs'
      rw [partly_step hadd hxs, if_neg]
      · exact ⟨_, rfl, rfl⟩
      · intro ⟨hscan, hholds⟩
        rw [hv x (lt_of_indices_eq hxs) hscan] at hholds
        cases hholds
  have hpriced : partly (indices hn) s minDist = priced n s minDist := by
    simp only [partly, priced, mem_indices]
  have hcell : (priced n s minDist).v sink = s.v sink := by
    simp only [priced, hsink, hscan, and_self, if_true]
    omega
  have hholds : C.holds (s.v sink) = true := by
    have := hv sink hsink hscan
    rwa [show s.v sink + s.dist sink - minDist = s.v sink by omega] at this
  -- the sink's price is set once more, to what it is
  have hagain : (priced n s minDist).setPrice C minDist sink = some (priced n s minDist) := by
    have hsame : (priced n s minDist).v sink + (priced n s minDist).dist sink - minDist =
        (priced n s minDist).v sink := by
      change _ + s.dist sink - minDist = _
      omega
    rw [setPrice_eq (by rw [hcell]; exact hadd sink hsink hscan), hsame, hcell, if_pos hholds,
      ← hcell, update_eq_self]
  rw [updateNodePrices, hfold, Option.bind_eq_bind, Option.bind_some, hpriced]
  exact hagain

theorem updateNodePrices_eq_none {sink : Option (Fin N)} (hv : ¬ Lowerable C n s minDist) :
    s.updateNodePrices C hn minDist sink = none := by
  have hfold : (indices hn).foldlM (updatePrice C minDist) s = none := by
    refine foldlM_eq_none (fun before s' => s' = partly before s minDist)
      (fun x => ¬ (s.scanned x = true ∧ C.holds (s.v x + s.dist x - minDist) = false))
      (by simp [partly]) ?_ ?_ ?_
    · intro before x after s' hxs hs' hgood
      subst hs'
      exact ⟨_, by rw [partly_step hadd hxs, if_neg hgood], rfl⟩
    · intro before x after s' hxs hs' hbad
      subst hs'
      rw [partly_step hadd hxs, if_pos (not_not.1 hbad)]
    · simp only [Lowerable, not_forall, Bool.not_eq_true] at hv
      obtain ⟨j, hj, hscan, hholds⟩ := hv
      exact ⟨j, mem_indices.2 hj, not_not.2 ⟨hscan, hholds⟩⟩
  rw [updateNodePrices, hfold]
  rfl

end UpdateNodePrices

/-! ## Prices and distances -/

/-- A bound of the costs, and what the cost type holds of the values that come of them.  Below
zero that is the values from `floor` on. -/
structure Bounds (C : CostType) (n : Nat) (cost : Fin N → Fin N → Int) (cmax floor : Int) : Prop
    where
  entry : ∀ i j : Fin N, i.val < n → j.val < n → 0 ≤ cost i j ∧ cost i j ≤ cmax
  floor_le : floor ≤ 0
  holds : ∀ x, 0 ≤ x → x ≤ 2 * cmax - floor → C.holds x = true
  holds_low : ∀ x, floor ≤ x → x ≤ cmax → C.holds x = true
  sentinel : cmax < C.MAX

/-- The arrays name each other's entries, and no price is above a cost. -/
structure Prices (n : Nat) (cost : Fin N → Fin N → Int) (floor : Int) (s : JonkerVolgenant N) :
    Prop where
  pairing : Pairing (fun i => i.val < n) s.nodeForTask s.taskForNode
  le_cost : ∀ i j : Fin N, i.val < n → j.val < n → s.v j ≤ cost i j
  free : ∀ j : Fin N, j.val < n → s.taskForNode j = none → 0 ≤ s.v j
  price : ∀ j : Fin N, j.val < n → floor ≤ s.v j

def scannedCount (n : Nat) (s : JonkerVolgenant N) : Nat :=
  (Finset.univ.filter fun j : Fin N => j.val < n ∧ s.scanned j = true).card

/-- The distances of a search that has scanned the nodes up to `minDist`. -/
structure Distances (n : Nat) (cost : Fin N → Fin N → Int) (source : Fin N)
    (s : JonkerVolgenant N) (minDist : Int) : Prop where
  near : ∀ j : Fin N, j.val < n → s.scanned j = true → s.dist j ≤ minDist
  far : ∀ j : Fin N, j.val < n → s.scanned j = false → minDist ≤ s.dist j
  nonneg : ∀ j : Fin N, j.val < n → 0 ≤ s.dist j
  source_le : ∀ j : Fin N, j.val < n → s.dist j ≤ red cost s source j
  tree : ∃ rank : Fin N → Nat,
    (∀ j : Fin N, j.val < n → s.scanned j = true → rank j < scannedCount n s) ∧
      ∀ j : Fin N, j.val < n → ∃ t, s.predTask j = some t ∧
        (t = source ∧ s.dist j = red cost s source j ∨ ∃ y : Fin N, y.val < n ∧
          s.scanned y = true ∧ (s.scanned j = true → rank y < rank j) ∧
          s.taskForNode y = some t ∧ s.dist j = s.dist y + red cost s t j)

/-- No way over a scanned node is shorter than recorded. -/
def Ways (n : Nat) (cost : Fin N → Fin N → Int) (s : JonkerVolgenant N) : Prop :=
  ∀ y t j : Fin N, y.val < n → j.val < n → s.scanned y = true → s.taskForNode y = some t →
    s.dist j ≤ s.dist y + red cost s t j

/-- The state at the head of every turn of a search. -/
structure Scanning (n : Nat) (cost : Fin N → Fin N → Int) (floor : Int) (source : Fin N)
    (s : JonkerVolgenant N) (minDist : Int) : Prop extends Prices n cost floor s,
      Distances n cost source s minDist where
  source_lt : source.val < n
  unmatched : s.nodeForTask source = none
  ways : Ways n cost s
  scanned : ∀ j : Fin N, j.val < n → s.scanned j = true → s.taskForNode j ≠ none

variable {cmax floor minDist : Int} {source : Fin N}

theorem Prices.red_nonneg (h : Prices n cost floor s) {i j : Fin N} (hi : i.val < n)
    (hj : j.val < n) : 0 ≤ red cost s i j := by
  have := h.le_cost i j hi hj
  rw [red]
  omega

theorem Prices.red_holds (h : Prices n cost floor s) (hb : Bounds C n cost cmax floor)
    {i j : Fin N} (hi : i.val < n) (hj : j.val < n) :
    red cost s i j ≤ cmax - floor ∧ C.holds (red cost s i j) = true := by
  have h₁ := h.red_nonneg hi hj
  have h₂ := h.price j hj
  have h₃ := hb.entry i j hi hj
  have hle : red cost s i j ≤ cmax - floor := by
    rw [red]
    omega
  exact ⟨hle, hb.holds _ h₁ (by omega)⟩

theorem Scanning.free_not_scanned (h : Scanning n cost floor source s minDist) {f : Fin N}
    (hf : f.val < n) (hfree : s.taskForNode f = none) : s.scanned f = false := by
  cases hscan : s.scanned f with
  | false => rfl
  | true => exact absurd hfree (h.scanned f hf hscan)

theorem Scanning.exists_least (h : Scanning n cost floor source s minDist)
    (hb : Bounds C n cost cmax floor) (hn : n ≤ N) :
    ∃ node, s.findMinUnscannedNode C hn = some (s.dist node, node) ∧ node.val < n ∧
      s.scanned node = false ∧ s.dist node ≤ cmax ∧
      ∀ j : Fin N, j.val < n → s.scanned j = false → s.dist node ≤ s.dist j := by
  obtain ⟨hle, hbest, hnone⟩ := findMin_spec C hn s.scanned s.dist
  obtain ⟨f, hf, hfree⟩ :=
    h.pairing.exists_free (Fin.castLEEmb hn) (inUse_iff hn) h.source_lt h.unmatched
  have hscan := h.free_not_scanned hf hfree
  have hnear : s.dist f ≤ cmax := by
    have h₁ := h.source_le f hf
    have h₂ := h.free f hf hfree
    have h₃ := hb.entry source f h.source_lt hf
    rw [red] at h₁
    omega
  have hleast := hle f hf hscan
  cases hfound : (findMin C hn s.scanned s.dist).2 with
  | none =>
    have := hb.sentinel
    rw [hnone hfound] at hleast
    omega
  | some node =>
    obtain ⟨hnode, hscan', hdist⟩ := hbest node hfound
    refine ⟨node, ?_, hnode, hscan', by omega, fun j hj hj' => by
      rw [hdist]
      exact hle j hj hj'⟩
    simp only [findMinUnscannedNode, hfound, Option.map_some, hdist]

def mark (s : JonkerVolgenant N) (node : Fin N) : JonkerVolgenant N :=
  { s with scanned := update s.scanned node true }

theorem scannedCount_mark {node : Fin N} (hnode : node.val < n) (hscan : s.scanned node = false) :
    scannedCount n (mark s node) = scannedCount n s + 1 := by
  have hset : (Finset.univ.filter fun j : Fin N => j.val < n ∧ (mark s node).scanned j = true) =
      insert node (Finset.univ.filter fun j : Fin N => j.val < n ∧ s.scanned j = true) := by
    ext j
    rw [Finset.mem_insert, Finset.mem_filter, Finset.mem_filter]
    by_cases hj : j = node
    · subst hj
      simp [mark, hnode]
    · simp [mark, hj]
  rw [scannedCount, hset, Finset.card_insert_of_notMem (by simp [hscan]), scannedCount]

theorem scannedCount_le (hn : n ≤ N) (s : JonkerVolgenant N) : scannedCount n s ≤ n := by
  have hsub : (Finset.univ.filter fun j : Fin N => j.val < n ∧ s.scanned j = true) ⊆
      Finset.univ.map (Fin.castLEEmb hn) := fun j hj =>
    Finset.mem_map.2 ⟨⟨j, (Finset.mem_filter.1 hj).2.1⟩, Finset.mem_univ _, rfl⟩
  have := Finset.card_le_card hsub
  rwa [Finset.card_map, Finset.card_univ, Fintype.card_fin] at this

theorem Scanning.scannedCount_lt (h : Scanning n cost floor source s minDist) (hn : n ≤ N) :
    scannedCount n s < n := by
  obtain ⟨f, hf, hfree⟩ :=
    h.pairing.exists_free (Fin.castLEEmb hn) (inUse_iff hn) h.source_lt h.unmatched
  have hcount := scannedCount_mark hf (h.free_not_scanned hf hfree)
  have hle := scannedCount_le hn (mark s f)
  omega

theorem scanned_mark {node j : Fin N} :
    (mark s node).scanned j = true ↔ j = node ∨ s.scanned j = true := by
  by_cases hj : j = node <;> simp [mark, hj]

theorem Distances.after_mark (h : Distances n cost source s minDist) {node : Fin N}
    (hnode : node.val < n) (hscan : s.scanned node = false)
    (hleast : ∀ j : Fin N, j.val < n → s.scanned j = false → s.dist node ≤ s.dist j) :
    Distances n cost source (mark s node) (s.dist node) where
  near j hj hscanj := by
    rcases scanned_mark.1 hscanj with rfl | hold
    · exact Int.le_refl _
    · exact Int.le_trans (h.near j hj hold) (h.far node hnode hscan)
  far j hj hscanj := by
    rw [← Bool.not_eq_true, scanned_mark, not_or, Bool.not_eq_true] at hscanj
    exact hleast j hj hscanj.2
  nonneg := h.nonneg
  source_le := h.source_le
  tree := by
    obtain ⟨rank, hrank, hback⟩ := h.tree
    have hother : ∀ y : Fin N, s.scanned y = true → y ≠ node := fun y hy heq => by
      rw [heq, hscan] at hy
      cases hy
    refine ⟨update rank node (scannedCount n s), fun j hj hscanj => ?_, fun j hj => ?_⟩
    · rw [scannedCount_mark hnode hscan]
      rcases scanned_mark.1 hscanj with rfl | hold
      · rw [update_self]
        exact Nat.lt_succ_self _
      · rw [update_of_ne (hother j hold)]
        exact Nat.lt_succ_of_lt (hrank j hj hold)
    · obtain ⟨t, hpred, hway⟩ := hback j hj
      refine ⟨t, hpred, hway.imp_right fun ⟨y, hy, hyscan, hless, hyt, hdist⟩ =>
        ⟨y, hy, scanned_mark.2 (Or.inr hyscan), fun hscanj => ?_, hyt, hdist⟩⟩
      rw [update_of_ne (hother y hyscan)]
      rcases scanned_mark.1 hscanj with rfl | hold
      · rw [update_self]
        exact hrank y hy hyscan
      · rw [update_of_ne (hother j hold)]
        exact hless hold

theorem relaxed_dist_le (s : JonkerVolgenant N) (t : Fin N) (d : Int) {j : Fin N} :
    (relaxed n cost s t d).dist j ≤ s.dist j := by
  simp only [relaxed]
  split <;> omega

theorem relaxed_dist_scanned {t j : Fin N} {d : Int} (hscan : s.scanned j = true) :
    (relaxed n cost s t d).dist j = s.dist j := by
  simp [relaxed, hscan]

section Relax

variable {y t : Fin N} (h : Distances n cost source s minDist) (hy : y.val < n)
  (hscan : s.scanned y = true) (hdist : s.dist y = minDist) (ht : s.taskForNode y = some t)
  (hred : ∀ j : Fin N, j.val < n → 0 ≤ red cost s t j)
include h hy hscan hdist hred

theorem Distances.ways_relax
    (hways : ∀ z t' j : Fin N, z ≠ y → z.val < n → j.val < n → s.scanned z = true →
      s.taskForNode z = some t' → s.dist j ≤ s.dist z + red cost s t' j)
    (ht : s.taskForNode y = some t) : Ways n cost (relaxed n cost s t minDist) := by
  intro z t' j hz hj hzscan hzt
  have hzscan : s.scanned z = true := hzscan
  change _ ≤ _ + red cost s t' j
  rw [relaxed_dist_scanned hzscan]
  by_cases hzy : z = y
  · subst hzy
    have htt : t' = t := Option.some.inj (hzt.symm.trans ht)
    rw [htt, hdist]
    have hnonneg := hred j hj
    cases hscanj : s.scanned j with
    | true =>
      have := h.near j hj hscanj
      rw [relaxed_dist_scanned hscanj]
      omega
    | false =>
      simp only [relaxed, hj, hscanj, true_and]
      split <;> omega
  · exact Int.le_trans (relaxed_dist_le s t minDist) (hways z t' j hzy hz hj hzscan hzt)

include ht

theorem Distances.after_relax : Distances n cost source (relaxed n cost s t minDist) minDist where
  near j hj hscanj := Int.le_trans (relaxed_dist_le s t minDist) (h.near j hj hscanj)
  far j hj hscanj := by
    have h₁ := h.far j hj hscanj
    have h₂ := hred j hj
    simp only [relaxed]
    split <;> omega
  nonneg j hj := by
    have h₁ := h.nonneg j hj
    have h₂ := hred j hj
    have h₃ := h.nonneg y hy
    simp only [relaxed]
    split <;> omega
  source_le j hj := Int.le_trans (relaxed_dist_le s t minDist) (h.source_le j hj)
  tree := by
    obtain ⟨rank, hrank, hback⟩ := h.tree
    refine ⟨rank, hrank, fun j hj => ?_⟩
    by_cases hless : j.val < n ∧ s.scanned j = false ∧ minDist + red cost s t j < s.dist j
    · refine ⟨t, if_pos hless, Or.inr ⟨y, hy, hscan, fun hscanj => ?_, ht, ?_⟩⟩
      · have := hless.2.1
        rw [show s.scanned j = true from hscanj] at this
        cases this
      · rw [relaxed_dist_scanned hscan, hdist]
        exact if_pos hless
    · have hkeep : (relaxed n cost s t minDist).dist j = s.dist j := if_neg hless
      obtain ⟨t', hpred, hway⟩ := hback j hj
      refine ⟨t', (if_neg hless).trans hpred, ?_⟩
      rw [hkeep]
      refine hway.imp_right fun ⟨z, hz, hzscan, hlt, hzt, hzd⟩ => ⟨z, hz, hzscan, hlt, hzt, ?_⟩
      rw [relaxed_dist_scanned hzscan]
      exact hzd

end Relax

/-! ## The loop of a search -/

/-- A search that has found a node without a task. -/
structure Found (n : Nat) (cost : Fin N → Fin N → Int) (cmax floor : Int) (source : Fin N)
    (r : Search N) (sink : Fin N) : Prop extends Prices n cost floor r.solver,
      Distances n cost source r.solver r.minDist where
  source_lt : source.val < n
  unmatched : r.solver.nodeForTask source = none
  sink_eq : r.sink = some sink
  sink_lt : sink.val < n
  sink_free : r.solver.taskForNode sink = none
  sink_scanned : r.solver.scanned sink = true
  sink_dist : r.solver.dist sink = r.minDist
  scanned : ∀ j : Fin N, j.val < n → r.solver.scanned j = true → j ≠ sink →
    r.solver.taskForNode j ≠ none
  ways : Ways n cost r.solver
  minDist_le : r.minDist ≤ cmax

/-- A search changes neither prices nor pairs. -/
def SameBase (s s' : JonkerVolgenant N) : Prop :=
  s'.v = s.v ∧ s'.nodeForTask = s.nodeForTask ∧ s'.taskForNode = s.taskForNode

theorem Scanning.turn_eq (h : Scanning n cost floor source s minDist)
    (hb : Bounds C n cost cmax floor) {node : Fin N}
    (hfind : s.findMinUnscannedNode C hn = some (s.dist node, node)) (hnode : node.val < n)
    (hnear : s.dist node ≤ cmax) :
    turn C hn cost ⟨s, minDist, none⟩ =
      match s.taskForNode node with
      | none => some (.done ⟨mark s node, s.dist node, some node⟩)
      | some t => some (.again
          ⟨relaxed n cost (mark s node) t (s.dist node), s.dist node, none⟩) := by
  simp only [turn, hfind]
  cases ht : s.taskForNode node with
  | none => rfl
  | some t =>
    have htn : t.val < n := (h.pairing.task t node hnode id ht).1
    have hrelax : (mark s node).relaxEdgesFromTask C hn cost t (s.dist node) =
        some (relaxed n cost (mark s node) t (s.dist node)) := by
      refine relaxEdgesFromTask_eq (fun j hj => (h.red_holds hb htn hj).2) fun j hj => ?_
      have h₁ := (h.red_holds hb htn hj).1
      have h₂ := h.red_nonneg htn hj
      have h₃ := h.nonneg node hnode
      exact hb.holds (s.dist node + red cost s t j) (by omega) (by omega)
    change ((mark s node).relaxEdgesFromTask C hn cost t (s.dist node)).bind _ = _
    rw [hrelax]
    rfl

theorem Scanning.turn_spec (h : Scanning n cost floor source s minDist)
    (hb : Bounds C n cost cmax floor) (hn : n ≤ N) :
    (∃ r sink, turn C hn cost ⟨s, minDist, none⟩ = some (.done r) ∧
        Found n cost cmax floor source r sink ∧ SameBase s r.solver) ∨
      ∃ s' d, turn C hn cost ⟨s, minDist, none⟩ = some (.again ⟨s', d, none⟩) ∧
        Scanning n cost floor source s' d ∧ SameBase s s' ∧
        scannedCount n s' = scannedCount n s + 1 := by
  obtain ⟨node, hfind, hnode, hscan, hnear, hleast⟩ := h.exists_least hb hn
  have hturn := h.turn_eq hb hfind hnode hnear
  have hprices : Prices n cost floor (mark s node) := ⟨h.pairing, h.le_cost, h.free, h.price⟩
  have hdist := h.after_mark hnode hscan hleast
  have hways : ∀ z t j : Fin N, z ≠ node → z.val < n → j.val < n →
      (mark s node).scanned z = true → (mark s node).taskForNode z = some t →
      (mark s node).dist j ≤ (mark s node).dist z + red cost (mark s node) t j :=
    fun z t j hz hzn hj hzscan hzt =>
      h.ways z t j hzn hj ((scanned_mark.1 hzscan).resolve_left hz) hzt
  cases ht : s.taskForNode node with
  | none =>
    refine Or.inl ⟨⟨mark s node, s.dist node, some node⟩, node, by rw [hturn, ht],
      ⟨hprices, hdist, h.source_lt, h.unmatched, rfl, hnode, ht, scanned_mark.2 (Or.inl rfl), rfl,
        fun j hj hscanj hne => h.scanned j hj ((scanned_mark.1 hscanj).resolve_left hne),
        fun z t j hzn hj hzscan hzt => hways z t j ?_ hzn hj hzscan hzt, hnear⟩, rfl, rfl, rfl⟩
    intro heq
    rw [heq, show (mark s node).taskForNode node = none from ht] at hzt
    cases hzt
  | some t =>
    have htn : t.val < n := (h.pairing.task t node hnode id ht).1
    have hred : ∀ j : Fin N, j.val < n → 0 ≤ red cost (mark s node) t j :=
      fun j hj => h.red_nonneg htn hj
    have hself : (mark s node).scanned node = true := scanned_mark.2 (Or.inl rfl)
    have hnext := hdist.after_relax hnode hself rfl ht hred
    refine Or.inr ⟨relaxed n cost (mark s node) t (s.dist node), s.dist node, by rw [hturn, ht],
      ⟨⟨hprices.pairing, hprices.le_cost, hprices.free, hprices.price⟩,
        ⟨hnext.near, hnext.far, hnext.nonneg, hnext.source_le, hnext.tree⟩, h.source_lt,
        h.unmatched, hdist.ways_relax hnode hself rfl hred hways ht, fun j hj hscanj => ?_⟩,
      ⟨rfl, rfl, rfl⟩, scannedCount_mark hnode hscan⟩
    rcases scanned_mark.1 hscanj with rfl | hold
    · change s.taskForNode j ≠ none
      rw [ht]
      exact Option.some_ne_none t
    · exact h.scanned j hj hold

theorem Prices.begun_spec (h : Prices n cost floor s) (hsource : source.val < n)
    (hun : s.nodeForTask source = none) :
    Scanning n cost floor source (begun n cost s source) 0 where
  pairing := h.pairing
  le_cost := h.le_cost
  free := h.free
  price := h.price
  source_lt := hsource
  unmatched := hun
  near j hj hscan := by simp [begun, hj] at hscan
  far j hj _ := by simpa [begun, hj] using h.red_nonneg hsource hj
  nonneg j hj := by simpa [begun, hj] using h.red_nonneg hsource hj
  source_le j hj := by
    simp only [begun, hj, if_true]
    exact Int.le_refl _
  tree := by
    refine ⟨fun _ => 0, fun j hj hscan => ?_, fun j hj => ⟨source, ?_, Or.inl ⟨rfl, ?_⟩⟩⟩
    · simp [begun, hj] at hscan
    · simp [begun, hj]
    · simp only [begun, hj, if_true]
      rfl
  ways y t j hy hj hscan := by simp [begun, hy] at hscan
  scanned j hj hscan := by simp [begun, hj] at hscan

theorem Prices.scan_spec (h : Prices n cost floor s) (hb : Bounds C n cost cmax floor)
    (hn : n ≤ N) (hsource : source.val < n) (hun : s.nodeForTask source = none) {fuel : Nat}
    (hfuel : n ≤ fuel) :
    ∃ r sink, s.scan C hn cost fuel source = some r ∧ Found n cost cmax floor source r sink ∧
      SameBase s r.solver := by
  have hbegin : s.beginSearch C hn cost source = some (begun n cost s source) :=
    beginSearch_eq fun j hj => (h.red_holds hb hsource hj).2
  have hturn : ∀ a : Search N,
      a.sink = none ∧ Scanning n cost floor source a.solver a.minDist ∧ SameBase s a.solver →
      (∃ r, turn C hn cost a = some (.done r) ∧
          ∃ sink, Found n cost cmax floor source r sink ∧ SameBase s r.solver) ∨
        ∃ b, turn C hn cost a = some (.again b) ∧
          (b.sink = none ∧ Scanning n cost floor source b.solver b.minDist ∧
            SameBase s b.solver) ∧
          n - 1 - scannedCount n b.solver < n - 1 - scannedCount n a.solver := by
    intro ⟨a, d, sink⟩ ⟨hsink, ha, hbase⟩
    dsimp only at hsink ha hbase
    subst hsink
    rcases ha.turn_spec hb hn with
      ⟨r, node, hturn, hfound, hsame⟩ | ⟨b, d', hturn, hscanning, hsame, hcount⟩
    · exact Or.inl ⟨r, hturn, node, hfound, hsame.1.trans hbase.1, hsame.2.1.trans hbase.2.1,
        hsame.2.2.trans hbase.2.2⟩
    · have hlt := hscanning.scannedCount_lt hn
      exact Or.inr ⟨⟨b, d', none⟩, hturn, ⟨rfl, hscanning, hsame.1.trans hbase.1,
        hsame.2.1.trans hbase.2.1, hsame.2.2.trans hbase.2.2⟩, by dsimp only; omega⟩
  have hleft : n - 1 - scannedCount n (Search.mk (begun n cost s source) 0 none).solver < fuel := by
    have := (h.begun_spec hsource hun).scannedCount_lt hn
    dsimp only
    omega
  obtain ⟨r, hloop, sink, hfound, hbase⟩ := loop_of_throughout _ _ (fun _ => True)
    (fun a : Search N => n - 1 - scannedCount n a.solver) _ (fun a ha _ => hturn a ha)
    ⟨rfl, h.begun_spec hsource hun, rfl, rfl, rfl⟩ hleft
    (throughout_of_inv (fun _ => True) (fun _ _ => trivial) (fun _ _ _ _ => trivial) _ trivial)
  exact ⟨r, sink, by rw [scan, hbegin]; exact hloop, hfound, hbase⟩

/-! ## Prices and pairs after a search -/

/-- No price comes down below the floor after a search. -/
def PricesHold (n : Nat) (floor : Int) (r : Search N) : Prop :=
  ∀ j : Fin N, j.val < n → r.solver.scanned j = true →
    floor ≤ r.solver.v j + r.solver.dist j - r.minDist

/-- What the end of a search leaves. -/
structure Ended (n : Nat) (cost : Fin N → Fin N → Int) (floor : Int) (fuel : Nat)
    (source sink : Fin N) (r : Search N) (s' : JonkerVolgenant N) : Prop extends
      Prices n cost floor s' where
  prices : s'.v = (priced n r.solver r.minDist).v
  augmented : ∃ s'', r.solver.augmentFromSink fuel sink source = some s'' ∧
    s''.nodeForTask = s'.nodeForTask
  old : ∀ i j, s'.nodeForTask i = some j → r.solver.nodeForTask i = some j ∨
    (j.val < n ∧ r.solver.scanned j = true) ∧ r.solver.predTask j = some i
  none_iff : ∀ i, s'.nodeForTask i = none ↔ r.solver.nodeForTask i = none ∧ i ≠ source
  task : ∀ j, s'.taskForNode j = none → r.solver.taskForNode j = none
  sink_task : s'.taskForNode sink ≠ none

variable {r : Search N} {sink : Fin N}

theorem Found.sum_holds (h : Found n cost cmax floor source r sink)
    (hb : Bounds C n cost cmax floor) {j : Fin N} (hj : j.val < n) :
    C.holds (r.solver.v j + r.solver.dist j) = true ∧
      r.solver.v j + r.solver.dist j - r.minDist ≤ cmax := by
  have h₁ := h.source_le j hj
  have h₂ := h.nonneg j hj
  have h₃ := h.price j hj
  have h₄ := hb.entry source j h.source_lt hj
  have h₅ := h.nonneg sink h.sink_lt
  have h₆ := h.sink_dist
  rw [red] at h₁
  exact ⟨hb.holds_low _ (by omega) (by omega), by omega⟩

theorem Found.priced_spec (h : Found n cost cmax floor source r sink)
    (hprice : PricesHold n floor r) : Prices n cost floor (priced n r.solver r.minDist) where
  pairing := h.pairing
  le_cost i j hi hj := by
    have h₁ := h.le_cost i j hi hj
    simp only [priced, hj, true_and]
    split
    · have := h.near j hj ‹_›
      omega
    · exact h₁
  free j hj hfree := by
    have h₁ := h.free j hj hfree
    have h₂ := h.sink_dist
    simp only [priced, hj, true_and]
    split
    · have hsink : j = sink := by
        by_contra hne
        exact h.scanned j hj ‹_› hne hfree
      rw [hsink] at h₁ ⊢
      omega
    · exact h₁
  price j hj := by
    have h₁ := h.price j hj
    simp only [priced, hj, true_and]
    split
    · exact hprice j hj ‹_›
    · exact h₁

theorem Found.ended (h : Found n cost cmax floor source r sink) (hn : n ≤ N) {fuel : Nat}
    (hfuel : n ≤ fuel) (hprice : PricesHold n floor r) :
    ∃ s', (priced n r.solver r.minDist).augmentFromSink fuel sink source = some s' ∧
      Ended n cost floor fuel source sink r s' := by
  obtain ⟨rank, hrank, hback⟩ := h.tree
  have htree : Tree (fun i => i.val < n)
      (fun j => j.val < n ∧ r.solver.scanned j = true) r.solver.predTask source rank
      r.solver.taskForNode := by
    refine ⟨fun j hj => hj.1, fun j ⟨hj, hscan⟩ => ?_⟩
    obtain ⟨t, hpred, hway⟩ := hback j hj
    refine ⟨t, hpred, hway.imp And.left fun ⟨y, hy, hyscan, hless, hyt, _⟩ =>
      ⟨y, ⟨hy, hyscan⟩, hless hscan, hyt⟩⟩
  have hpairing : PairingBut (fun i => i.val < n) (· = sink) r.solver.nodeForTask
      r.solver.taskForNode := by
    refine ⟨fun i j hi hij => ?_, fun i j hj _ => h.pairing.task i j hj id⟩
    obtain ⟨hj, -, hji⟩ := h.pairing.node i j hi hij
    refine ⟨hj, fun heq => ?_, hji⟩
    rw [heq, h.sink_free] at hji
    cases hji
  have hfuel' : rank sink < fuel :=
    Nat.lt_of_lt_of_le (hrank sink h.sink_lt h.sink_scanned)
      (Nat.le_trans (scannedCount_le hn r.solver) hfuel)
  obtain ⟨nodeFor, taskFor, hflip, hspec⟩ := flip_spec htree h.source_lt h.unmatched
    ⟨h.sink_lt, h.sink_scanned⟩ hpairing hfuel'
  have hp := h.priced_spec hprice
  refine ⟨{ priced n r.solver r.minDist with nodeForTask := nodeFor, taskForNode := taskFor }, ?_,
    ⟨hspec.pairing, hp.le_cost, fun j hj hj' => hp.free j hj (hspec.task j hj'), hp.price⟩, rfl,
    ⟨{ r.solver with nodeForTask := nodeFor, taskForNode := taskFor }, ?_, rfl⟩,
    hspec.old, hspec.none_iff, hspec.task, hspec.sink⟩
  · rw [augmentFromSink]
    simp only [show (priced n r.solver r.minDist).nodeForTask = r.solver.nodeForTask from rfl,
      show (priced n r.solver r.minDist).taskForNode = r.solver.taskForNode from rfl,
      show (priced n r.solver r.minDist).predTask = r.solver.predTask from rfl, hflip]
    rfl
  · rw [augmentFromSink, hflip]
    rfl

theorem Found.search_eq {fuel : Nat} (h : Found n cost cmax floor source r sink)
    (hb : Bounds C n cost cmax floor) (hscan : s.scan C hn cost fuel source = some r)
    (hprice : PricesHold n floor r) :
    s.search C hn cost fuel source =
      (priced n r.solver r.minDist).augmentFromSink fuel sink source := by
  have hupdate : r.solver.updateNodePrices C hn r.minDist (some sink) =
      some (priced n r.solver r.minDist) :=
    updateNodePrices_eq (fun j hj _ => (h.sum_holds hb hj).1) h.sink_lt h.sink_scanned h.sink_dist
      fun j hj hscan => hb.holds_low _ (hprice j hj hscan) (h.sum_holds hb hj).2
  rw [search, hscan, Option.bind_eq_bind, Option.bind_some, h.sink_eq, hupdate]
  rfl

theorem Found.search_eq_none {fuel : Nat} (h : Found n cost cmax floor source r sink)
    (hb : Bounds C n cost cmax floor) (hfloor : ∀ x, x < floor → C.holds x = false)
    (hscan : s.scan C hn cost fuel source = some r) (hprice : ¬ PricesHold n floor r) :
    s.search C hn cost fuel source = none := by
  have hlower : ¬ Lowerable C n r.solver r.minDist := fun hlower => hprice fun j hj hscan => by
    by_contra hlt
    have := hlower j hj hscan
    rw [hfloor _ (by omega)] at this
    cases this
  rw [search, hscan, Option.bind_eq_bind, Option.bind_some,
    updateNodePrices_eq_none (fun j hj _ => (h.sum_holds hb hj).1) hlower]
  rfl

/-! ## How far prices come down -/

def placed (hn : n ≤ N) (s : JonkerVolgenant N) (k : Fin n) : Bool :=
  (s.nodeForTask (k.castLE hn)).isSome

/-- The prices have come down by no more than the tasks that have a node cost in some assignment
to nodes that have a task. -/
def Dropped (hn : n ≤ N) (cost : Fin N → Fin N → Int) (s : JonkerVolgenant N) : Prop :=
  ∃ σ : Equiv.Perm (Fin n),
    (∀ k, placed hn s k = true → s.taskForNode ((σ k).castLE hn) ≠ none) ∧
      ∀ j : Fin N, j.val < n → -spent (corner hn cost) (placed hn s) σ ≤ s.v j

theorem Dropped.next (h : Dropped hn cost s) (hsame : SameBase s r.solver)
    (hfound : Found n cost cmax floor source r sink) :
    ∃ σ : Equiv.Perm (Fin n),
      (∀ k, update (placed hn s) ⟨source, hfound.source_lt⟩ true k = true →
        s.taskForNode ((σ k).castLE hn) ≠ none ∨ (σ k).castLE hn = sink) ∧
      ∀ j : Fin N, j.val < n →
        -spent (corner hn cost) (update (placed hn s) ⟨source, hfound.source_lt⟩ true) σ ≤
          r.solver.v j + min (r.solver.dist j) r.minDist - r.minDist := by
  obtain ⟨σ, hmatched, hlow⟩ := h
  obtain ⟨hv, hnode, htask⟩ := hsame
  have hsource : placed hn s ⟨source, hfound.source_lt⟩ = false := by
    have := hfound.unmatched
    rw [hnode] at this
    simp [placed, this]
  have hsink : (σ (σ.symm ⟨sink, hfound.sink_lt⟩)).castLE hn = sink := by
    rw [Equiv.apply_symm_apply]
    rfl
  have hfree : placed hn s (σ.symm ⟨sink, hfound.sink_lt⟩) = false := by
    by_contra hplaced
    refine hmatched _ (by simpa using hplaced) ?_
    rw [hsink, ← htask]
    exact hfound.sink_free
  refine ⟨(Equiv.swap ⟨source, hfound.source_lt⟩ (σ.symm ⟨sink, hfound.sink_lt⟩)).trans σ,
    fun k hk => ?_, fun j hj => ?_⟩
  · by_cases hks : k = ⟨source, hfound.source_lt⟩
    · right
      rw [hks, Equiv.trans_apply, Equiv.swap_apply_left]
      exact hsink
    · left
      rw [update_of_ne hks] at hk
      have hkf : k ≠ σ.symm ⟨sink, hfound.sink_lt⟩ := fun heq => by
        rw [heq, hfree] at hk
        cases hk
      rw [Equiv.trans_apply, Equiv.swap_apply_of_ne_of_ne hks hkf]
      exact hmatched k hk
  · have hspent := spent_swap (corner hn cost) hsource hfree σ
    have h₁ := hlow j hj
    have h₂ := hfound.nonneg j hj
    have h₃ := hfound.sink_dist
    have h₄ := hfound.source_le sink hfound.sink_lt
    have h₅ := hfound.free sink hfound.sink_lt hfound.sink_free
    have h₆ := hfound.nonneg sink hfound.sink_lt
    have hc : corner hn cost ⟨source, hfound.source_lt⟩
        (σ (σ.symm ⟨sink, hfound.sink_lt⟩)) = cost source sink := by
      rw [Equiv.apply_symm_apply]
      rfl
    rw [hspent, hc, hv]
    rw [red] at h₄
    omega

theorem Found.priced_v (h : Found n cost cmax floor source r sink) {j : Fin N} (hj : j.val < n) :
    (priced n r.solver r.minDist).v j =
      r.solver.v j + min (r.solver.dist j) r.minDist - r.minDist := by
  simp only [priced, hj, true_and]
  cases hscan : r.solver.scanned j with
  | true =>
    have := h.near j hj hscan
    rw [if_pos rfl]
    omega
  | false =>
    have := h.far j hj hscan
    rw [if_neg (by simp)]
    omega

theorem Dropped.pricesHold {bound : Int} (h : Dropped hn cost s) (hsame : SameBase s r.solver)
    (hfound : Found n cost cmax (-bound) source r sink)
    (hcost : ∀ i j : Fin n, 0 ≤ corner hn cost i j)
    (htotal : ∀ σ, total (corner hn cost) σ ≤ bound) : PricesHold n (-bound) r := by
  obtain ⟨σ, -, hlow⟩ := h.next hsame hfound
  intro j hj hscan
  have h₁ := hlow j hj
  have h₂ := hfound.near j hj hscan
  have h₃ := spent_le_total hcost (update (placed hn s) ⟨source, hfound.source_lt⟩ true) σ
  have h₄ := htotal σ
  omega

theorem Dropped.ended {fuel : Nat} {s' : JonkerVolgenant N} (h : Dropped hn cost s)
    (hsame : SameBase s r.solver) (hfound : Found n cost cmax floor source r sink)
    (hend : Ended n cost floor fuel source sink r s') : Dropped hn cost s' := by
  obtain ⟨σ, hmatched, hlow⟩ := h.next hsame hfound
  have hplaced : placed hn s' = update (placed hn s) ⟨source, hfound.source_lt⟩ true := by
    funext k
    have hnone := hend.none_iff (k.castLE hn)
    rw [hsame.2.1] at hnone
    by_cases hks : k = ⟨source, hfound.source_lt⟩
    · have hk : k.castLE hn = source := congrArg (Fin.castLE hn) hks
      rw [hks, update_self, placed, ← hks, Option.isSome_iff_ne_none, ne_eq, hnone]
      exact fun h => h.2 hk
    · have hne : k.castLE hn ≠ source := fun heq =>
        hks (Fin.ext (by simpa using congrArg Fin.val heq))
      rw [update_of_ne hks, placed, placed, Bool.eq_iff_iff, Option.isSome_iff_ne_none,
        Option.isSome_iff_ne_none, ne_eq, ne_eq, hnone, and_iff_left hne]
  refine ⟨σ, fun k hk => ?_, fun j hj => ?_⟩
  · rw [hplaced] at hk
    rcases hmatched k hk with hold | hnew
    · refine fun h => hold ?_
      rw [← hsame.2.2]
      exact hend.task _ h
    · rw [hnew]
      exact hend.sink_task
  · rw [hplaced, hend.prices, hfound.priced_v hj]
    exact hlow j hj

/-! ## Least reduced costs -/

/-- Every task that has a node has one of its least reduced costs there. -/
def RowMinimal (n : Nat) (cost : Fin N → Fin N → Int) (s : JonkerVolgenant N) : Prop :=
  ∀ t x j : Fin N, t.val < n → j.val < n → s.nodeForTask t = some x →
    red cost s t x ≤ red cost s t j

/-- At the end of a search: a scanned node that keeps its task gives no node a way that is
shorter than recorded, also when the reduced cost of the matched pair is taken off that way. -/
def Short (n : Nat) (cost : Fin N → Fin N → Int) (fuel : Nat) (source : Fin N) (r : Search N) :
    Prop :=
  ∀ sink s', r.sink = some sink → r.solver.augmentFromSink fuel sink source = some s' →
    ∀ t y j : Fin N, t.val < n → j.val < n → r.solver.scanned y = true →
      r.solver.nodeForTask t = some y → s'.nodeForTask t = some y →
      min (r.solver.dist j) r.minDist ≤
        r.solver.dist y + red cost r.solver t j - red cost r.solver t y

instance (n : Nat) (cost : Fin N → Fin N → Int) (fuel : Nat) (source : Fin N) (r : Search N) :
    Decidable (Short n cost fuel source r) :=
  decidable_of_iff (∀ sink ∈ r.sink, ∀ s' ∈ r.solver.augmentFromSink fuel sink source,
      ∀ t y j : Fin N, t.val < n → j.val < n → r.solver.scanned y = true →
        r.solver.nodeForTask t = some y → s'.nodeForTask t = some y →
        min (r.solver.dist j) r.minDist ≤
          r.solver.dist y + red cost r.solver t j - red cost r.solver t y)
    ⟨fun h sink s' hsink hs' => h sink hsink s' hs', fun h sink hsink s' hs' => h sink s' hsink hs'⟩

theorem RowMinimal.ended {fuel : Nat} {s' : JonkerVolgenant N} (h : RowMinimal n cost s)
    (hsame : SameBase s r.solver) (hfound : Found n cost cmax floor source r sink)
    (hend : Ended n cost floor fuel source sink r s') (hshort : Short n cost fuel source r) :
    RowMinimal n cost s' := by
  have hred : ∀ t j : Fin N, j.val < n → red cost s' t j =
      red cost r.solver t j - min (r.solver.dist j) r.minDist + r.minDist := by
    intro t j hj
    rw [red, red, hend.prices, hfound.priced_v hj]
    omega
  intro t x j ht hj htx
  rcases hend.old t x htx with hold | ⟨⟨hx, hscan⟩, hpred⟩
  · have hx := (hfound.pairing.node t x ht hold).1
    rw [hred t x hx, hred t j hj]
    cases hscan : r.solver.scanned x with
    | true =>
      obtain ⟨s'', haugment, hnodes⟩ := hend.augmented
      have h₁ := hshort sink s'' hfound.sink_eq haugment t x j ht hj hscan hold
        (by rw [hnodes, htx])
      have h₂ := hfound.near x hx hscan
      omega
    | false =>
      have h₁ := hfound.far x hx hscan
      have h₂ : red cost r.solver t x ≤ red cost r.solver t j := by
        rw [red, red, hsame.1]
        exact h t x j ht hj (by rw [← hsame.2.1, hold])
      omega
  · rw [hred t x hx, hred t j hj]
    have h₁ := hfound.near x hx hscan
    obtain ⟨rank, -, hback⟩ := hfound.tree
    obtain ⟨t', hpred', hway⟩ := hback x hx
    have htt : t' = t := Option.some.inj (hpred'.symm.trans hpred)
    rcases hway with ⟨hsource, hdist⟩ | ⟨y, hy, hyscan, -, hyt, hdist⟩
    · have h₂ := hfound.source_le j hj
      rw [← htt, hsource]
      omega
    · have h₂ := hfound.ways y t' j hy hj hyscan hyt
      rw [← htt]
      omega

/-! ## Whole runs -/

/-- The state in which the first search begins. -/
def started (hn : n ≤ N) (cost : Fin N → Fin N → Int) (s : JonkerVolgenant N) :
    JonkerVolgenant N :=
  (s.resetMatching hn).initNodePrices hn cost

theorem started_v {j : Fin N} (hj : j.val < n) :
    (started hn cost s).v j = minimum ((indices hn).map fun i => cost i j) := by
  simp [started, initNodePrices, hj]

theorem nodeForTask_started {i : Fin N} (hi : i.val < n) :
    (started hn cost s).nodeForTask i = none := by
  simp [started, initNodePrices, resetMatching, hi]

theorem taskForNode_started {j : Fin N} (hj : j.val < n) :
    (started hn cost s).taskForNode j = none := by
  simp [started, initNodePrices, resetMatching, hj]

theorem started_v_nonneg (hb : Bounds C n cost cmax floor) (s : JonkerVolgenant N) {j : Fin N}
    (hj : j.val < n) : 0 ≤ (started hn cost s).v j := by
  have hne : ((indices hn).map fun i => cost i j) ≠ [] :=
    List.ne_nil_of_mem (List.mem_map_of_mem (mem_indices.2 hj))
  obtain ⟨i, hi, heq⟩ := List.mem_map.1 (minimum_mem hne)
  rw [started_v hj, ← heq]
  exact (hb.entry i j (mem_indices.1 hi) hj).1

theorem prices_started (hn : n ≤ N) (hb : Bounds C n cost cmax floor) (s : JonkerVolgenant N) :
    Prices n cost floor (started hn cost s) where
  pairing := by
    constructor
    · intro i j hi hij
      rw [nodeForTask_started hi] at hij
      cases hij
    · intro i j hj _ hji
      rw [taskForNode_started hj] at hji
      cases hji
  le_cost i j hi hj := by
    rw [started_v hj]
    exact minimum_le (List.mem_map_of_mem (mem_indices.2 hi))
  free j hj _ := started_v_nonneg hb s hj
  price j hj := Int.le_trans hb.floor_le (started_v_nonneg hb s hj)

/-- The state before the searches for the tasks that are left. -/
structure Running (hn : n ≤ N) (cost : Fin N → Fin N → Int) (floor : Int) (rest : List (Fin N))
    (s : JonkerVolgenant N) : Prop extends Prices n cost floor s where
  left : ∀ i : Fin N, i.val < n → (s.nodeForTask i = none ↔ i ∈ rest)
  rest_lt : ∀ i ∈ rest, i.val < n
  nodup : rest.Nodup

theorem running_started (hn : n ≤ N) (hb : Bounds C n cost cmax floor) (s : JonkerVolgenant N) :
    Running hn cost floor (indices hn) (started hn cost s) where
  toPrices := prices_started hn hb s
  left i hi := by simp [nodeForTask_started hi, hi]
  rest_lt _ hi := mem_indices.1 hi
  nodup := indices_nodup hn

theorem Running.scan_spec {rest : List (Fin N)} (h : Running hn cost floor (source :: rest) s)
    (hb : Bounds C n cost cmax floor) {fuel : Nat} (hfuel : n ≤ fuel) :
    ∃ r sink, s.scan C hn cost fuel source = some r ∧ Found n cost cmax floor source r sink ∧
      SameBase s r.solver := by
  have hsource := h.rest_lt source List.mem_cons_self
  exact h.toPrices.scan_spec hb hn hsource ((h.left source hsource).2 List.mem_cons_self) hfuel

theorem Running.ended {rest : List (Fin N)} {fuel : Nat} {s' : JonkerVolgenant N}
    (h : Running hn cost floor (source :: rest) s) (hsame : SameBase s r.solver)
    (hend : Ended n cost floor fuel source sink r s') : Running hn cost floor rest s' where
  toPrices := hend.toPrices
  left i hi := by
    have hnodup := List.nodup_cons.1 h.nodup
    rw [hend.none_iff, hsame.2.1, h.left i hi, List.mem_cons]
    constructor
    · exact fun ⟨hmem, hne⟩ => hmem.resolve_left hne
    · exact fun hmem => ⟨Or.inr hmem, fun heq => hnodup.1 (heq ▸ hmem)⟩
  rest_lt i hi := h.rest_lt i (List.mem_cons_of_mem _ hi)
  nodup := (List.nodup_cons.1 h.nodup).2

/-- In every search of the run, the end is as `Short` says. -/
def ShortThroughout (C : CostType) (hn : n ≤ N) (cost : Fin N → Fin N → Int) (fuel : Nat)
    (s : JonkerVolgenant N) : Prop :=
  ThroughoutList (search C hn cost fuel)
    (fun s task => ∀ r, s.scan C hn cost fuel task = some r → Short n cost fuel task r)
    (indices hn) (started hn cost s)

instance (C : CostType) (hn : n ≤ N) (cost : Fin N → Fin N → Int) (fuel : Nat)
    (s : JonkerVolgenant N) : Decidable (ShortThroughout C hn cost fuel s) :=
  have (s : JonkerVolgenant N) (task : Fin N) :
      Decidable (∀ r, s.scan C hn cost fuel task = some r → Short n cost fuel task r) :=
    inferInstanceAs (Decidable (∀ r ∈ s.scan C hn cost fuel task, Short n cost fuel task r))
  inferInstanceAs (Decidable (ThroughoutList _ _ _ _))

theorem dropped_started (hn : n ≤ N) (hb : Bounds C n cost cmax floor) (s : JonkerVolgenant N) :
    Dropped hn cost (started hn cost s) := by
  have hplaced : ∀ k, placed hn (started hn cost s) k = false := fun k => by
    rw [placed, nodeForTask_started (i := k.castLE hn) k.isLt]
    rfl
  refine ⟨Equiv.refl _, fun k hk => ?_, fun j hj => ?_⟩
  · rw [hplaced k] at hk
    cases hk
  · have hspent : spent (corner hn cost) (placed hn (started hn cost s)) (Equiv.refl _) = 0 :=
      Finset.sum_eq_zero fun k _ => by rw [hplaced k]; rfl
    rw [hspent]
    simpa using started_v_nonneg hb s hj

section Run

variable {bound : Int} (hb : Bounds C n cost cmax (-bound))
  (hcost : ∀ i j : Fin n, 0 ≤ corner hn cost i j)
  (htotal : ∀ σ, total (corner hn cost) σ ≤ bound) {fuel : Nat} (hfuel : n ≤ fuel)
include hb hcost htotal hfuel

theorem Running.search_spec {rest : List (Fin N)}
    (h : Running hn cost (-bound) (source :: rest) s) (hdrop : Dropped hn cost s) :
    ∃ s', s.search C hn cost fuel source = some s' ∧ Running hn cost (-bound) rest s' ∧
      Dropped hn cost s' ∧
      (RowMinimal n cost s →
        (∀ r, s.scan C hn cost fuel source = some r → Short n cost fuel source r) →
        RowMinimal n cost s') := by
  obtain ⟨r, sink, hscan, hfound, hsame⟩ := h.scan_spec hb hfuel
  have hprice := hdrop.pricesHold hsame hfound hcost htotal
  obtain ⟨s', hsearch, hend⟩ := hfound.ended hn hfuel hprice
  exact ⟨s', by rw [hfound.search_eq hb hscan hprice, hsearch], h.ended hsame hend,
    hdrop.ended hsame hfound hend,
    fun hrow hshort => hrow.ended hsame hfound hend (hshort r hscan)⟩

/-- Every run ends with a permutation, and it is one that no other undercuts when the searches
are as `Short` says. -/
theorem solve_of_bounds (s : JonkerVolgenant N) :
    ∃ s' σ, solve C fuel hn s cost = some (assignmentOf hn σ, s') ∧
      (ShortThroughout C hn cost fuel s → Optimal (corner hn cost) σ) := by
  have hstart := running_started hn hb s
  have hdrop := dropped_started hn hb s
  obtain ⟨s', hfold, hrun, hdrop'⟩ := foldlM_of_throughout (search C hn cost fuel)
    (fun rest s => Running hn cost (-bound) rest s ∧ Dropped hn cost s) (fun _ _ => True)
    ⟨hstart, hdrop⟩ (fun x rest s hinv _ => by
      obtain ⟨hrun, hdrop⟩ := hinv
      obtain ⟨s', hsearch, hrun', hdrop', -⟩ := hrun.search_spec hb hcost htotal hfuel hdrop
      exact ⟨s', hsearch, hrun', hdrop'⟩)
    (throughoutList_of_forall (fun _ _ => trivial) _ _)
  obtain ⟨σ, hσ⟩ := hrun.pairing.exists_perm (Fin.castLEEmb hn) (inUse_iff hn)
    fun i hi hnone => absurd ((hrun.left i hi).1 hnone) List.not_mem_nil
  refine ⟨s', σ, ?_, fun hshort => ?_⟩
  · have hresult : (indices hn).map s'.nodeForTask = assignmentOf hn σ := by
      rw [indices, List.map_map, assignmentOf]
      exact List.map_congr_left fun i _ => hσ i
    rw [solve, ← hresult, show (s.resetMatching hn).initNodePrices hn cost = started hn cost s
      from rfl, hfold]
    rfl
  · obtain ⟨s'', hfold', ⟨-, -, hrow⟩⟩ := foldlM_of_throughout (search C hn cost fuel)
      (fun rest s => Running hn cost (-bound) rest s ∧ Dropped hn cost s ∧ RowMinimal n cost s)
      (fun s task => ∀ r, s.scan C hn cost fuel task = some r → Short n cost fuel task r)
      ⟨hstart, hdrop, fun t x j ht _ htx => by
        rw [nodeForTask_started ht] at htx
        cases htx⟩
      (fun x rest s hinv hshort => by
        obtain ⟨hrun, hdrop, hrow⟩ := hinv
        obtain ⟨s', hsearch, hrun', hdrop', hrow'⟩ :=
          hrun.search_spec hb hcost htotal hfuel hdrop
        exact ⟨s', hsearch, hrun', hdrop', hrow' hrow hshort⟩) hshort
    have hsame : s'' = s' := Option.some.inj (hfold'.symm.trans hfold)
    subst hsame
    refine Potentials.optimal (u := fun i => red cost s'' (i.castLE hn) ((σ i).castLE hn))
      (v := fun j => s''.v (j.castLE hn)) (fun i j => ?_) fun i => ?_
    · have := hrow (i.castLE hn) ((σ i).castLE hn) (j.castLE hn) i.isLt j.isLt (hσ i)
      simp only [red, corner] at this ⊢
      omega
    · simp only [red, corner]
      omega

end Run

theorem corner_le_of_total {bound : Int} (hcost : ∀ i j : Fin n, 0 ≤ corner hn cost i j)
    (htotal : ∀ σ, total (corner hn cost) σ ≤ bound) (i j : Fin n) :
    corner hn cost i j ≤ bound := by
  have hone : corner hn cost i (Equiv.swap i j i) ≤ total (corner hn cost) (Equiv.swap i j) :=
    Finset.single_le_sum (f := fun k => corner hn cost k (Equiv.swap i j k))
      (fun k _ => hcost k _) (Finset.mem_univ i)
  rw [Equiv.swap_apply_left] at hone
  exact Int.le_trans hone (htotal _)

/-- Whatever earlier calls have left, the solver ends with a permutation.  No permutation costs
less as long as the searches of the run are as `Short` says. -/
theorem solve_optimal_of_short (hn : n ≤ N) (cost : Fin N → Fin N → Int)
    (hcost : ∀ i j : Fin n, 0 ≤ corner hn cost i j)
    (htotal : ∀ σ, total (corner hn cost) σ < (2 ^ 63 - 1) / 4) (s : JonkerVolgenant N)
    (h : Hungarian N) {fuel : Nat} (hfuel : n ≤ fuel) :
    ∃ s' σ h' τ, solve .i64 fuel hn s cost = some (assignmentOf hn σ, s') ∧
      Hungarian.solve .i64 fuel hn h cost = some (assignmentOf hn τ, h') ∧
      (ShortThroughout .i64 hn cost fuel s →
        Optimal (corner hn cost) σ ∧ total (corner hn cost) σ = total (corner hn cost) τ) := by
  have htotal' : ∀ σ, total (corner hn cost) σ ≤ (2 ^ 63 - 1) / 4 := fun σ =>
    Int.le_of_lt (htotal σ)
  have hentry : ∀ i j : Fin N, i.val < n → j.val < n →
      0 ≤ cost i j ∧ cost i j ≤ (2 ^ 63 - 1) / 4 := fun i j hi hj =>
    ⟨hcost ⟨i, hi⟩ ⟨j, hj⟩, corner_le_of_total hcost htotal' ⟨i, hi⟩ ⟨j, hj⟩⟩
  have hb : Bounds .i64 n cost ((2 ^ 63 - 1) / 4) (-((2 ^ 63 - 1) / 4)) := by
    refine ⟨hentry, by decide, fun x hlow hhigh => ?_, fun x hlow hhigh => ?_, by decide⟩ <;>
      simp only [CostType.i64, decide_eq_true_eq] <;> omega
  have hb' : Hungarian.Bounds .i64 n cost 0 ((2 ^ 63 - 1) / 4) (-((2 ^ 63 - 1) / 4)) := by
    refine ⟨hentry, fun x hlow hhigh => ?_, fun x hlow hhigh => ?_, by decide, by decide⟩ <;>
      simp only [CostType.i64, decide_eq_true_eq] <;> omega
  obtain ⟨s', σ, hsolve, hopt⟩ := solve_of_bounds hb hcost htotal' hfuel s
  obtain ⟨h', τ, hhungarian, hleast⟩ :=
    Hungarian.solve_of_bounds hb' hn (by decide) hfuel h
  exact ⟨s', σ, h', τ, hsolve, hhungarian, fun hshort =>
    ⟨hopt hshort, (hopt hshort).total_eq hleast⟩⟩

/-- Costs for which a search scans a node that keeps its task. -/
def tiedRow (i j : Fin 3) : Int := if i = 1 then if j = 1 then 2 else 1 else 0

theorem solve_optimal_of_short_three :
    ∃ s' σ h' τ, solve .i64 3 (Nat.le_refl 3) (new .i64) tiedRow =
        some (assignmentOf (Nat.le_refl 3) σ, s') ∧
      Hungarian.solve .i64 3 (Nat.le_refl 3) (Hungarian.new .i64) tiedRow =
        some (assignmentOf (Nat.le_refl 3) τ, h') ∧
      Optimal (corner (Nat.le_refl 3) tiedRow) σ ∧
        total (corner (Nat.le_refl 3) tiedRow) σ = total (corner (Nat.le_refl 3) tiedRow) τ := by
  obtain ⟨s', σ, h', τ, hsolve, hhungarian, hopt⟩ :=
    solve_optimal_of_short (Nat.le_refl 3) tiedRow (by decide) (by decide) (new .i64)
      (Hungarian.new .i64) (Nat.le_refl 3)
  exact ⟨s', σ, h', τ, hsolve, hhungarian, hopt (by decide +kernel)⟩

/-- Costs for which the last search takes a way that is not the shortest. -/
def looseRow (i j : Fin 3) : Int :=
  if i = 1 ∨ i = 2 ∧ j ≠ 1 then 1 else 0

theorem looseRow_not_optimal :
    (∀ i j, 0 ≤ looseRow i j ∧ looseRow i j ≤ 1) ∧
      (solve .i64 3 (Nat.le_refl 3) (new .i64) looseRow).map Prod.fst =
        some (assignmentOf (Nat.le_refl 3) (Equiv.refl (Fin 3))) ∧
      total (corner (Nat.le_refl 3) looseRow) (Equiv.swap 1 2) <
        total (corner (Nat.le_refl 3) looseRow) (Equiv.refl (Fin 3)) :=
  ⟨by decide, by decide, by decide⟩

end JonkerVolgenant

end Spacecomp
end Leodos
