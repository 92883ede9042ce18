/-
The assignment solvers on unsigned costs.

With costs below 2^61 the only step that can leave the range of `u64` is a price that comes down
below zero.  So a run over `u64` ends, with the result of the run over the integers, just when
no price comes down below zero in that run.
-/
import Leodos.Spacecomp.JonkerVolgenant

namespace Leodos
namespace Spacecomp

open Assignment Function

variable {N n : Nat} {cost : Fin N → Fin N → Int} {hn : n ≤ N} {fuel : Nat}

theorem CostType.u64_below {x : Int} (h : x < 0) : CostType.u64.holds x = false := by
  simp only [CostType.u64, decide_eq_false_iff_not]
  omega

namespace Hungarian

/-- No price comes down below zero in the run over the integers. -/
def PricesThroughout (hn : n ≤ N) (cost : Fin N → Fin N → Int) (fuel : Nat) (s : Hungarian N) :
    Prop :=
  ThroughoutList (search CostType.u64.integers hn cost fuel)
    (SearchHolds CostType.u64.integers hn cost 0 fuel) (indices hn) (started hn cost s)

/-- The state before the searches for the tasks that are left. -/
structure Running (n : Nat) (cost : Fin N → Fin N → Int) (rest : List (Fin N))
    (s : Hungarian N) : Prop extends Dual n cost 0 0 s where
  left : ∀ i : Fin N, i.val < n → (s.nodeForTask i = none ↔ i ∈ rest)
  rest_lt : ∀ i ∈ rest, i.val < n
  nodup : rest.Nodup

section Costs

variable (hcost : ∀ i j : Fin N, i.val < n → j.val < n → 0 ≤ cost i j ∧ cost i j ≤ 2 ^ 61)
include hcost

theorem bounds_u64 : Bounds .u64 n cost 0 (2 ^ 61) 0 where
  entry := hcost
  cost_holds x hlow hhigh := by
    simp only [CostType.u64, decide_eq_true_eq]
    omega
  holds_low x hlow hhigh := by
    simp only [CostType.u64, decide_eq_true_eq]
    omega
  floor_le := Int.le_refl 0
  sentinel := by decide

theorem bounds_integers {floor : Int} (hfloor : floor ≤ 0) :
    Bounds CostType.u64.integers n cost 0 (2 ^ 61) floor where
  entry := hcost
  cost_holds _ _ _ := rfl
  holds_low _ _ _ := rfl
  floor_le := hfloor
  sentinel := by decide

theorem turn_u64 {s : Hungarian N} {source : Fin N} (h : Searching n cost 0 0 source s)
    (hprice : PricesHold CostType.u64.integers hn 0 s) :
    turn .u64 hn cost fuel source s = turn CostType.u64.integers hn cost fuel source s := by
  obtain ⟨node, hfind, -, -, -, hturn⟩ := h.turn_eq (bounds_u64 hcost) hn fuel hprice
  obtain ⟨node', hfind', -, -, -, hturn'⟩ :=
    h.turn_eq (bounds_integers hcost (Int.le_refl 0)) hn fuel hprice
  have hsame : node' = node :=
    Option.some.inj (congrArg Prod.snd (hfind'.symm.trans hfind))
  rw [hturn, hturn', hsame]

/-- One search over `u64`, beside the search over the integers. -/
theorem Running.search_u64 {s r : Hungarian N} {source : Fin N} {rest : List (Fin N)}
    (h : Running n cost (source :: rest) s) (hfuel : n ≤ fuel) :
    search .u64 hn cost fuel s source = some r ↔
      search CostType.u64.integers hn cost fuel s source = some r ∧
        SearchHolds CostType.u64.integers hn cost 0 fuel s source := by
  have hsource := h.rest_lt source List.mem_cons_self
  have hun := (h.left source hsource).2 List.mem_cons_self
  obtain ⟨hbegin, hsearching⟩ := h.toDual.beginSearch_spec (bounds_u64 hcost) hn hsource hun
  obtain ⟨hbegin', -⟩ := h.toDual.beginSearch_spec
    (bounds_integers hcost (Int.le_refl 0)) hn hsource hun
  have hstart : relaxed n cost (s.resetAugmentState .u64 hn) source =
      relaxed n cost (s.resetAugmentState CostType.u64.integers hn) source := rfl
  rw [search, search, SearchHolds, hbegin, hbegin']
  simp only [Option.bind_eq_bind, Option.bind_some, Option.some.injEq, forall_eq', hstart]
  refine loop_eq_some_iff (Searching n cost 0 0 source) (fun s' hs' hprice =>
    turn_u64 hcost hs' hprice) (fun s' hs' hprice => ?_) (fun s' s'' hs' hprice hturn => ?_)
    hsearching
  · exact hs'.turn_eq_none (bounds_u64 hcost) hn (fun _ => CostType.u64_below) hprice
  · rcases hs'.turn_spec (bounds_integers hcost (Int.le_refl 0)) hn hfuel hprice with
      ⟨t, hturn', -⟩ | ⟨t, hturn', ht, -⟩
    · rw [hturn'] at hturn
      cases hturn
    · rw [hturn', Option.some.injEq, Turn.again.injEq] at hturn
      exact hturn ▸ ht

theorem Running.next {s r : Hungarian N} {source : Fin N} {rest : List (Fin N)}
    (h : Running n cost (source :: rest) s) (hfuel : n ≤ fuel)
    (hholds : SearchHolds CostType.u64.integers hn cost 0 fuel s source)
    (hsearch : search CostType.u64.integers hn cost fuel s source = some r) :
    Running n cost rest r := by
  have hsource := h.rest_lt source List.mem_cons_self
  have hnodup := List.nodup_cons.1 h.nodup
  obtain ⟨r', hsearch', hdual, hnone⟩ := h.toDual.search_spec
    (bounds_integers hcost (Int.le_refl 0)) hn hsource
    ((h.left source hsource).2 List.mem_cons_self) hfuel hholds
  have hsame : r' = r := Option.some.inj (hsearch'.symm.trans hsearch)
  subst hsame
  refine ⟨hdual, fun i hi => ?_, fun i hi => h.rest_lt i (List.mem_cons_of_mem _ hi), hnodup.2⟩
  rw [hnone, h.left i hi, List.mem_cons]
  constructor
  · exact fun ⟨hmem, hne⟩ => hmem.resolve_left hne
  · exact fun hmem => ⟨Or.inr hmem, fun heq => hnodup.1 (heq ▸ hmem)⟩

theorem running_started (hn : n ≤ N) (s : Hungarian N) :
    Running n cost (indices hn) (started hn cost s) where
  toDual := dual_started (bounds_u64 hcost) s
  left i hi := by simp [started, resetMatching, hi]
  rest_lt _ hi := mem_indices.1 hi
  nodup := indices_nodup hn

/-- A run over `u64` ends as the run over the integers does, just when no price comes down below
zero. -/
theorem solve_u64_iff (hfuel : n ≤ fuel) (s : Hungarian N) :
    (∃ r, solve .u64 fuel hn s cost = some r ∧
      solve CostType.u64.integers fuel hn s cost = some r) ↔
      PricesThroughout hn cost fuel s := by
  have hfold : ∀ r, (indices hn).foldlM (search .u64 hn cost fuel) (started hn cost s) = some r ↔
      (indices hn).foldlM (search CostType.u64.integers hn cost fuel) (started hn cost s) = some r ∧
        PricesThroughout hn cost fuel s := fun r =>
    foldlM_eq_some_iff (Running n cost) (fun x rest s r h => h.search_u64 hcost hfuel)
      (fun x rest s r h hholds hsearch => h.next hcost hfuel hholds hsearch)
      (running_started hcost hn s)
  have hu64 : (s.resetMatching hn).initPotentials .u64 hn cost = some (started hn cost s) :=
    initPotentials_eq (bounds_u64 hcost)
  have hintegers : (s.resetMatching hn).initPotentials CostType.u64.integers hn cost =
      some (started hn cost s) :=
    initPotentials_eq (bounds_integers hcost (Int.le_refl 0))
  constructor
  · intro ⟨r, hsolve, _⟩
    rw [solve, hu64, Option.bind_eq_bind, Option.bind_some, Option.bind_eq_some_iff] at hsolve
    obtain ⟨s', hs', -⟩ := hsolve
    exact ((hfold s').1 hs').2
  · intro hprices
    obtain ⟨s', σ, hsolve, -⟩ := solve_of_bounds
      (bounds_integers hcost (by decide : (0 : Int) - 2 ^ 61 ≤ 0)) hn (Int.le_refl _) hfuel s
    rw [solve, hintegers, Option.bind_eq_bind, Option.bind_some, Option.bind_eq_some_iff] at hsolve
    obtain ⟨s'', hs'', hresult⟩ := hsolve
    refine ⟨(assignmentOf hn σ, s'), ?_, ?_⟩
    · rw [solve, hu64, Option.bind_eq_bind, Option.bind_some, (hfold s'').2 ⟨hs'', hprices⟩]
      exact hresult
    · rw [solve, hintegers, Option.bind_eq_bind, Option.bind_some, hs'']
      exact hresult

end Costs

end Hungarian

namespace JonkerVolgenant

/-- No price comes down below zero in the run over the integers. -/
def PricesThroughout (hn : n ≤ N) (cost : Fin N → Fin N → Int) (fuel : Nat)
    (s : JonkerVolgenant N) : Prop :=
  ThroughoutList (search CostType.u64.integers hn cost fuel)
    (fun s task => ∀ r, s.scan CostType.u64.integers hn cost fuel task = some r →
      PricesHold n 0 r) (indices hn) (started hn cost s)

section Costs

variable (hcost : ∀ i j : Fin N, i.val < n → j.val < n → 0 ≤ cost i j ∧ cost i j ≤ 2 ^ 61)
include hcost

theorem bounds_u64 : Bounds .u64 n cost (2 ^ 61) 0 where
  entry := hcost
  floor_le := Int.le_refl 0
  holds x hlow hhigh := by
    simp only [CostType.u64, decide_eq_true_eq]
    omega
  holds_low x hlow hhigh := by
    simp only [CostType.u64, decide_eq_true_eq]
    omega
  sentinel := by decide

theorem bounds_integers {floor : Int} (hfloor : floor ≤ 0) :
    Bounds CostType.u64.integers n cost (2 ^ 61) floor where
  entry := hcost
  floor_le := hfloor
  holds _ _ _ := rfl
  holds_low _ _ _ := rfl
  sentinel := by decide

theorem turn_u64 {s : JonkerVolgenant N} {source : Fin N} {minDist : Int}
    (h : Scanning n cost 0 source s minDist) :
    turn .u64 hn cost ⟨s, minDist, none⟩ =
      turn CostType.u64.integers hn cost ⟨s, minDist, none⟩ := by
  obtain ⟨node, hfind, hnode, -, hnear, -⟩ := h.exists_least (bounds_u64 hcost) hn
  rw [h.turn_eq (bounds_u64 hcost) hfind hnode hnear,
    h.turn_eq (bounds_integers hcost (Int.le_refl 0)) hfind hnode hnear]

theorem Running.scan_u64 {s : JonkerVolgenant N} {source : Fin N} {rest : List (Fin N)}
    (h : Running hn cost 0 (source :: rest) s) :
    s.scan .u64 hn cost fuel source = s.scan CostType.u64.integers hn cost fuel source := by
  have hsource := h.rest_lt source List.mem_cons_self
  have hun := (h.left source hsource).2 List.mem_cons_self
  have hbegin : s.beginSearch .u64 hn cost source = some (begun n cost s source) :=
    beginSearch_eq fun j hj => (h.toPrices.red_holds (bounds_u64 hcost) hsource hj).2
  have hbegin' : s.beginSearch CostType.u64.integers hn cost source =
      some (begun n cost s source) := beginSearch_eq fun _ _ => rfl
  rw [scan, scan, hbegin, hbegin']
  refine loop_congr (fun a : Search N => a.sink = none ∧
    Scanning n cost 0 source a.solver a.minDist) (fun a ha => ?_) (fun a b ha hturn => ?_)
    ⟨rfl, h.toPrices.begun_spec hsource hun⟩
  · obtain ⟨a, d, sink⟩ := a
    obtain ⟨rfl, hscanning⟩ := ha
    exact turn_u64 hcost hscanning
  · obtain ⟨a, d, sink⟩ := a
    obtain ⟨rfl, hscanning⟩ := ha
    rcases hscanning.turn_spec (bounds_integers hcost (Int.le_refl 0)) hn with
      ⟨r, node, hturn', -⟩ | ⟨s', d', hturn', hnext, -⟩
    · rw [hturn'] at hturn
      cases hturn
    · rw [hturn', Option.some.injEq, Turn.again.injEq] at hturn
      exact hturn ▸ ⟨rfl, hnext⟩

/-- One search over `u64`, beside the search over the integers. -/
theorem Running.search_u64 {s r : JonkerVolgenant N} {source : Fin N} {rest : List (Fin N)}
    (h : Running hn cost 0 (source :: rest) s) (hfuel : n ≤ fuel) :
    s.search .u64 hn cost fuel source = some r ↔
      s.search CostType.u64.integers hn cost fuel source = some r ∧
        ∀ found, s.scan CostType.u64.integers hn cost fuel source = some found →
          PricesHold n 0 found := by
  obtain ⟨found, sink, hscan, hfound, -⟩ :=
    h.scan_spec (bounds_integers hcost (Int.le_refl 0)) hfuel
  have hscan' : s.scan .u64 hn cost fuel source = some found := by rw [h.scan_u64 hcost, hscan]
  rw [hscan]
  simp only [Option.some.injEq, forall_eq']
  by_cases hprice : PricesHold n 0 found
  · rw [hfound.search_eq (bounds_u64 hcost) hscan' hprice,
      hfound.search_eq (bounds_integers hcost (Int.le_refl 0)) hscan hprice, and_iff_left hprice]
  · rw [hfound.search_eq_none (bounds_u64 hcost) (fun _ => CostType.u64_below) hscan' hprice]
    simp [hprice]

theorem Running.next {s r : JonkerVolgenant N} {source : Fin N} {rest : List (Fin N)}
    (h : Running hn cost 0 (source :: rest) s) (hfuel : n ≤ fuel)
    (hprice : ∀ found, s.scan CostType.u64.integers hn cost fuel source = some found →
      PricesHold n 0 found)
    (hsearch : s.search CostType.u64.integers hn cost fuel source = some r) :
    Running hn cost 0 rest r := by
  obtain ⟨found, sink, hscan, hfound, hsame⟩ :=
    h.scan_spec (bounds_integers hcost (Int.le_refl 0)) hfuel
  obtain ⟨r', haugment, hend⟩ := hfound.ended hn hfuel (hprice found hscan)
  have heq := hfound.search_eq (bounds_integers hcost (Int.le_refl 0)) hscan (hprice found hscan)
  rw [hsearch, haugment, Option.some.injEq] at heq
  exact h.ended hsame (heq ▸ hend)

/-- A run over `u64` ends as the run over the integers does, just when no price comes down below
zero. -/
theorem solve_u64_iff (hfuel : n ≤ fuel) (s : JonkerVolgenant N) :
    (∃ r, solve .u64 fuel hn s cost = some r ∧
      solve CostType.u64.integers fuel hn s cost = some r) ↔
      PricesThroughout hn cost fuel s := by
  have hfold : ∀ r, (indices hn).foldlM (search .u64 hn cost fuel) (started hn cost s) = some r ↔
      (indices hn).foldlM (search CostType.u64.integers hn cost fuel) (started hn cost s) = some r ∧
        PricesThroughout hn cost fuel s := fun r =>
    foldlM_eq_some_iff (Running hn cost 0) (fun x rest s r h => h.search_u64 hcost hfuel)
      (fun x rest s r h hprice hsearch => h.next hcost hfuel hprice hsearch)
      (running_started hn (bounds_u64 hcost) s)
  have hstart : (s.resetMatching hn).initNodePrices hn cost = started hn cost s := rfl
  constructor
  · intro ⟨r, hsolve, _⟩
    rw [solve, hstart, Option.bind_eq_bind, Option.bind_eq_some_iff] at hsolve
    obtain ⟨s', hs', -⟩ := hsolve
    exact ((hfold s').1 hs').2
  · intro hprices
    have hentry : ∀ i j : Fin n, 0 ≤ corner hn cost i j := fun i j =>
      (hcost _ _ i.isLt j.isLt).1
    have htotal : ∀ σ, total (corner hn cost) σ ≤ n * 2 ^ 61 := fun σ => by
      have hsum : total (corner hn cost) σ ≤ ∑ _i : Fin n, (2 ^ 61 : Int) :=
        Finset.sum_le_sum fun i _ => (hcost _ _ i.isLt (σ i).isLt).2
      simpa using hsum
    obtain ⟨s', σ, hsolve, -⟩ := solve_of_bounds
      (bounds_integers hcost (by omega : -((n : Int) * 2 ^ 61) ≤ 0)) hentry htotal hfuel s
    rw [solve, hstart, Option.bind_eq_bind, Option.bind_eq_some_iff] at hsolve
    obtain ⟨s'', hs'', hresult⟩ := hsolve
    refine ⟨(assignmentOf hn σ, s'), ?_, ?_⟩
    · rw [solve, hstart, Option.bind_eq_bind, (hfold s'').2 ⟨hs'', hprices⟩]
      exact hresult
    · rw [solve, hstart, Option.bind_eq_bind, hs'']
      exact hresult

end Costs

end JonkerVolgenant

/-! ## Both solvers -/

/-- The solvers on costs of less than 2^61: each ends over `u64` as it does over the integers, just
when no price of its run over the integers comes down below zero. -/
theorem unsigned_exact_iff (hn : n ≤ 64) (cost : Fin 64 → Fin 64 → Int)
    (hcost : ∀ i j, 0 ≤ cost i j ∧ cost i j < 2 ^ 61) (hungarian : Hungarian 64)
    (jonkerVolgenant : JonkerVolgenant 64) {fuel : Nat} (hfuel : n ≤ fuel) :
    ((∃ r, hungarian.solve .u64 fuel hn cost = some r ∧
        hungarian.solve CostType.u64.integers fuel hn cost = some r) ↔
      hungarian.PricesThroughout hn cost fuel) ∧
    ((∃ r, jonkerVolgenant.solve .u64 fuel hn cost = some r ∧
        jonkerVolgenant.solve CostType.u64.integers fuel hn cost = some r) ↔
      jonkerVolgenant.PricesThroughout hn cost fuel) := by
  have hentry : ∀ i j : Fin 64, i.val < n → j.val < n → 0 ≤ cost i j ∧ cost i j ≤ 2 ^ 61 :=
    fun i j _ _ => ⟨(hcost i j).1, Int.le_of_lt (hcost i j).2⟩
  exact ⟨Hungarian.solve_u64_iff hentry hfuel hungarian,
    JonkerVolgenant.solve_u64_iff hentry hfuel jonkerVolgenant⟩

/-- Costs for which the Hungarian solver takes a price of zero down. -/
def loweredPrice (i j : Fin 64) : Int :=
  match i.val, j.val with
  | 0, 1 => 5
  | 0, 2 => 9
  | 1, 1 => 7
  | 1, 2 => 8
  | _, _ => 0

theorem loweredPrice_range (i j : Fin 64) : 0 ≤ loweredPrice i j ∧ loweredPrice i j < 2 ^ 61 := by
  unfold loweredPrice
  split
  all_goals exact ⟨by decide, by decide⟩

/-- Costs for which the Jonker-Volgenant solver does. -/
def loweredNodePrice (i j : Fin 64) : Int :=
  if 0 < i.val ∧ 0 < j.val then 1 else 0

theorem unsigned_exact_lowered :
    ((∃ r, (Hungarian.new .u64).solve .u64 3 (by decide : 3 ≤ 64) loweredPrice = some r ∧
        (Hungarian.new .u64).solve CostType.u64.integers 3 (by decide : 3 ≤ 64) loweredPrice =
          some r) ↔
      (Hungarian.new .u64).PricesThroughout (by decide : 3 ≤ 64) loweredPrice 3) ∧
    ((∃ r, (JonkerVolgenant.new .u64).solve .u64 3 (by decide : 3 ≤ 64) loweredPrice = some r ∧
        (JonkerVolgenant.new .u64).solve CostType.u64.integers 3 (by decide : 3 ≤ 64)
          loweredPrice = some r) ↔
      (JonkerVolgenant.new .u64).PricesThroughout (by decide : 3 ≤ 64) loweredPrice 3) :=
  unsigned_exact_iff (by decide) loweredPrice loweredPrice_range (Hungarian.new .u64)
    (JonkerVolgenant.new .u64) (Nat.le_refl 3)

theorem loweredPrice_aborts :
    (Hungarian.new .u64).solve .u64 3 (by decide : 3 ≤ 64) loweredPrice = none ∧
      (JonkerVolgenant.new .u64).solve .u64 3 (by decide : 3 ≤ 64) loweredNodePrice = none :=
  ⟨Option.isNone_iff_eq_none.1 (by decide), Option.isNone_iff_eq_none.1 (by decide)⟩

end Spacecomp
end Leodos
