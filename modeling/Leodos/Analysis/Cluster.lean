/-
Clusters of detections, `cluster.rs`.

The within-radius test is any symmetric relation and the numbers are exact.  An index of a
capacity `N ≤ 65535` is its own `u16`, so the arrays are indexed by `Fin N`.  `none` is a panic,
or a `find` that has not ended after `N` turns.
-/
import Leodos.Assignment.Loop
import Leodos.Forest.Ranked
import Mathlib.Algebra.Field.Rat
import Mathlib.Algebra.Order.Ring.Rat
import Mathlib.Data.List.FinRange
import Mathlib.Order.WithBot

namespace Leodos
namespace Analysis
namespace Clustering

open Assignment Forest Relation

/-! ## Union-find -/

structure UnionFind (N : Nat) where
  parent : Fin N → Fin N
  rank : Fin N → Nat

namespace UnionFind

variable {N : Nat}

def new : UnionFind N := ⟨id, fun _ => 0⟩

def findLoop : Nat → UnionFind N → Fin N → Option (UnionFind N × Fin N)
  | 0, _, _ => none
  | turns + 1, uf, x =>
      if uf.parent x = x then some (uf, x)
      else
        let uf := { uf with parent := Function.update uf.parent x (uf.parent (uf.parent x)) }
        findLoop turns uf (uf.parent x)

def find (uf : UnionFind N) (x : Fin N) : Option (UnionFind N × Fin N) := findLoop N uf x

def union (uf : UnionFind N) (a b : Fin N) : Option (UnionFind N) := do
  let (uf, ra) ← uf.find a
  let (uf, rb) ← uf.find b
  if ra = rb then some uf
  else if uf.rank ra < uf.rank rb then
    some { uf with parent := Function.update uf.parent ra rb }
  else
    let uf := { uf with parent := Function.update uf.parent rb ra }
    if uf.rank ra = uf.rank rb then
      -- `rank` is a `u8`
      if uf.rank ra + 1 < 256 then
        some { uf with rank := Function.update uf.rank ra (uf.rank ra + 1) }
      else none
    else some uf

end UnionFind

/-! ## The clusterer -/

abbrev Point (K : Type) := K × K × K

structure Cluster (K : Type) where
  centroidX : K
  centroidY : K
  maxValue : K
  count : Nat

inductive ClusterError where
  | full
  deriving DecidableEq

structure SpatialClusterer (K : Type) (N : Nat) where
  uf : UnionFind N
  points : List (Point K)
  radius : K
  room : points.length ≤ N

structure Accum (K : Type) where
  sumX : K
  sumY : K
  maxValue : K
  count : Nat

def Accum.EMPTY {K : Type} [Zero K] : Accum K := ⟨0, 0, 0, 0⟩

def Accum.toCluster {K : Type} [Field K] (a : Accum K) : Cluster K :=
  let n : K := a.count
  { centroidX := a.sumX / n
    centroidY := a.sumY / n
    maxValue := a.maxValue
    count := a.count }

/-- The test of the code, on exact numbers. -/
def withinRadius {K : Type} [Field K] [LinearOrder K] (radius : K) (p q : K × K) : Bool :=
  let dx := p.1 - q.1
  let dy := p.2 - q.2
  dx * dx + dy * dy ≤ radius * radius

section Clusterer

variable {K : Type} {N : Nat} (within : K → K × K → K × K → Bool)

namespace SpatialClusterer

def new (radius : K) : SpatialClusterer K N := ⟨UnionFind.new, [], radius, Nat.zero_le N⟩

/-- One turn of the loop of `add`, for the point at `idx` and an earlier one. -/
def meet (s : SpatialClusterer K N) (x y : K) (idx : Fin N) (uf : UnionFind N)
    (j : Fin s.points.length) : Option (UnionFind N) :=
  let p := s.points.get j
  if within s.radius (x, y) (p.1, p.2.1) then uf.union idx (j.castLE s.room) else some uf

def add (s : SpatialClusterer K N) (x y value : K) :
    Option (Except ClusterError Unit × SpatialClusterer K N) :=
  if h : s.points.length < N then do
    let idx : Fin N := ⟨s.points.length, h⟩
    let uf ← (List.finRange s.points.length).foldlM (s.meet within x y idx) s.uf
    return (.ok (),
      { uf
        points := s.points ++ [(x, y, value)]
        radius := s.radius
        room := by rw [List.length_append]; exact h })
  else some (.error .full, s)

/-- The points one after the other, whatever `add` answers. -/
def addAll (s : SpatialClusterer K N) (points : List (Point K)) : Option (SpatialClusterer K N) :=
  points.foldlM (fun s p => (s.add within p.1 p.2.1 p.2.2).map Prod.snd) s

variable [Field K] [LinearOrder K]

/-- One turn of the loop of `clusters`. -/
def gather (s : SpatialClusterer K N) (state : UnionFind N × (Fin N → Accum K))
    (i : Fin s.points.length) : Option (UnionFind N × (Fin N → Accum K)) := do
  let (uf, root) ← state.1.find (i.castLE s.room)
  let (x, y, v) := s.points.get i
  let a := state.2 root
  -- `count` is a `u16`
  if a.count + 1 < 65536 then
    some (uf, Function.update state.2 root
      { sumX := a.sumX + x
        sumY := a.sumY + y
        maxValue := if v > a.maxValue then v else a.maxValue
        count := a.count + 1 })
  else none

/-- The clusters, and the clusterer after the walks to the roots. -/
def clusters (s : SpatialClusterer K N) : Option (List (Cluster K) × SpatialClusterer K N) := do
  let (uf, accum) ← (List.finRange s.points.length).foldlM s.gather (s.uf, fun _ => Accum.EMPTY)
  return ((((List.finRange N).map accum).filter fun a => a.count > 0).map Accum.toCluster,
    { s with uf })

end SpatialClusterer

/-- What `clusters` yields after the points. -/
def report [Field K] [LinearOrder K] (N : Nat) (radius : K) (points : List (Point K)) :
    Option (List (Cluster K)) := do
  let s ← (SpatialClusterer.new radius : SpatialClusterer K N).addAll within points
  let (clusters, _) ← s.clusters
  return clusters

end Clusterer

/-! ## Walks and links -/

namespace UnionFind

variable {N : Nat} {uf : UnionFind N} {rep : Fin N → Fin N}

/-- Every turn climbs to a larger rank, and ranks are below `N`. -/
theorem findLoop_eq (h : Ranked uf.parent uf.rank rep) {turns : Nat} {x : Fin N}
    (hturns : N ≤ uf.rank x + turns) :
    ∃ uf', findLoop turns uf x = some (uf', rep x) ∧ uf'.rank = uf.rank ∧
      Ranked uf'.parent uf'.rank rep := by
  induction turns generalizing uf x with
  | zero =>
    have hlt := h.rank_lt x
    rw [Fintype.card_fin] at hlt
    omega
  | succ turns ih =>
    rw [findLoop]
    by_cases hroot : uf.parent x = x
    · rw [if_pos hroot, (h.root x).1 hroot]
      exact ⟨uf, rfl, rfl, h⟩
    · rw [if_neg hroot]
      have hclimb := Nat.lt_of_lt_of_le (h.up x hroot) (h.le_parent (uf.parent x))
      have hnext : N ≤ uf.rank (uf.parent (uf.parent x)) + turns := by omega
      obtain ⟨uf', hloop, hrank, hranked⟩ :=
        @ih { uf with parent := Function.update uf.parent x (uf.parent (uf.parent x)) }
          (h.halve x) (uf.parent (uf.parent x)) hnext
      refine ⟨uf', ?_, hrank, hranked⟩
      simp only [Function.update_self]
      rw [hloop, h.rep_parent, h.rep_parent]

theorem find_eq (h : Ranked uf.parent uf.rank rep) (x : Fin N) :
    ∃ uf', uf.find x = some (uf', rep x) ∧ uf'.rank = uf.rank ∧
      Ranked uf'.parent uf'.rank rep :=
  findLoop_eq h (Nat.le_add_left N _)

theorem rank_small (h : Ranked uf.parent uf.rank rep) (hN : N ≤ 65535) (x : Fin N) :
    uf.rank x < 16 := by
  have hle := h.two_pow_rank_le x
  rw [Fintype.card_fin] at hle
  refine (Nat.pow_lt_pow_iff_right (show 1 < 2 by omega)).1 ?_
  omega

theorem union_eq (h : Ranked uf.parent uf.rank rep) (hN : N ≤ 65535) (a b : Fin N) :
    ∃ uf' rep', uf.union a b = some uf' ∧ Ranked uf'.parent uf'.rank rep' ∧
      Joins rep rep' a b := by
  obtain ⟨uf₁, hfind₁, -, h₁⟩ := find_eq h a
  obtain ⟨uf₂, hfind₂, -, h₂⟩ := find_eq h₁ b
  simp only [union, hfind₁, hfind₂, Option.bind_eq_bind, Option.bind_some]
  by_cases hsame : rep a = rep b
  · rw [if_pos hsame]
    exact ⟨uf₂, rep, rfl, h₂, joins_self hsame⟩
  rw [if_neg hsame]
  have hra := h₂.rep_rep a
  have hrb := h₂.rep_rep b
  by_cases hlt : uf₂.rank (rep a) < uf₂.rank (rep b)
  · rw [if_pos hlt]
    have hlink := h₂.link hrb hra (Ne.symm hsame) (Nat.le_refl _) hlt (Nat.le_add_right _ _)
    rw [Function.update_eq_self] at hlink
    exact ⟨_, _, rfl, hlink, (joins_merge rep b a).symm⟩
  rw [if_neg hlt]
  by_cases heq : uf₂.rank (rep a) = uf₂.rank (rep b)
  · have hsmall := rank_small h₂ hN (rep a)
    rw [if_pos heq, if_pos (by omega)]
    have hlink := h₂.link hra hrb hsame (Nat.le_succ _) (Nat.lt_succ_of_le (Nat.le_of_eq heq.symm))
      (by rw [← heq, Nat.pow_succ, Nat.mul_two])
    exact ⟨_, _, rfl, hlink, joins_merge rep a b⟩
  · rw [if_neg heq]
    have hlink := h₂.link hra hrb hsame (Nat.le_refl _) (by omega) (Nat.le_add_right _ _)
    rw [Function.update_eq_self] at hlink
    exact ⟨_, _, rfl, hlink, joins_merge rep a b⟩

end UnionFind

/-! ## Adding points -/

section Adding

variable {K : Type} {N : Nat} {within : K → K × K → K × K → Bool}

def Point.place (p : Point K) : K × K := (p.1, p.2.1)

/-- The pairs that `add` has tested and found near, the later point first. -/
def Tested (within : K → K × K → K × K → Bool) (radius : K) (points : List (Point K))
    (i j : Fin N) : Prop :=
  j < i ∧ ∃ p q, points[i.val]? = some p ∧ points[j.val]? = some q ∧
    within radius p.place q.place = true

/-- The forest holds the classes of the points so far. -/
structure Inv (within : K → K × K → K × K → Bool) (s : SpatialClusterer K N)
    (rep : Fin N → Fin N) : Prop where
  ranked : Ranked s.uf.parent s.uf.rank rep
  represents : Represents rep (Tested within s.radius s.points)

theorem inv_new (radius : K) :
    Inv within (SpatialClusterer.new radius : SpatialClusterer K N) id where
  ranked := ranked_id
  represents := by
    refine represents_id.congr (fun x y h => by cases h) fun x y h => ?_
    obtain ⟨-, p, q, hp, -⟩ := h
    cases hp

variable {s : SpatialClusterer K N} {rep : Fin N → Fin N}

/-- Beside those, the pairs of the new point with the points seen so far. -/
def Seen (within : K → K × K → K × K → Bool) (s : SpatialClusterer K N) (x y : K) (idx : Fin N)
    (seen : List (Fin s.points.length)) (i j : Fin N) : Prop :=
  Tested within s.radius s.points i j ∨ (i = idx ∧ ∃ k ∈ seen, j = k.castLE s.room ∧
    within s.radius (x, y) (Point.place (s.points.get k)) = true)

theorem seen_append {x y : K} {idx : Fin N} {before : List (Fin s.points.length)}
    {k : Fin s.points.length} {i j : Fin N} :
    Seen within s x y idx (before ++ [k]) i j ↔ Seen within s x y idx before i j ∨
      (i = idx ∧ j = k.castLE s.room ∧
        within s.radius (x, y) (Point.place (s.points.get k)) = true) := by
  simp only [Seen, List.mem_append, List.mem_singleton, or_and_right, exists_or, exists_eq_left,
    and_or_left, or_assoc]

/-- The loop of `add` joins the new point with every near one. -/
theorem meet_foldlM (h : Inv within s rep) (hN : N ≤ 65535) (x y : K) (idx : Fin N) :
    ∃ uf, (List.finRange s.points.length).foldlM (s.meet within x y idx) s.uf = some uf ∧
      ∃ rep', Ranked uf.parent uf.rank rep' ∧
        Represents rep' (Seen within s x y idx (List.finRange s.points.length)) := by
  refine foldlM_of_inv (s.meet within x y idx) (fun before uf => ∃ rep',
    Ranked uf.parent uf.rank rep' ∧ Represents rep' (Seen within s x y idx before)) _ _ ?_ ?_
  · refine ⟨rep, h.ranked, h.represents.congr (fun i j hij => .rel _ _ (.inl hij)) ?_⟩
    intro i j hij
    refine .rel _ _ (hij.resolve_right ?_)
    simp
  intro before k after uf _ hinv
  obtain ⟨rep₁, hranked, hrep⟩ := hinv
  unfold SpatialClusterer.meet
  by_cases hnear : within s.radius (x, y) (Point.place (s.points.get k)) = true
  · obtain ⟨uf', rep', hunion, hranked', hjoins⟩ :=
      UnionFind.union_eq hranked hN idx (k.castLE s.room)
    refine ⟨uf', (if_pos hnear).trans hunion, rep', hranked', ?_⟩
    refine (hrep.join hjoins).congr (fun i j hij => .rel _ _ ?_) fun i j hij => .rel _ _ ?_
    · exact seen_append.2 (hij.imp_right fun hk => ⟨hk.1, hk.2, hnear⟩)
    · exact (seen_append.1 hij).imp_right fun hk => ⟨hk.1, hk.2.1⟩
  · refine ⟨uf, if_neg hnear, rep₁, hranked, ?_⟩
    refine hrep.congr (fun i j hij => .rel _ _ ?_) fun i j hij => .rel _ _ ?_
    · exact seen_append.2 (.inl hij)
    · exact (seen_append.1 hij).resolve_right fun hk => hnear hk.2.2

theorem tested_append {x y value : K} {idx : Fin N} (hidx : idx.val = s.points.length)
    {i j : Fin N} :
    Tested within s.radius (s.points ++ [(x, y, value)]) i j ↔
      Seen within s x y idx (List.finRange s.points.length) i j := by
  constructor
  · intro h
    obtain ⟨hji, p, q, hp, hq, hnear⟩ := h
    have hlt : j.val < i.val := hji
    have hi : i.val < s.points.length + 1 := by
      have hlen := (List.getElem?_eq_some_iff.1 hp).1
      rw [List.length_append] at hlen
      exact hlen
    have hj : j.val < s.points.length := by omega
    rw [List.getElem?_append_left hj] at hq
    by_cases hold : i.val < s.points.length
    · rw [List.getElem?_append_left hold] at hp
      exact .inl ⟨hji, p, q, hp, hq, hnear⟩
    · have hlast : i.val = s.points.length := by omega
      rw [hlast, List.getElem?_concat_length, Option.some.injEq] at hp
      refine .inr ⟨Fin.ext (hlast.trans hidx.symm), ⟨j.val, hj⟩, List.mem_finRange _, rfl, ?_⟩
      rw [← hp, ← (List.getElem?_eq_some_iff.1 hq).2] at hnear
      exact hnear
  · intro h
    cases h with
    | inl hold =>
      obtain ⟨hji, p, q, hp, hq, hnear⟩ := hold
      have hi := (List.getElem?_eq_some_iff.1 hp).1
      have hj := (List.getElem?_eq_some_iff.1 hq).1
      refine ⟨hji, p, q, ?_, ?_, hnear⟩
      · rw [List.getElem?_append_left hi, hp]
      · rw [List.getElem?_append_left hj, hq]
    | inr hnew =>
      obtain ⟨hi, k, -, hj, hnear⟩ := hnew
      have hlast : i.val = s.points.length := by rw [hi, hidx]
      have hjk : j.val = k.val := by rw [hj, Fin.val_castLE]
      refine ⟨Fin.lt_def.2 (by omega), (x, y, value), s.points.get k, ?_, ?_, hnear⟩
      · rw [hlast, List.getElem?_concat_length]
      · rw [hjk, List.getElem?_append_left k.isLt, List.getElem?_eq_getElem k.isLt]
        rfl

theorem add_eq (h : Inv within s rep) (hN : N ≤ 65535) (hroom : s.points.length < N)
    (x y value : K) :
    ∃ s', s.add within x y value = some (.ok (), s') ∧ s'.radius = s.radius ∧
      s'.points = s.points ++ [(x, y, value)] ∧ ∃ rep', Inv within s' rep' := by
  obtain ⟨uf, hfold, rep', hranked, hrep⟩ := meet_foldlM h hN x y ⟨s.points.length, hroom⟩
  have hlen : (s.points ++ [(x, y, value)]).length ≤ N := by
    rw [List.length_append]
    exact hroom
  refine ⟨⟨uf, s.points ++ [(x, y, value)], s.radius, hlen⟩, ?_, rfl, rfl, rep', hranked, ?_⟩
  · simp only [SpatialClusterer.add, dif_pos hroom, hfold, Option.bind_eq_bind, Option.bind_some]
    rfl
  · exact hrep.congr (fun i j hij => .rel _ _ ((tested_append rfl).2 hij))
      fun i j hij => .rel _ _ ((tested_append rfl).1 hij)

theorem addAll_eq (hN : N ≤ 65535) {points : List (Point K)} (h : Inv within s rep)
    (hroom : s.points.length + points.length ≤ N) :
    ∃ s', s.addAll within points = some s' ∧ s'.radius = s.radius ∧
      s'.points = s.points ++ points ∧ ∃ rep', Inv within s' rep' := by
  induction points generalizing s rep with
  | nil => exact ⟨s, rfl, rfl, (List.append_nil _).symm, rep, h⟩
  | cons p points ih =>
    rw [List.length_cons] at hroom
    obtain ⟨s₁, hadd, hradius₁, hpoints₁, rep₁, h₁⟩ := add_eq h hN (by omega) p.1 p.2.1 p.2.2
    have hlen : s₁.points.length = s.points.length + 1 := by
      rw [hpoints₁, List.length_append, List.length_singleton]
    obtain ⟨s', hall, hradius, hpoints, hinv⟩ := ih h₁ (by omega)
    refine ⟨s', ?_, hradius.trans hradius₁, ?_, hinv⟩
    · rw [SpatialClusterer.addAll, List.foldlM_cons, hadd]
      exact hall
    · rw [hpoints, hpoints₁, List.append_assoc]
      rfl

theorem add_full {s' : SpatialClusterer K N} {x y value : K}
    (h : s.add within x y value = some (.error .full, s')) : s' = s := by
  unfold SpatialClusterer.add at h
  split at h
  · rw [Option.bind_eq_bind, Option.bind_eq_some_iff] at h
    obtain ⟨uf, -, h⟩ := h
    cases h
  · cases h
    rfl

end Adding

/-! ## Gathering the clusters -/

section Gathering

variable {K : Type} [Field K] [LinearOrder K] {N : Nat} {s : SpatialClusterer K N}
  {rep : Fin N → Fin N}

def Accum.absorb (a : Accum K) (p : Point K) : Accum K where
  sumX := a.sumX + p.1
  sumY := a.sumY + p.2.1
  maxValue := if p.2.2 > a.maxValue then p.2.2 else a.maxValue
  count := a.count + 1

def gathered (points : List (Point K)) : Accum K := points.foldl Accum.absorb Accum.EMPTY

theorem gathered_append (points : List (Point K)) (p : Point K) :
    gathered (points ++ [p]) = (gathered points).absorb p := by
  simp [gathered]

theorem count_gathered (points : List (Point K)) : (gathered points).count = points.length := by
  induction points using List.reverseRecOn with
  | nil => rfl
  | append_singleton points p ih =>
    rw [gathered_append, List.length_append, ← ih]
    rfl

theorem maxValue_gathered_le (points : List (Point K)) (b : WithBot K) :
    ((gathered points).maxValue : WithBot K) ≤ b ↔
      (0 : K) ≤ b ∧ ∀ p ∈ points, (p.2.2 : WithBot K) ≤ b := by
  induction points using List.reverseRecOn with
  | nil => simp [gathered, Accum.EMPTY]
  | append_singleton points p ih =>
    have hmax : ((gathered points).absorb p).maxValue = max (gathered points).maxValue p.2.2 := by
      rw [Accum.absorb]
      by_cases h : p.2.2 > (gathered points).maxValue
      · rw [if_pos h, max_eq_right h.le]
      · rw [if_neg h, max_eq_left (not_lt.1 h)]
    rw [gathered_append, hmax, WithBot.coe_max, max_le_iff, ih, and_assoc]
    simp only [List.mem_append, List.mem_singleton, or_imp, forall_and, forall_eq]

/-- The points below a root among those with the given indices. -/
def under (s : SpatialClusterer K N) (rep : Fin N → Fin N) (r : Fin N)
    (indices : List (Fin s.points.length)) : List (Point K) :=
  (indices.filter fun i => rep (i.castLE s.room) = r).map s.points.get

omit [Field K] [LinearOrder K] in
theorem under_append (r : Fin N) (before : List (Fin s.points.length))
    (i : Fin s.points.length) :
    under s rep r (before ++ [i]) =
      if rep (i.castLE s.room) = r then under s rep r before ++ [s.points.get i]
      else under s rep r before := by
  unfold under
  by_cases h : rep (i.castLE s.room) = r <;> simp [h]

theorem gather_foldlM (h : Ranked s.uf.parent s.uf.rank rep) (hN : N ≤ 65535) :
    ∃ state, (List.finRange s.points.length).foldlM s.gather (s.uf, fun _ => Accum.EMPTY) =
        some state ∧ Ranked state.1.parent state.1.rank rep ∧
      ∀ r, state.2 r = gathered (under s rep r (List.finRange s.points.length)) := by
  refine foldlM_of_inv s.gather (fun before state => Ranked state.1.parent state.1.rank rep ∧
    ∀ r, state.2 r = gathered (under s rep r before)) _ _ ⟨h, fun r => rfl⟩ ?_
  intro before i after state hsplit hinv
  obtain ⟨uf', hfind, -, hranked⟩ := UnionFind.find_eq hinv.1 (i.castLE s.room)
  have hcount : (state.2 (rep (i.castLE s.room))).count + 1 < 65536 := by
    have hlen := congrArg List.length hsplit
    rw [List.length_finRange, List.length_append, List.length_cons] at hlen
    have hroom := s.room
    rw [hinv.2, count_gathered, under, List.length_map]
    have hle := List.length_filter_le
      (fun k : Fin s.points.length => decide (rep (k.castLE s.room) = rep (i.castLE s.room))) before
    omega
  refine ⟨(uf', Function.update state.2 (rep (i.castLE s.room))
    ((state.2 (rep (i.castLE s.room))).absorb (s.points.get i))), ?_, hranked, ?_⟩
  · simp only [SpatialClusterer.gather, hfind, Option.bind_eq_bind, Option.bind_some,
      if_pos hcount]
    rfl
  · intro r
    rw [under_append]
    by_cases hr : rep (i.castLE s.room) = r
    · rw [if_pos hr, hr]
      show Function.update _ r _ r = _
      rw [Function.update_self, gathered_append, hinv.2]
    · rw [if_neg hr]
      show Function.update _ _ _ r = _
      rw [Function.update_of_ne (Ne.symm hr), hinv.2]

def byRoot (s : SpatialClusterer K N) (rep : Fin N → Fin N) : List (Cluster K) :=
  (((List.finRange N).map fun r =>
    gathered (under s rep r (List.finRange s.points.length))).filter fun a => a.count > 0).map
      Accum.toCluster

theorem clusters_eq (h : Ranked s.uf.parent s.uf.rank rep) (hN : N ≤ 65535) :
    ∃ s', s.clusters = some (byRoot s rep, s') ∧ s'.points = s.points ∧ s'.radius = s.radius ∧
      Ranked s'.uf.parent s'.uf.rank rep := by
  obtain ⟨state, hfold, hranked, hgathered⟩ := gather_foldlM h hN
  refine ⟨{ s with uf := state.1 }, ?_, rfl, rfl, hranked⟩
  have haccum := funext hgathered
  simp only [SpatialClusterer.clusters, hfold, Option.bind_eq_bind, Option.bind_some, haccum]
  rfl

end Gathering

/-! ## The components -/

section Components

variable {K : Type} [Field K] [LinearOrder K] {N : Nat}

/-- Two points within the radius. -/
def Near (within : K → K × K → K × K → Bool) (radius : K) (points : List (Point K))
    (i j : Fin points.length) : Prop :=
  within radius (points.get i).place (points.get j).place = true

/-- The number of points of a component and its largest value. -/
def summary (points : List (Point K)) (C : Finset (Fin points.length)) : Nat × WithBot K :=
  (C.card, C.sup fun i => ((points.get i).2.2 : WithBot K))

def shown (cs : List (Cluster K)) : Multiset (Nat × WithBot K) :=
  cs.map fun c => (c.count, (c.maxValue : WithBot K))

/-- Every component of the points with its size and its largest value. -/
noncomputable def components (within : K → K × K → K × K → Bool) (radius : K)
    (points : List (Point K)) : Multiset (Nat × WithBot K) :=
  (classes (Near within radius points)).val.map (summary points)

/-- The same with the largest value cut off at zero. -/
noncomputable def cutComponents (within : K → K × K → K × K → Bool) (radius : K)
    (points : List (Point K)) : Multiset (Nat × WithBot K) :=
  (classes (Near within radius points)).val.map fun C =>
    ((summary points C).1, max ((0 : K) : WithBot K) (summary points C).2)

section Keys

variable {within : K → K × K → K × K → Bool} {s : SpatialClusterer K N} {rep : Fin N → Fin N}

omit [Field K] [LinearOrder K] in
theorem Inv.represents_near (h : Inv within s rep)
    (hsymm : ∀ p q, within s.radius p q = within s.radius q p) :
    Represents (rep ∘ Fin.castLE s.room) (Near within s.radius s.points) := by
  have hlater : Represents (rep ∘ Fin.castLE s.room)
      fun i j => j < i ∧ Near within s.radius s.points i j := by
    refine h.represents.comp (Fin.castLE_injective s.room) ?_ ?_
    · intro i j hij
      obtain ⟨hji, p, q, hp, hq, hnear⟩ := hij
      obtain ⟨hi, hpi⟩ := List.getElem?_eq_some_iff.1 hp
      obtain ⟨hj, hqj⟩ := List.getElem?_eq_some_iff.1 hq
      refine ⟨⟨i, hi⟩, ⟨j, hj⟩, rfl, rfl, hji, ?_⟩
      rw [← hpi, ← hqj] at hnear
      exact hnear
    · intro i j hij
      exact ⟨hij.1, _, _, List.getElem?_eq_getElem i.isLt, List.getElem?_eq_getElem j.isLt, hij.2⟩
  refine hlater.congr (fun i j hij => .rel _ _ hij.2) fun i j hij => ?_
  cases lt_trichotomy i j with
  | inl hlt =>
    have hback : Near within s.radius s.points j i := (hsymm _ _).trans hij
    exact .symm _ _ (.rel _ _ ⟨hlt, hback⟩)
  | inr hge =>
    cases hge with
    | inl heq => exact heq ▸ .refl i
    | inr hgt => exact .rel _ _ ⟨hgt, hij⟩

theorem filter_univ_val {n : Nat} (p : Fin n → Prop) [DecidablePred p] :
    (Finset.univ.filter p).val = ((List.finRange n).filter p : List (Fin n)) := rfl

theorem summary_gathered (s : SpatialClusterer K N) (rep : Fin N → Fin N) {r : Fin N}
    {C : Finset (Fin s.points.length)} (hC : ∀ i, i ∈ C ↔ rep (i.castLE s.room) = r) :
    ((gathered (under s rep r (List.finRange s.points.length))).count,
      ((gathered (under s rep r (List.finRange s.points.length))).maxValue : WithBot K)) =
        ((summary s.points C).1, max ((0 : K) : WithBot K) (summary s.points C).2) := by
  have hfilter : C = Finset.univ.filter fun i => rep (i.castLE s.room) = r := by
    ext i
    simp [hC]
  have hcount : (gathered (under s rep r (List.finRange s.points.length))).count = C.card := by
    rw [count_gathered, under, List.length_map, hfilter, Finset.card_def, filter_univ_val,
      Multiset.coe_card]
  have hmax : ((gathered (under s rep r (List.finRange s.points.length))).maxValue : WithBot K) =
      max ((0 : K) : WithBot K) (summary s.points C).2 := by
    refine eq_of_forall_ge_iff fun b => ?_
    rw [maxValue_gathered_le, max_le_iff, summary, Finset.sup_le_iff]
    simp [under, hC]
  rw [hmax, hcount]
  rfl

theorem shown_byRoot (h : Inv within s rep)
    (hsymm : ∀ p q, within s.radius p q = within s.radius q p) :
    shown (byRoot s rep) = cutComponents within s.radius s.points := by
  classical
  have hkey := h.represents_near hsymm
  rw [cutComponents, ← hkey.classes_map]
  have hcount : ∀ r : Fin N,
      (gathered (under s rep r (List.finRange s.points.length))).count > 0 ↔
        ∃ i, (rep ∘ Fin.castLE s.room) i = r := by
    intro r
    rw [count_gathered, under, List.length_map, gt_iff_lt, List.length_pos_iff_exists_mem]
    simp
  rw [shown, byRoot, List.map_map, List.filter_map, List.map_map, filter_univ_val,
    Multiset.map_coe]
  refine congrArg _ ((congrArg (List.map _) (List.filter_congr fun r _ => ?_)).trans
    (List.map_congr_left fun r _ => summary_gathered s rep fun i => by simp))
  exact decide_eq_decide.2 (hcount r)

theorem report_eq {radius : K} {points : List (Point K)}
    (hsymm : ∀ p q, within radius p q = within radius q p) (hN : N ≤ 65535)
    (hlen : points.length ≤ N) :
    ∃ cs, report within N radius points = some cs ∧
      shown cs = cutComponents within radius points := by
  have hnew : Inv within (SpatialClusterer.new radius : SpatialClusterer K N) id := inv_new radius
  obtain ⟨s, hall, hradius, hpoints, rep, hinv⟩ := addAll_eq hN hnew
    (show 0 + points.length ≤ N by omega)
  obtain ⟨s', hclusters, -⟩ := clusters_eq hinv.ranked hN
  have hr : s.radius = radius := hradius
  have hp : s.points = points := hpoints
  refine ⟨byRoot s rep, ?_, ?_⟩
  · simp only [report, hall, hclusters, Option.bind_eq_bind, Option.bind_some]
    rfl
  · rw [← hp, ← hr]
    exact shown_byRoot hinv fun p q => by rw [hr, hsymm]

end Keys

/-! ## What the clusters say -/

section Correctness

variable {within : K → K × K → K × K → Bool} {radius : K} {points : List (Point K)}

theorem exists_equiv_of_perm {α : Type} {l l' : List α} (h : l.Perm l') :
    ∃ e : Fin l.length ≃ Fin l'.length, ∀ i, l'.get (e i) = l.get i := by
  classical
  exact ⟨⟨h.idxBij, h.symm.idxBij, h.idxBij_rightInverse_idxBij_symm,
    h.idxBij_leftInverse_idxBij_symm⟩, h.getElem_idxBij_eq_getElem⟩

theorem cutComponents_perm {points' : List (Point K)} (h : points'.Perm points) :
    cutComponents within radius points' = cutComponents within radius points := by
  obtain ⟨e, he⟩ := exists_equiv_of_perm h
  refine classes_equiv e (fun i j => ?_) fun C => ?_
  · rw [Near, Near, he, he]
  · rw [summary, summary, Finset.card_map, Finset.sup_map]
    simp only [Function.comp_def, Equiv.coe_toEmbedding, he]

/-- The largest value of a component is not negative. -/
def NonnegIn (within : K → K × K → K × K → Bool) (radius : K) (points : List (Point K)) : Prop :=
  ∀ C ∈ classes (Near within radius points), ∃ i ∈ C, 0 ≤ (points.get i).2.2

theorem cutComponents_eq_iff :
    cutComponents within radius points = components within radius points ↔
      NonnegIn within radius points := by
  have hsup : ∀ C : Finset (Fin points.length),
      ((0 : K) : WithBot K) ≤ (summary points C).2 ↔ ∃ i ∈ C, 0 ≤ (points.get i).2.2 := by
    intro C
    rw [summary, Finset.le_sup_iff (WithBot.bot_lt_coe 0)]
    simp only [WithBot.coe_le_coe]
  constructor
  · intro h C hC
    have hmem : summary points C ∈ components within radius points :=
      Multiset.mem_map_of_mem _ hC
    rw [← h, cutComponents, Multiset.mem_map] at hmem
    obtain ⟨C', -, hC'⟩ := hmem
    rw [← hsup, ← hC']
    exact le_max_left _ _
  · intro h
    refine Multiset.map_congr rfl fun C hC => ?_
    rw [max_eq_right ((hsup C).2 (h C hC))]

/-- The clusters are the components, in whatever order the points came. -/
structure Correct (within : K → K × K → K × K → Bool) (N : Nat) (radius : K)
    (points : List (Point K)) : Prop where
  /-- Every walk to a root ends and no counter overflows. -/
  reported : ∃ cs, report within N radius points = some cs ∧
    shown cs = components within radius points
  anyOrder : ∀ points', points'.Perm points → ∃ cs cs', report within N radius points = some cs ∧
    report within N radius points' = some cs' ∧ shown cs' = shown cs
  full : ∀ (s s' : SpatialClusterer K N) (x y value : K),
    s.add within x y value = some (.error .full, s') → s' = s

/-- Clusters are right exactly when no component has negative values only. -/
theorem correct_iff (hsymm : ∀ p q, within radius p q = within radius q p) (hN : N ≤ 65535)
    (hlen : points.length ≤ N) :
    Correct within N radius points ↔ NonnegIn within radius points := by
  obtain ⟨cs, hreport, hshown⟩ := report_eq hsymm hN hlen
  rw [← cutComponents_eq_iff]
  constructor
  · intro h
    obtain ⟨cs', hreport', hshown'⟩ := h.reported
    rw [hreport, Option.some.injEq] at hreport'
    rw [← hshown, hreport', hshown']
  · intro h
    refine ⟨⟨cs, hreport, hshown.trans h⟩, fun points' hperm => ?_, fun s s' x y value => add_full⟩
    obtain ⟨cs', hreport', hshown'⟩ := report_eq hsymm hN (hperm.length_eq.trans_le hlen)
    refine ⟨cs, cs', hreport, hreport', ?_⟩
    rw [hshown', hshown, cutComponents_perm hperm]

end Correctness

omit [LinearOrder K] in
theorem square_symm (a b : K) : (a - b) * (a - b) = (b - a) * (b - a) := by
  rw [← neg_sub b a, neg_mul_neg]

theorem withinRadius_symm (radius : K) (p q : K × K) :
    withinRadius radius p q = withinRadius radius q p := by
  simp only [withinRadius, square_symm p.1, square_symm p.2]

end Components

/-- A hot point beside a cold one, at the distance of the radius. -/
theorem correct_iff_pair :
    Correct (withinRadius : ℚ → ℚ × ℚ → ℚ × ℚ → Bool) 2 1 [(0, 0, 1), (1, 0, -1)] := by
  refine (correct_iff (withinRadius_symm 1) (by decide) (by decide)).2 ?_
  intro C hC
  obtain ⟨x, hx⟩ := mem_classes.1 hC
  refine ⟨(0 : Fin 2), (hx _).2 ?_, by simp⟩
  match x with
  | 0 => exact .refl _
  | 1 => exact .rel _ _ (show withinRadius (1 : ℚ) (1, 0) (0, 0) = true by simp [withinRadius])

/-- A single cold point is reported with the value zero. -/
theorem not_correct_cold :
    ¬ Correct (withinRadius : ℚ → ℚ × ℚ → ℚ × ℚ → Bool) 1 1 [(0, 0, -1)] := by
  intro h
  obtain ⟨cs, hreport, hshown⟩ := h.reported
  obtain ⟨cs', hreport', hshown'⟩ := @report_eq ℚ _ _ 1 withinRadius 1 [(0, 0, -1)]
    (withinRadius_symm 1) (by decide) (by decide)
  rw [hreport, Option.some.injEq] at hreport'
  rw [hreport', hshown'] at hshown
  have hwhole : Finset.univ ∈ classes (Near (withinRadius : ℚ → _) 1 [(0, 0, -1)]) :=
    mem_classes.2 ⟨(0 : Fin 1), fun y => by
      match y with
      | 0 => simp [EqvGen.refl]⟩
  obtain ⟨i, -, hi⟩ := cutComponents_eq_iff.1 hshown _ hwhole
  have hcold : ¬ (0 : ℚ) ≤ -1 := not_le.2 (neg_lt_zero.2 one_pos)
  match i with
  | 0 => exact hcold hi

end Clustering
end Analysis
end Leodos
