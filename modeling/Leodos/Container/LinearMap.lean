/-
A bounded map over a vector of entries.

Lookup scans the entries, insertion appends while there is room, and removal moves
the last entry into the hole, so the order of the entries is not the order of their
insertion.  Everything a user needs to know about the values is `get` after each
operation.
-/
import Mathlib.Data.List.Nodup
import Mathlib.Data.List.Perm.Basic

namespace Leodos
namespace Container

/-! ## Removal from a vector -/

/-- Remove entry `i` by moving the last entry into its place. -/
def swapRemove {α : Type} (i : Nat) (l : List α) : List α :=
  match l.getLast? with
  | none => []
  | some last => (l.set i last).dropLast

theorem swapRemove_perm {α : Type} {i : Nat} {l : List α} (h : i < l.length) :
    (swapRemove i l).Perm (l.eraseIdx i) := by
  rcases List.eq_nil_or_concat l with rfl | ⟨front, last, rfl⟩
  · simp at h
  · rw [List.concat_eq_append] at h ⊢
    simp only [swapRemove, List.getLast?_append, List.getLast?_singleton, Option.some_or]
    rw [List.length_append, List.length_singleton] at h
    by_cases hi : i < front.length
    · rw [List.set_append_left _ _ hi, List.dropLast_concat, List.eraseIdx_append_of_lt_length hi]
      exact (List.set_perm_cons_eraseIdx hi last).trans (List.perm_append_singleton _ _).symm
    · have hlast : i = front.length := by omega
      subst hlast
      rw [List.set_append_right _ _ (Nat.le_refl _),
        List.eraseIdx_append_of_length_le (Nat.le_refl _)]
      simp

/-! ## The map -/

structure LinearMap (κ ν : Type) (N : Nat) where
  entries : List (κ × ν)
  nodup : (entries.map Prod.fst).Nodup
  bounded : entries.length ≤ N

namespace LinearMap

variable {κ ν β : Type} {N : Nat} [DecidableEq κ]

def new (κ ν : Type) (N : Nat) : LinearMap κ ν N := ⟨[], List.nodup_nil, Nat.zero_le _⟩

def get (m : LinearMap κ ν N) (k : κ) : Option ν :=
  (m.entries.find? fun e => e.1 = k).map Prod.snd

def containsKey (m : LinearMap κ ν N) (k : κ) : Bool := (m.get k).isSome

theorem map_fst_update (k : κ) (f : ν → ν) (l : List (κ × ν)) :
    (l.map fun e => if e.1 = k then (e.1, f e.2) else e).map Prod.fst = l.map Prod.fst := by
  rw [List.map_map]
  refine List.map_congr_left fun e _ => ?_
  by_cases h : e.1 = k
  · simp [h]
  · simp [h]

/-- Change the value at `k` in place, if there is one. -/
def modify (m : LinearMap κ ν N) (k : κ) (f : ν → ν) : LinearMap κ ν N where
  entries := m.entries.map fun e => if e.1 = k then (e.1, f e.2) else e
  nodup := by rw [map_fst_update]; exact m.nodup
  bounded := by rw [List.length_map]; exact m.bounded

theorem mem_of_get {m : LinearMap κ ν N} {k : κ} {v : ν} (h : m.get k = some v) :
    (k, v) ∈ m.entries := by
  obtain ⟨e, he, rfl⟩ := Option.map_eq_some_iff.1 h
  have hk : e.1 = k := by simpa using List.find?_some he
  exact hk ▸ List.mem_of_find?_eq_some he

theorem get_of_mem {m : LinearMap κ ν N} {k : κ} {v : ν} (h : (k, v) ∈ m.entries) :
    m.get k = some v := by
  cases hg : m.get k with
  | none =>
    have hnone : ∀ e ∈ m.entries, ¬ e.1 = k := by
      simpa [get] using hg
    exact absurd rfl (hnone _ h)
  | some v' =>
    have heq := List.inj_on_of_nodup_map m.nodup (mem_of_get hg) h rfl
    exact congrArg some (congrArg Prod.snd heq)

theorem get_eq_some_iff {m : LinearMap κ ν N} {k : κ} {v : ν} :
    m.get k = some v ↔ (k, v) ∈ m.entries :=
  ⟨mem_of_get, get_of_mem⟩

theorem containsKey_iff {m : LinearMap κ ν N} {k : κ} :
    m.containsKey k = true ↔ k ∈ m.entries.map Prod.fst := by
  rw [containsKey, Option.isSome_iff_exists, List.mem_map]
  constructor
  · exact fun ⟨v, hv⟩ => ⟨(k, v), mem_of_get hv, rfl⟩
  · rintro ⟨⟨k', v⟩, he, rfl⟩
    exact ⟨v, get_of_mem he⟩

/-- Set the value at `k`, appending an entry when there is none.  A full map stays
as it is. -/
def insert (m : LinearMap κ ν N) (k : κ) (v : ν) : LinearMap κ ν N :=
  if hc : m.containsKey k = true then m.modify k fun _ => v
  else if hroom : m.entries.length < N then
    { entries := m.entries ++ [(k, v)]
      nodup := by
        rw [containsKey_iff] at hc
        rw [List.map_append, List.map_singleton]
        exact List.Nodup.append m.nodup (List.nodup_singleton k)
          (List.disjoint_singleton.2 hc)
      bounded := by rwa [List.length_append, List.length_singleton, Nat.add_one_le_iff] }
  else m

/-- The entries without the one at `k`. -/
def removed (k : κ) (l : List (κ × ν)) : List (κ × ν) :=
  match l.findIdx? fun e => e.1 = k with
  | none => l
  | some i => swapRemove i l

theorem removed_perm (k : κ) (l : List (κ × ν)) :
    (removed k l).Perm (l.eraseP fun e => e.1 = k) := by
  rw [List.eraseP_eq_eraseIdx, removed]
  cases h : l.findIdx? fun e => e.1 = k with
  | none => exact List.Perm.refl _
  | some i =>
    obtain ⟨hi, -⟩ := List.findIdx?_eq_some_iff_getElem.1 h
    exact swapRemove_perm hi

theorem mem_eraseP_key {k : κ} {l : List (κ × ν)} (h : (l.map Prod.fst).Nodup) (e : κ × ν) :
    (e ∈ l.eraseP fun x => x.1 = k) ↔ e ∈ l ∧ e.1 ≠ k := by
  induction l with
  | nil => simp
  | cons x l ih =>
    rw [List.map_cons, List.nodup_cons] at h
    by_cases hx : x.1 = k
    · rw [List.eraseP_cons_of_pos (by simpa using hx), List.mem_cons]
      constructor
      · intro he
        refine ⟨Or.inr he, fun hk => h.1 ?_⟩
        rw [hx, ← hk]
        exact List.mem_map_of_mem he
      · rintro ⟨rfl | he, hk⟩
        · exact absurd hx hk
        · exact he
    · rw [List.eraseP_cons_of_neg (by simpa using hx), List.mem_cons, List.mem_cons, ih h.2]
      constructor
      · rintro (rfl | he)
        · exact ⟨Or.inl rfl, hx⟩
        · exact ⟨Or.inr he.1, he.2⟩
      · rintro ⟨rfl | he, hk⟩
        · exact Or.inl rfl
        · exact Or.inr ⟨he, hk⟩

def remove (m : LinearMap κ ν N) (k : κ) : LinearMap κ ν N where
  entries := removed k m.entries
  nodup := by
    rw [((removed_perm k m.entries).map Prod.fst).nodup_iff]
    exact m.nodup.sublist (List.eraseP_sublist.map _)
  bounded := by
    refine Nat.le_trans ?_ m.bounded
    rw [(removed_perm k m.entries).length_eq]
    exact List.eraseP_sublist.length_le

/-- Offer the values to `f` in order until it produces a result, and keep the value
it leaves behind. -/
def findUpdate (m : LinearMap κ ν N) (f : ν → Option (β × ν)) :
    Option ((κ × β) × LinearMap κ ν N) :=
  (m.entries.findSome? fun e => (f e.2).map fun r => (e.1, r)).map
    fun (k, b, v) => ((k, b), m.modify k fun _ => v)

/-! ## Lookup after each operation -/

@[simp] theorem get_new (k : κ) : (new κ ν N).get k = none := rfl

theorem get_modify_self (m : LinearMap κ ν N) (k : κ) (f : ν → ν) :
    (m.modify k f).get k = (m.get k).map f := by
  cases h : m.get k with
  | some v =>
    refine get_of_mem (List.mem_map.2 ⟨(k, v), mem_of_get h, ?_⟩)
    rw [if_pos rfl]
  | none =>
    cases h' : (m.modify k f).get k with
    | none => rfl
    | some v' =>
      obtain ⟨e, he, heq⟩ := List.mem_map.1 (mem_of_get h')
      by_cases hk : e.1 = k
      · have hg : m.get k = some e.2 := get_of_mem (hk ▸ he)
        rw [h] at hg
        cases hg
      · rw [if_neg hk] at heq
        exact absurd (congrArg Prod.fst heq) hk

theorem get_modify_of_ne (m : LinearMap κ ν N) {k k' : κ} (hne : k' ≠ k) (f : ν → ν) :
    (m.modify k f).get k' = m.get k' := by
  refine Option.ext fun v => ?_
  rw [get_eq_some_iff, get_eq_some_iff]
  simp only [modify, List.mem_map]
  constructor
  · rintro ⟨e, he, heq⟩
    by_cases hk : e.1 = k
    · rw [if_pos hk] at heq
      exact absurd ((congrArg Prod.fst heq).symm.trans hk) hne
    · rw [if_neg hk] at heq
      exact heq ▸ he
  · intro he
    exact ⟨(k', v), he, if_neg hne⟩

theorem get_insert_self (m : LinearMap κ ν N) {k : κ} (v : ν)
    (h : m.containsKey k = true ∨ m.entries.length < N) : (m.insert k v).get k = some v := by
  unfold insert
  by_cases hc : m.containsKey k = true
  · rw [dif_pos hc, get_modify_self]
    obtain ⟨v', hv⟩ := Option.isSome_iff_exists.1 hc
    rw [hv]
    rfl
  · rw [dif_neg hc, dif_pos (h.resolve_left hc)]
    exact get_of_mem (List.mem_append_right _ (List.mem_singleton.2 rfl))

theorem insert_full {m : LinearMap κ ν N} {k : κ} (v : ν)
    (h : ¬ (m.containsKey k = true ∨ m.entries.length < N)) : m.insert k v = m := by
  unfold insert
  rw [dif_neg fun hc => h (Or.inl hc), dif_neg fun hl => h (Or.inr hl)]

theorem get_insert_of_ne (m : LinearMap κ ν N) {k k' : κ} (hne : k' ≠ k) (v : ν) :
    (m.insert k v).get k' = m.get k' := by
  unfold insert
  by_cases hc : m.containsKey k = true
  · rw [dif_pos hc, get_modify_of_ne m hne]
  · rw [dif_neg hc]
    by_cases hroom : m.entries.length < N
    · rw [dif_pos hroom]
      refine Option.ext fun v' => ?_
      rw [get_eq_some_iff, get_eq_some_iff, List.mem_append, List.mem_singleton]
      refine ⟨fun he => he.resolve_right fun h => hne (congrArg Prod.fst h), Or.inl⟩
    · rw [dif_neg hroom]

theorem get_remove_self (m : LinearMap κ ν N) (k : κ) : (m.remove k).get k = none := by
  cases h : (m.remove k).get k with
  | none => rfl
  | some v =>
    have he := (removed_perm k m.entries).mem_iff.1 (mem_of_get h)
    exact absurd rfl ((mem_eraseP_key m.nodup _).1 he).2

theorem get_remove_of_ne (m : LinearMap κ ν N) {k k' : κ} (hne : k' ≠ k) :
    (m.remove k).get k' = m.get k' := by
  refine Option.ext fun v => ?_
  rw [get_eq_some_iff, get_eq_some_iff]
  show (k', v) ∈ removed k m.entries ↔ _
  rw [(removed_perm k m.entries).mem_iff, mem_eraseP_key m.nodup]
  exact ⟨fun h => h.1, fun h => ⟨h, hne⟩⟩

theorem filter_key (m : LinearMap κ ν N) (k : κ) :
    m.entries.filter (fun e => e.1 = k) = (m.get k).toList.map fun v => (k, v) := by
  obtain ⟨l, hnodup, hbounded⟩ := m
  show l.filter _ = ((l.find? _).map Prod.snd).toList.map _
  induction l with
  | nil => rfl
  | cons x l ih =>
    rw [List.map_cons, List.nodup_cons] at hnodup
    by_cases hx : x.1 = k
    · have hrest : l.filter (fun e => decide (e.1 = k)) = [] := by
        refine List.filter_eq_nil_iff.2 fun e he hek => hnodup.1 ?_
        rw [hx, ← of_decide_eq_true hek]
        exact List.mem_map_of_mem he
      have hx' : decide (x.1 = k) = true := decide_eq_true hx
      rw [List.filter_cons, if_pos hx', List.find?_cons, hx', hrest, ← hx]
      rfl
    · have hx' : decide (x.1 = k) = false := decide_eq_false hx
      rw [List.filter_cons, if_neg (Bool.eq_false_iff.1 hx'), List.find?_cons, hx']
      exact ih hnodup.2 (Nat.le_of_succ_le hbounded)

theorem length_remove_lt {m : LinearMap κ ν N} {k : κ} {v : ν} (h : (k, v) ∈ m.entries) :
    (m.remove k).entries.length < N := by
  show (removed k m.entries).length < N
  rw [(removed_perm k m.entries).length_eq, List.length_eraseP_of_mem h (by simp)]
  have hpos := List.length_pos_of_mem h
  have hle := m.bounded
  omega

theorem findUpdate_some {m m' : LinearMap κ ν N} {f : ν → Option (β × ν)} {k : κ} {b : β}
    (h : m.findUpdate f = some ((k, b), m')) :
    ∃ v v', m.get k = some v ∧ f v = some (b, v') ∧ m' = m.modify k fun _ => v' := by
  obtain ⟨⟨k', b', v'⟩, hfind, heq⟩ := Option.map_eq_some_iff.1 h
  obtain ⟨e, he, hf⟩ := List.exists_of_findSome?_eq_some hfind
  obtain ⟨r, hr, hpair⟩ := Option.map_eq_some_iff.1 hf
  cases hpair
  cases heq
  exact ⟨e.2, v', get_of_mem he, hr, rfl⟩

end LinearMap

end Container
end Leodos
