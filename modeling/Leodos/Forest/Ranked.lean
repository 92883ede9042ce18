/-
Forests of parent pointers, linked by rank.

Every element points to its parent and a root to itself.  The rank grows along every pointer and
a root of rank `r` stands for at least `2 ^ r` elements, so chains are short.  A pointer may skip
its parent without a change to any class; a link of two roots joins two classes.
-/
import Mathlib.Data.Fintype.Card
import Mathlib.Data.Finset.Max
import Mathlib.Logic.Relation

namespace Leodos
namespace Forest

open Finset Relation

variable {α : Type} [DecidableEq α]

/-! ## Ranks -/

section Ranks

variable [Fintype α] {parent rep : α → α} {rank : α → Nat}

/-- The elements that a root stands for. -/
def below (rep : α → α) (r : α) : Finset α := univ.filter fun x => rep x = r

@[simp] theorem mem_below {r x : α} : x ∈ below rep r ↔ rep x = r := by simp [below]

/-- `rep` is the root above every element. -/
structure Ranked (parent : α → α) (rank : α → Nat) (rep : α → α) : Prop where
  up : ∀ x, parent x ≠ x → rank x < rank (parent x)
  rep_parent : ∀ x, rep (parent x) = rep x
  root : ∀ x, parent x = x ↔ rep x = x
  parent_rep : ∀ x, parent (rep x) = rep x
  size : ∀ x, rep x = x → 2 ^ rank x ≤ (below rep x).card

theorem ranked_id : Ranked (α := α) id (fun _ => 0) id where
  up := fun _ h => absurd rfl h
  rep_parent := fun _ => rfl
  root := fun _ => Iff.rfl
  parent_rep := fun _ => rfl
  size := by
    intro x _
    exact card_pos.2 ⟨x, mem_below.2 rfl⟩

namespace Ranked

variable (h : Ranked parent rank rep)

include h

theorem rep_rep (x : α) : rep (rep x) = rep x := (h.root _).1 (h.parent_rep x)

theorem le_parent (x : α) : rank x ≤ rank (parent x) := by
  by_cases hx : parent x = x
  · rw [hx]
  · exact Nat.le_of_lt (h.up x hx)

theorem two_pow_rank_le (x : α) : 2 ^ rank x ≤ Fintype.card α := by
  obtain ⟨top, -, htop⟩ := exists_max_image univ rank ⟨x, mem_univ x⟩
  have hroot : parent top = top := by
    by_contra hne
    exact absurd (htop (parent top) (mem_univ _)) (Nat.not_le_of_lt (h.up top hne))
  calc 2 ^ rank x ≤ 2 ^ rank top := Nat.pow_le_pow_right (by omega) (htop x (mem_univ x))
    _ ≤ (below rep top).card := h.size top ((h.root top).1 hroot)
    _ ≤ Fintype.card α := card_le_univ _

theorem rank_lt (x : α) : rank x < Fintype.card α :=
  Nat.lt_of_lt_of_le Nat.lt_two_pow_self (h.two_pow_rank_le x)

theorem halve (x : α) :
    Ranked (Function.update parent x (parent (parent x))) rank rep where
  up := by
    intro y hy
    by_cases hyx : y = x
    · rw [hyx, Function.update_self] at hy ⊢
      by_cases hroot : parent x = x
      · rw [hroot, hroot] at hy
        exact absurd rfl hy
      · exact Nat.lt_of_lt_of_le (h.up x hroot) (h.le_parent (parent x))
    · rw [Function.update_of_ne hyx] at hy ⊢
      exact h.up y hy
  rep_parent := by
    intro y
    by_cases hyx : y = x
    · rw [hyx, Function.update_self, h.rep_parent, h.rep_parent]
    · rw [Function.update_of_ne hyx, h.rep_parent]
  root := by
    intro y
    by_cases hyx : y = x
    · rw [hyx, Function.update_self, ← h.root x]
      constructor
      · intro hback
        by_contra hne
        have hlt := Nat.lt_of_lt_of_le (h.up x hne) (h.le_parent (parent x))
        rw [hback] at hlt
        exact Nat.lt_irrefl _ hlt
      · intro hroot
        rw [hroot, hroot]
    · rw [Function.update_of_ne hyx, h.root]
  parent_rep := by
    intro y
    by_cases hyx : rep y = x
    · have hroot := h.parent_rep y
      rw [hyx] at hroot ⊢
      rw [Function.update_self, hroot, hroot]
    · rw [Function.update_of_ne hyx, h.parent_rep]
  size := h.size

/-- The root `b` goes under the root `a`, which takes the rank `r`. -/
theorem link {a b : α} {r : Nat} (ha : rep a = a) (hb : rep b = b) (hne : a ≠ b)
    (hra : rank a ≤ r) (hrb : rank b < r) (hsum : 2 ^ r ≤ 2 ^ rank a + 2 ^ rank b) :
    Ranked (Function.update parent b a) (Function.update rank a r)
      (fun x => if rep x = b then a else rep x) where
  up := by
    have hroot := (h.root a).2 ha
    intro x hx
    by_cases hxb : x = b
    · rw [hxb, Function.update_self, Function.update_self, Function.update_of_ne hne.symm]
      exact hrb
    · rw [Function.update_of_ne hxb] at hx ⊢
      have hxa : x ≠ a := by
        intro heq
        rw [heq] at hx
        exact hx hroot
      rw [Function.update_of_ne hxa]
      refine Nat.lt_of_lt_of_le (h.up x hx) ?_
      by_cases hpa : parent x = a
      · rw [hpa, Function.update_self]
        exact hra
      · rw [Function.update_of_ne hpa]
  rep_parent := by
    intro x
    by_cases hxb : x = b
    · rw [hxb, Function.update_self, if_pos hb, ha, if_neg hne]
    · rw [Function.update_of_ne hxb, h.rep_parent]
  root := by
    intro x
    by_cases hxb : x = b
    · rw [hxb, Function.update_self, if_pos hb]
    · rw [Function.update_of_ne hxb, h.root]
      by_cases hrep : rep x = b
      · rw [if_pos hrep, hrep]
        constructor
        · intro hbx
          exact absurd hbx.symm hxb
        · intro hax
          rw [← hax, ha] at hrep
          exact absurd hrep hne
      · rw [if_neg hrep]
  parent_rep := by
    intro x
    by_cases hrep : rep x = b
    · rw [if_pos hrep, Function.update_of_ne hne, (h.root a).2 ha]
    · rw [if_neg hrep, Function.update_of_ne hrep, h.parent_rep]
  size := by
    intro x hx
    by_cases hxa : x = a
    · rw [hxa, Function.update_self]
      have hdisj : Disjoint (below rep a) (below rep b) := by
        rw [disjoint_left]
        intro y hya hyb
        rw [mem_below] at hya hyb
        exact hne (hya.symm.trans hyb)
      have hsub : below rep a ∪ below rep b ⊆
          below (fun x => if rep x = b then a else rep x) a := by
        intro y hy
        rw [mem_union, mem_below, mem_below] at hy
        rw [mem_below]
        by_cases hyb : rep y = b
        · rw [if_pos hyb]
        · rw [if_neg hyb]
          exact hy.resolve_right hyb
      calc 2 ^ r ≤ 2 ^ rank a + 2 ^ rank b := hsum
        _ ≤ (below rep a).card + (below rep b).card := Nat.add_le_add (h.size a ha) (h.size b hb)
        _ = (below rep a ∪ below rep b).card := (card_union_of_disjoint hdisj).symm
        _ ≤ _ := card_le_card hsub
    · by_cases hrep : rep x = b
      · rw [if_pos hrep] at hx
        exact absurd hx.symm hxa
      · rw [if_neg hrep] at hx
        rw [Function.update_of_ne hxa]
        refine (h.size x hx).trans (card_le_card ?_)
        intro y hy
        rw [mem_below] at hy ⊢
        rw [if_neg (by rw [hy, ← hx]; exact hrep), hy]

end Ranked

end Ranks

/-! ## Classes of a relation -/

section Classes

variable {ι κ : Type} {R : ι → ι → Prop}

/-- `key` tells the classes of the equivalence that `R` generates apart. -/
def Represents (key : ι → κ) (R : ι → ι → Prop) : Prop :=
  ∀ x y, key x = key y ↔ EqvGen R x y

/-- The classes of `u` and `v` become one, and the others stay. -/
def Joins (key key' : ι → κ) (u v : ι) : Prop :=
  ∀ x y, key' x = key' y ↔ key x = key y ∨
    ((key x = key u ∨ key x = key v) ∧ (key y = key u ∨ key y = key v))

theorem Joins.symm {key key' : ι → κ} {u v : ι} (h : Joins key key' u v) : Joins key key' v u := by
  intro x y
  rw [h x y, or_comm (a := key x = key u), or_comm (a := key y = key u)]

theorem joins_merge [DecidableEq κ] (key : ι → κ) (u v : ι) :
    Joins key (fun x => if key x = key v then key u else key x) u v := by
  intro x y
  show (if key x = key v then key u else key x) = (if key y = key v then key u else key y) ↔ _
  by_cases hx : key x = key v
  · by_cases hy : key y = key v
    · simp [hx, hy]
    · have hvy : key v ≠ key y := fun h => hy h.symm
      rw [if_pos hx, if_neg hy]
      simp only [hvy, hx, hy, or_true, or_false, false_or, true_and]
      exact eq_comm
  · by_cases hy : key y = key v
    · rw [if_neg hx, if_pos hy]
      simp only [hx, hy, or_true, or_false, false_or, and_true]
    · rw [if_neg hx, if_neg hy]
      simp only [hx, hy, or_false]
      constructor
      · exact .inl
      · intro h
        exact h.elim id fun hboth => hboth.1.trans hboth.2.symm

theorem joins_self {key : ι → κ} {u v : ι} (h : key u = key v) : Joins key key u v := by
  intro x y
  rw [h, or_self, or_self]
  constructor
  · exact .inl
  · intro hxy
    exact hxy.elim id fun hboth => hboth.1.trans hboth.2.symm

theorem eqvGen_lift {ι' : Type} {R' : ι' → ι' → Prop} {f : ι → ι'}
    (hf : ∀ x y, R x y → EqvGen R' (f x) (f y)) {x y : ι} (h : EqvGen R x y) :
    EqvGen R' (f x) (f y) := by
  induction h with
  | rel x y h => exact hf x y h
  | refl x => exact .refl _
  | symm x y _ ih => exact .symm _ _ ih
  | trans x y z _ _ ih₁ ih₂ => exact .trans _ _ _ ih₁ ih₂

theorem represents_id : Represents (id : ι → ι) fun _ _ => False := by
  intro x y
  constructor
  · intro h
    rw [show x = y from h]
    exact .refl y
  · intro h
    induction h with
    | rel x y h => cases h
    | refl x => rfl
    | symm x y _ ih => exact ih.symm
    | trans x y z _ _ ih₁ ih₂ => exact ih₁.trans ih₂

theorem Represents.congr {key : ι → κ} {R' : ι → ι → Prop} (h : Represents key R)
    (hle : ∀ x y, R x y → EqvGen R' x y) (hge : ∀ x y, R' x y → EqvGen R x y) :
    Represents key R' := by
  intro x y
  rw [h x y]
  exact ⟨fun hxy => eqvGen_lift (f := id) hle hxy, fun hxy => eqvGen_lift (f := id) hge hxy⟩

theorem Represents.join {key key' : ι → κ} {u v : ι} (h : Represents key R)
    (hjoin : Joins key key' u v) :
    Represents key' fun x y => R x y ∨ (x = u ∧ y = v) := by
  have hmono : ∀ {x y}, key x = key y → EqvGen (fun x y => R x y ∨ (x = u ∧ y = v)) x y :=
    fun hkey => EqvGen.mono (fun x y => Or.inl) _ _ ((h _ _).1 hkey)
  have hedge : EqvGen (fun x y => R x y ∨ (x = u ∧ y = v)) u v := .rel _ _ (.inr ⟨rfl, rfl⟩)
  intro x y
  constructor
  · intro hxy
    cases (hjoin x y).1 hxy with
    | inl hkey => exact hmono hkey
    | inr hboth =>
      have hto : ∀ {z}, key z = key u ∨ key z = key v →
          EqvGen (fun x y => R x y ∨ (x = u ∧ y = v)) z u := by
        intro z hz
        cases hz with
        | inl hu => exact hmono hu
        | inr hv => exact .trans _ _ _ (hmono hv) (.symm _ _ hedge)
      exact .trans _ _ _ (hto hboth.1) (.symm _ _ (hto hboth.2))
  · intro hxy
    induction hxy with
    | rel x y hxy =>
      refine (hjoin x y).2 ?_
      cases hxy with
      | inl hold => exact .inl ((h x y).2 (.rel _ _ hold))
      | inr hnew => exact .inr ⟨.inl (by rw [hnew.1]), .inr (by rw [hnew.2])⟩
    | refl x => rfl
    | symm x y _ ih => exact ih.symm
    | trans x y z _ _ ih₁ ih₂ => exact ih₁.trans ih₂

theorem Represents.comp {ι' : Type} {key : ι → κ} {R' : ι' → ι' → Prop} {f : ι' → ι}
    (h : Represents key R) (hf : Function.Injective f)
    (hedge : ∀ x y, R x y → ∃ x' y', f x' = x ∧ f y' = y ∧ R' x' y')
    (hback : ∀ x y, R' x y → R (f x) (f y)) : Represents (key ∘ f) R' := by
  have hlift : ∀ x y, EqvGen R x y → x = y ∨ ∃ x' y', f x' = x ∧ f y' = y ∧ EqvGen R' x' y' := by
    intro x y hxy
    induction hxy with
    | rel x y h =>
      obtain ⟨x', y', hx, hy, hR⟩ := hedge x y h
      exact .inr ⟨x', y', hx, hy, .rel _ _ hR⟩
    | refl x => exact .inl rfl
    | symm x y _ ih =>
      refine ih.imp Eq.symm fun h => ?_
      obtain ⟨x', y', hx, hy, hR⟩ := h
      exact ⟨y', x', hy, hx, .symm _ _ hR⟩
    | trans x y z _ _ ih₁ ih₂ =>
      cases ih₁ with
      | inl heq => exact heq ▸ ih₂
      | inr h₁ =>
        cases ih₂ with
        | inl heq => exact .inr (heq ▸ h₁)
        | inr h₂ =>
          obtain ⟨x', y', hx, hy, hR⟩ := h₁
          obtain ⟨y'', z', hy', hz, hR'⟩ := h₂
          have hsame : y'' = y' := hf (hy'.trans hy.symm)
          exact .inr ⟨x', z', hx, hz, .trans _ _ _ hR (hsame ▸ hR')⟩
  intro x y
  rw [Function.comp_apply, Function.comp_apply, h]
  constructor
  · intro hxy
    cases hlift _ _ hxy with
    | inl heq => exact hf heq ▸ .refl x
    | inr hex =>
      obtain ⟨x', y', hx, hy, hR⟩ := hex
      exact hf hx ▸ hf hy ▸ hR
  · exact eqvGen_lift fun x y hR => .rel _ _ (hback x y hR)

variable [Fintype ι]

open Classical in
noncomputable def classes (R : ι → ι → Prop) : Finset (Finset ι) :=
  univ.image fun x => univ.filter fun y => EqvGen R x y

theorem mem_classes {C : Finset ι} : C ∈ classes R ↔ ∃ x, ∀ y, y ∈ C ↔ EqvGen R x y := by
  classical
  simp only [classes, mem_image, mem_univ, true_and]
  constructor
  · intro h
    obtain ⟨x, hx⟩ := h
    refine ⟨x, fun y => ?_⟩
    simp [← hx]
  · intro h
    obtain ⟨x, hx⟩ := h
    refine ⟨x, ?_⟩
    ext y
    simp [hx]

open Classical in
theorem Represents.classes_map [Fintype κ] {β : Type} {key : ι → κ} (h : Represents key R)
    (g : Finset ι → β) :
    (univ.filter fun k => ∃ x, key x = k).val.map (fun k => g (univ.filter fun x => key x = k)) =
      (classes R).val.map g := by
  have himage : classes R =
      (univ.filter fun k => ∃ x, key x = k).image fun k => univ.filter fun x => key x = k := by
    ext C
    simp only [classes, mem_image, mem_univ, true_and, mem_filter]
    constructor
    · intro hC
      obtain ⟨x, hx⟩ := hC
      refine ⟨key x, ⟨x, rfl⟩, ?_⟩
      rw [← hx]
      ext y
      rw [mem_filter, mem_filter, ← h x y]
      simp only [eq_comm]
    · intro hC
      obtain ⟨k, ⟨x, hx⟩, hk⟩ := hC
      refine ⟨x, ?_⟩
      rw [← hk, ← hx]
      ext y
      rw [mem_filter, mem_filter, ← h x y]
      simp only [eq_comm]
  have hinj : Set.InjOn (fun k => univ.filter fun x => key x = k)
      (univ.filter fun k => ∃ x, key x = k : Finset κ) := by
    intro k hk k' hk' heq
    obtain ⟨x, hx⟩ := (mem_filter.1 hk).2
    have hmem : x ∈ univ.filter fun x => key x = k := mem_filter.2 ⟨mem_univ x, hx⟩
    rw [show (univ.filter fun x => key x = k) = univ.filter fun x => key x = k' from heq] at hmem
    rw [← hx]
    exact (mem_filter.1 hmem).2
  rw [himage, image_val_of_injOn hinj, Multiset.map_map]
  rfl

open Classical in
theorem classes_equiv {ι' : Type} [Fintype ι'] {β : Type} {R' : ι' → ι' → Prop} (e : ι ≃ ι')
    (he : ∀ x y, R x y ↔ R' (e x) (e y)) {g : Finset ι → β} {g' : Finset ι' → β}
    (hg : ∀ C, g C = g' (C.map e.toEmbedding)) :
    (classes R).val.map g = (classes R').val.map g' := by
  have hgen : ∀ x y, EqvGen R x y ↔ EqvGen R' (e x) (e y) := by
    intro x y
    constructor
    · exact eqvGen_lift fun x y hR => .rel _ _ ((he x y).1 hR)
    · intro hxy
      have hsymm : EqvGen R (e.symm (e x)) (e.symm (e y)) := by
        refine eqvGen_lift (fun x y hR => .rel _ _ ((he _ _).2 ?_)) hxy
        rw [e.apply_symm_apply, e.apply_symm_apply]
        exact hR
      rw [e.symm_apply_apply, e.symm_apply_apply] at hsymm
      exact hsymm
  have hclass : ∀ x, (univ.filter fun y => EqvGen R' (e x) y) =
      (univ.filter fun y => EqvGen R x y).map e.toEmbedding := by
    intro x
    ext y
    simp only [mem_filter, mem_univ, true_and, mem_map_equiv, hgen, e.apply_symm_apply]
  have himage : classes R' = (classes R).image fun C => C.map e.toEmbedding := by
    ext C
    simp only [classes, mem_image, mem_univ, true_and, exists_exists_eq_and, ← hclass]
    exact e.surjective.exists
  rw [himage, image_val_of_injOn fun C _ C' _ => (map_injective e.toEmbedding).eq_iff.1,
    Multiset.map_map]
  exact Multiset.map_congr rfl fun C _ => hg C

end Classes

end Forest
end Leodos
