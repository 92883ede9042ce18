/-
Loops that may abort.

`loop` runs a body until the body is done, and `Throughout` says that a property holds at the
head of every turn.  A body that follows another one as long as a property holds, and aborts
where it does not, ends where the other one ends just when the property holds throughout
(`loop_eq_some_iff`).
-/
import Mathlib.Logic.Function.Basic

namespace Leodos
namespace Assignment

inductive Turn (σ : Type) where
  | again (s : σ)
  | done (s : σ)

variable {σ α ι : Type}

/-- Turns of `body` until one is done.  No result is an abort, or fuel that runs out. -/
def loop (body : σ → Option (Turn σ)) : Nat → σ → Option σ
  | 0, _ => none
  | fuel + 1, s =>
    match body s with
    | none => none
    | some (.done s') => some s'
    | some (.again s') => loop body fuel s'

/-- `P` holds at the head of every turn. -/
def Throughout (body : σ → Option (Turn σ)) (P : σ → Prop) : Nat → σ → Prop
  | 0, _ => True
  | fuel + 1, s => P s ∧ ∀ s', body s = some (.again s') → Throughout body P fuel s'

theorem loop_of_throughout (Inv Post P : σ → Prop) (left : σ → Nat)
    (body : σ → Option (Turn σ))
    (hturn : ∀ s, Inv s → P s → (∃ s', body s = some (.done s') ∧ Post s') ∨
      ∃ s', body s = some (.again s') ∧ Inv s' ∧ left s' < left s)
    {fuel : Nat} {s : σ} (hinv : Inv s) (hleft : left s < fuel)
    (hall : Throughout body P fuel s) : ∃ s', loop body fuel s = some s' ∧ Post s' := by
  induction fuel generalizing s with
  | zero => exact absurd hleft (Nat.not_lt_zero _)
  | succ fuel ih =>
    rcases hturn s hinv hall.1 with ⟨s', hbody, hpost⟩ | ⟨s', hbody, hinv', hless⟩
    · exact ⟨s', by simp only [loop, hbody], hpost⟩
    · have hrest := ih hinv' (by omega) (hall.2 s' hbody)
      simpa only [loop, hbody] using hrest

theorem throughout_of_inv {body : σ → Option (Turn σ)} (Inv : σ → Prop) {P : σ → Prop}
    (hP : ∀ s, Inv s → P s) (hkeep : ∀ s s', Inv s → body s = some (.again s') → Inv s')
    (fuel : Nat) {s : σ} (hinv : Inv s) : Throughout body P fuel s := by
  induction fuel generalizing s with
  | zero => exact trivial
  | succ fuel ih => exact ⟨hP s hinv, fun s' hbody => ih (hkeep s s' hinv hbody)⟩

theorem loop_eq_some_iff {body body' : σ → Option (Turn σ)} (Inv : σ → Prop) {P : σ → Prop}
    (hsame : ∀ s, Inv s → P s → body' s = body s) (hstop : ∀ s, Inv s → ¬ P s → body' s = none)
    (hkeep : ∀ s s', Inv s → P s → body s = some (.again s') → Inv s')
    {fuel : Nat} {s r : σ} (hinv : Inv s) :
    loop body' fuel s = some r ↔ loop body fuel s = some r ∧ Throughout body P fuel s := by
  induction fuel generalizing s with
  | zero => simp [loop]
  | succ fuel ih =>
    by_cases hP : P s
    · rw [loop, loop, hsame s hinv hP, Throughout]
      cases hbody : body s with
      | none => simp
      | some turn =>
        cases turn with
        | done s' => simp [hP]
        | again s' => simpa [hP] using ih (hkeep s s' hinv hP hbody)
    · rw [loop, hstop s hinv hP, Throughout]
      simp [hP]

theorem loop_congr {body body' : σ → Option (Turn σ)} (Inv : σ → Prop)
    (hsame : ∀ s, Inv s → body' s = body s)
    (hkeep : ∀ s s', Inv s → body s = some (.again s') → Inv s') {fuel : Nat} {s : σ}
    (hinv : Inv s) : loop body' fuel s = loop body fuel s := by
  induction fuel generalizing s with
  | zero => rfl
  | succ fuel ih =>
    rw [loop, loop, hsame s hinv]
    cases hbody : body s with
    | none => rfl
    | some turn =>
      cases turn with
      | done s' => rfl
      | again s' => exact ih (hkeep s s' hinv hbody)

/-! ## Loops over a list -/

/-- `P` holds before the turn of every item. -/
def ThroughoutList (f : σ → α → Option σ) (P : σ → α → Prop) : List α → σ → Prop
  | [], _ => True
  | x :: xs, s => P s x ∧ ∀ s', f s x = some s' → ThroughoutList f P xs s'

instance decidableThroughoutList (f : σ → α → Option σ) (P : σ → α → Prop)
    [∀ s x, Decidable (P s x)] : (xs : List α) → (s : σ) → Decidable (ThroughoutList f P xs s)
  | [], _ => .isTrue trivial
  | x :: xs, s =>
    have := decidableThroughoutList f P xs
    inferInstanceAs (Decidable (P s x ∧ ∀ s' ∈ f s x, ThroughoutList f P xs s'))

theorem foldlM_of_inv (f : σ → α → Option σ) (Inv : List α → σ → Prop) (xs : List α) (s : σ)
    (hinv : Inv [] s)
    (hstep : ∀ before x after s, xs = before ++ x :: after → Inv before s →
      ∃ s', f s x = some s' ∧ Inv (before ++ [x]) s') :
    ∃ s', xs.foldlM f s = some s' ∧ Inv xs s' := by
  suffices ∀ before after s, xs = before ++ after → Inv before s →
      ∃ s', after.foldlM f s = some s' ∧ Inv xs s' from this [] xs s rfl hinv
  intro before after
  induction after generalizing before with
  | nil =>
    intro s hxs hinv
    rw [List.append_nil] at hxs
    exact ⟨s, rfl, hxs ▸ hinv⟩
  | cons x after ih =>
    intro s hxs hinv
    obtain ⟨s₁, hf, hinv₁⟩ := hstep before x after s hxs hinv
    obtain ⟨s', hrest, hinv'⟩ := ih (before ++ [x]) s₁ (by simpa using hxs) hinv₁
    exact ⟨s', by rw [List.foldlM_cons, hf]; exact hrest, hinv'⟩

theorem foldlM_range_of_inv (f : σ → Nat → Option σ) (Inv : Nat → σ → Prop) (n : Nat) (s : σ)
    (hinv : Inv 0 s)
    (hstep : ∀ k < n, ∀ s, Inv k s → ∃ s', f s k = some s' ∧ Inv (k + 1) s') :
    ∃ s', (List.range n).foldlM f s = some s' ∧ Inv n s' := by
  induction n with
  | zero => exact ⟨s, rfl, hinv⟩
  | succ n ih =>
    obtain ⟨s₁, hfold, hinv₁⟩ := ih fun k hk => hstep k (Nat.lt_succ_of_lt hk)
    obtain ⟨s', hf, hinv'⟩ := hstep n (Nat.lt_succ_self n) s₁ hinv₁
    refine ⟨s', ?_, hinv'⟩
    rw [List.range_succ, List.foldlM_append, hfold]
    change [n].foldlM f s₁ = some s'
    rw [List.foldlM_cons, hf]
    rfl

theorem foldlM_eq_none {f : σ → α → Option σ} (Inv : List α → σ → Prop) (good : α → Prop)
    {xs : List α} {s : σ} (hinv : Inv [] s)
    (hstep : ∀ before x after s, xs = before ++ x :: after → Inv before s → good x →
      ∃ s', f s x = some s' ∧ Inv (before ++ [x]) s')
    (hstop : ∀ before x after s, xs = before ++ x :: after → Inv before s → ¬ good x →
      f s x = none)
    (hbad : ∃ x ∈ xs, ¬ good x) : xs.foldlM f s = none := by
  suffices ∀ before after s, xs = before ++ after → Inv before s → (∃ x ∈ after, ¬ good x) →
      after.foldlM f s = none from this [] xs s rfl hinv hbad
  intro before after
  induction after generalizing before with
  | nil => simp
  | cons x after ih =>
    intro s hxs hinv hbad
    by_cases hx : good x
    · obtain ⟨s₁, hf, hinv₁⟩ := hstep before x after s hxs hinv hx
      rw [List.foldlM_cons, hf]
      refine ih (before ++ [x]) s₁ (by simpa using hxs) hinv₁ ?_
      obtain ⟨y, hy, hny⟩ := hbad
      rcases List.mem_cons.1 hy with rfl | hy
      · exact absurd hx hny
      · exact ⟨y, hy, hny⟩
    · rw [List.foldlM_cons, hstop before x after s hxs hinv hx]
      rfl

theorem foldl_of_inv (f : σ → α → σ) (Inv : List α → σ → Prop) (xs : List α) (s : σ)
    (hinv : Inv [] s)
    (hstep : ∀ before x after s, xs = before ++ x :: after → Inv before s →
      Inv (before ++ [x]) (f s x)) : Inv xs (xs.foldl f s) := by
  obtain ⟨s', hfold, hinv'⟩ := foldlM_of_inv (fun s x => some (f s x)) Inv xs s hinv
    fun before x after s hxs h => ⟨f s x, rfl, hstep before x after s hxs h⟩
  have hpure : xs.foldlM (fun s x => some (f s x)) s = some (xs.foldl f s) :=
    List.foldlM_pure (m := Option)
  rw [hpure, Option.some.injEq] at hfold
  rwa [hfold]

theorem throughoutList_of_forall {f : σ → α → Option σ} {P : σ → α → Prop} (h : ∀ s x, P s x)
    (xs : List α) (s : σ) : ThroughoutList f P xs s := by
  induction xs generalizing s with
  | nil => exact trivial
  | cons x xs ih => exact ⟨h s x, fun s' _ => ih s'⟩

theorem foldlM_of_throughout (f : σ → α → Option σ) (Inv : List α → σ → Prop) (P : σ → α → Prop)
    {xs : List α} {s : σ} (hinv : Inv xs s)
    (hstep : ∀ x xs s, Inv (x :: xs) s → P s x → ∃ s', f s x = some s' ∧ Inv xs s')
    (hall : ThroughoutList f P xs s) : ∃ s', xs.foldlM f s = some s' ∧ Inv [] s' := by
  induction xs generalizing s with
  | nil => exact ⟨s, rfl, hinv⟩
  | cons x xs ih =>
    obtain ⟨s₁, hf, hinv₁⟩ := hstep x xs s hinv hall.1
    obtain ⟨s', hrest, hinv'⟩ := ih hinv₁ (hall.2 s₁ hf)
    exact ⟨s', by rw [List.foldlM_cons, hf]; exact hrest, hinv'⟩

theorem foldlM_eq_some_iff {f f' : σ → α → Option σ} (Inv : List α → σ → Prop)
    {P : σ → α → Prop}
    (hiff : ∀ x xs s r, Inv (x :: xs) s → (f' s x = some r ↔ f s x = some r ∧ P s x))
    (hkeep : ∀ x xs s s', Inv (x :: xs) s → P s x → f s x = some s' → Inv xs s')
    {xs : List α} {s r : σ} (hinv : Inv xs s) :
    xs.foldlM f' s = some r ↔ xs.foldlM f s = some r ∧ ThroughoutList f P xs s := by
  induction xs generalizing s with
  | nil => simp [ThroughoutList]
  | cons x xs ih =>
    rw [List.foldlM_cons, List.foldlM_cons, ThroughoutList]
    cases hf' : f' s x with
    | some s₁ =>
      obtain ⟨hf, hP⟩ := (hiff x xs s s₁ hinv).1 hf'
      rw [hf]
      simpa [hP] using ih (hkeep x xs s s₁ hinv hP hf)
    | none =>
      by_cases hP : P s x
      · cases hf : f s x with
        | none => simp
        | some s₁ =>
          have := (hiff x xs s s₁ hinv).2 ⟨hf, hP⟩
          rw [hf'] at this
          cases this
      · simp [hP]

theorem foldl_update [DecidableEq ι] (g : ι → α) (xs : List ι) (a : ι → α) :
    xs.foldl (fun a i => Function.update a i (g i)) a = fun i => if i ∈ xs then g i else a i := by
  induction xs generalizing a with
  | nil => funext i; simp
  | cons x xs ih =>
    rw [List.foldl_cons, ih]
    funext i
    by_cases hi : i ∈ xs
    · simp [hi]
    · by_cases hx : i = x
      · subst hx
        simp
      · simp [hi, hx]

end Assignment
end Leodos
