/-
Labelled transition systems and the invariant rule.

A system has initial states and a step relation labelled by the call, event or
arrival that causes the step.  `Reaches ok` is reachability by runs whose every
step meets `ok`, a condition on the label and the state the step starts in.
`Reaches.invariant` is the only induction over runs; a result about runs supplies
the initial case and the step case.
-/

namespace Leodos
namespace Transition

structure System (σ α : Type) where
  init : σ → Prop
  step : σ → α → σ → Prop

namespace System

variable {σ α : Type} {M : System σ α} {ok ok' : σ → α → Prop}

/-- The states reached by runs whose steps all meet `ok`. -/
inductive Reaches (M : System σ α) (ok : σ → α → Prop) : σ → Prop where
  | init {s : σ} : M.init s → Reaches M ok s
  | step {s s' : σ} (a : α) : Reaches M ok s → ok s a → M.step s a s' → Reaches M ok s'

/-- Reachability with no condition on the steps. -/
abbrev Reachable (M : System σ α) : σ → Prop := M.Reaches fun _ _ => True

theorem Reaches.invariant (Inv : σ → Prop) (hinit : ∀ s, M.init s → Inv s)
    (hstep : ∀ s a s', Inv s → ok s a → M.step s a s' → Inv s') {s : σ}
    (h : M.Reaches ok s) : Inv s := by
  induction h with
  | init h => exact hinit _ h
  | step a _ hok hs ih => exact hstep _ a _ ih hok hs

theorem Reaches.mono (himp : ∀ s a, ok s a → ok' s a) {s : σ} (h : M.Reaches ok s) :
    M.Reaches ok' s := by
  induction h with
  | init h => exact .init h
  | step a _ hok hs ih => exact .step a ih (himp _ _ hok) hs

theorem Reaches.reachable {s : σ} (h : M.Reaches ok s) : M.Reachable s :=
  h.mono fun _ _ _ => trivial

/-! ## Runs from a state -/

/-- The steps `as` lead from one state to another, and each meets `ok`. -/
inductive Run (M : System σ α) (ok : σ → α → Prop) : σ → List α → σ → Prop where
  | nil (s : σ) : Run M ok s [] s
  | cons {s s' s'' : σ} {a : α} {as : List α} : ok s a → M.step s a s' → Run M ok s' as s'' →
      Run M ok s (a :: as) s''

/-- A run is no longer than an energy that every one of its steps lowers.  The energy is
that of a companion state, which the steps keep up with. -/
theorem Run.length_le {τ : Type} (Rel : σ → τ → Prop) (energy : τ → Nat)
    (hstep : ∀ s a s' t, Rel s t → ok s a → M.step s a s' →
      ∃ t', Rel s' t' ∧ energy t' < energy t) {s s' : σ} {as : List α} {t : τ}
    (hrun : M.Run ok s as s') (ht : Rel s t) : as.length ≤ energy t := by
  induction hrun generalizing t with
  | nil s => exact Nat.zero_le _
  | cons hok hs _ ih =>
    obtain ⟨t', ht', hlow⟩ := hstep _ _ _ t ht hok hs
    have hle := ih ht'
    rw [List.length_cons]
    omega

/-! ## Runs that are computed -/

/-- Every step that `next` takes along `as` from `s` meets `ok`. -/
def Meets (next : σ → α → σ) (ok : σ → α → Prop) : σ → List α → Prop
  | _, [] => True
  | s, a :: as => ok s a ∧ Meets next ok (next s a) as

instance decidableMeets (next : σ → α → σ) (ok : σ → α → Prop) [∀ s a, Decidable (ok s a)] :
    (s : σ) → (as : List α) → Decidable (Meets next ok s as)
  | _, [] => .isTrue trivial
  | s, a :: as =>
      have := decidableMeets next ok (next s a) as
      inferInstanceAs (Decidable (ok s a ∧ _))

theorem Meets.mono {next : σ → α → σ} {ok ok' : σ → α → Prop} (himp : ∀ s a, ok s a → ok' s a)
    {s : σ} {as : List α} (h : Meets next ok s as) : Meets next ok' s as := by
  induction as generalizing s with
  | nil => exact trivial
  | cons a as ih => exact ⟨himp s a h.1, ih h.2⟩

theorem meets_append_single {next : σ → α → σ} {ok : σ → α → Prop} {s : σ} {as : List α} {a : α} :
    Meets next ok s (as ++ [a]) ↔ Meets next ok s as ∧ ok (as.foldl next s) a := by
  induction as generalizing s with
  | nil => exact ⟨fun h => ⟨trivial, h.1⟩, fun h => ⟨h.2, trivial⟩⟩
  | cons b as ih =>
    rw [List.cons_append, Meets, Meets, ih, List.foldl_cons, and_assoc]

theorem Reaches.foldl {next : σ → α → σ} {r : σ → α → Prop}
    (hnext : ∀ s a, r s a → ok s a ∧ M.step s a (next s a)) {s : σ}
    (h : M.Reaches ok s) {as : List α} (hr : Meets next r s as) :
    M.Reaches ok (as.foldl next s) := by
  induction as generalizing s with
  | nil => exact h
  | cons a as ih =>
    obtain ⟨hok, hstep⟩ := hnext s a hr.1
    exact ih (.step a h hok hstep) hr.2

end System

end Transition
end Leodos
