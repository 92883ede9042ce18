/-
A reorder window over packet numbers.

The window knows the number of the packet it waits for and holds some of the
`size - 1` packets behind it.  Accepting the awaited packet releases it with the
unbroken run of held packets that follows; any other packet of the window is held,
and everything else is ignored.

Over any run the released packets are exactly a prefix of the stream, each once and
in order (`AtRest.accept`), and the prefix covers the stream once every packet was
offered while inside the window (`AtRest.complete`).
-/
import Mathlib.Logic.Function.Basic

namespace Leodos
namespace Reorder

structure Window (π : Type) where
  next : Nat
  held : Nat → Option π

namespace Window

variable {π : Type} {size : Nat} {stream : List π}

def empty : Window π := ⟨0, fun _ => none⟩

/-- Release the run of held packets from the awaited number on. -/
def release : Nat → Window π → List π × Window π
  | 0, w => ([], w)
  | fuel + 1, w =>
      match w.held w.next with
      | none => ([], w)
      | some p =>
          let (ps, w') := release fuel ⟨w.next + 1, Function.update w.held w.next none⟩
          (p :: ps, w')

def pass (w : Window π) : Window π := ⟨w.next + 1, w.held⟩

def accept (size : Nat) (w : Window π) (n : Nat) (p : π) : List π × Window π :=
  if n = w.next then
    let (ps, w') := w.pass.release size
    (p :: ps, w')
  else if w.next < n ∧ n < w.next + size ∧ (w.held n).isNone then
    ([], { w with held := Function.update w.held n (some p) })
  else ([], w)

def received (w : Window π) (n : Nat) : Bool := decide (n < w.next) || (w.held n).isSome

theorem received_iff (w : Window π) (n : Nat) :
    w.received n = true ↔ n < w.next ∨ (w.held n).isSome = true := by
  simp [received]

theorem received_release (fuel : Nat) (w : Window π) (k : Nat) :
    (w.release fuel).2.received k = w.received k := by
  induction fuel generalizing w with
  | zero => rfl
  | succ fuel ih =>
    cases hnext : w.held w.next with
    | none => simp only [release, hnext]
    | some p =>
      simp only [release, hnext]
      rw [ih, Bool.eq_iff_iff, received_iff, received_iff]
      by_cases hk : k = w.next
      · subst hk
        simp [hnext]
      · have hnext' : k < w.next + 1 ↔ k < w.next := by omega
        simp only [Function.update_of_ne hk, hnext']

theorem accept_next_of_ne {w : Window π} {n : Nat} (p : π) (h : n ≠ w.next) :
    (w.accept size n p).2.next = w.next := by
  simp only [accept, if_neg h]
  split <;> rfl

theorem received_of_accept {w : Window π} {n : Nat} {p : π} {k : Nat}
    (h : (w.accept size n p).2.received k = true) : w.received k = true ∨ k = n := by
  simp only [accept] at h
  by_cases hn : n = w.next
  · rw [if_pos hn, received_release, received_iff] at h
    rw [received_iff, hn]
    by_cases hk : k = w.next
    · exact Or.inr hk
    · refine Or.inl (h.imp_left fun hlt => ?_)
      simp only [pass] at hlt
      omega
  · rw [if_neg hn] at h
    by_cases hnew : w.next < n ∧ n < w.next + size ∧ (w.held n).isNone = true
    · rw [if_pos hnew, received_iff] at h
      by_cases hk : k = n
      · exact Or.inr hk
      · simp only [Function.update_of_ne hk] at h
        exact Or.inl ((received_iff w k).2 h)
    · rw [if_neg hnew] at h
      exact Or.inl h

theorem received_accept_of {w : Window π} {n : Nat} {p : π} {k : Nat}
    (h : w.received k = true ∨ k = n ∧ n < w.next + size) :
    (w.accept size n p).2.received k = true := by
  simp only [accept]
  by_cases hn : n = w.next
  · rw [if_pos hn, received_release, received_iff]
    simp only [pass]
    rcases h with h | h
    · exact ((received_iff w k).1 h).imp_left fun hlt => by omega
    · exact Or.inl (by omega)
  · rw [if_neg hn]
    by_cases hnew : w.next < n ∧ n < w.next + size ∧ (w.held n).isNone = true
    · rw [if_pos hnew, received_iff]
      by_cases hk : k = n
      · exact Or.inr (by simp [hk])
      · simp only [Function.update_of_ne hk]
        exact (received_iff w k).1 (h.resolve_right fun hr => hk hr.1)
    · rw [if_neg hnew]
      rcases h with h | ⟨rfl, hlt⟩
      · exact h
      · rw [received_iff]
        by_cases hlo : k < w.next
        · exact Or.inl hlo
        · refine Or.inr ?_
          cases hheld : w.held k with
          | some q => rfl
          | none => exact absurd ⟨by omega, hlt, by simp [hheld]⟩ hnew

theorem received_accept (w : Window π) {n : Nat} (p : π) (hn : n < w.next + size) (k : Nat) :
    (w.accept size n p).2.received k = (w.received k || k == n) := by
  rw [Bool.eq_iff_iff, Bool.or_eq_true, beq_iff_eq]
  exact ⟨received_of_accept, fun h => received_accept_of (h.imp_right fun hk => ⟨hk, hn⟩)⟩

/-- Everything held lies in the window, behind `lo`, and comes from `stream`. -/
structure Bounded (size : Nat) (stream : List π) (lo : Nat) (w : Window π) : Prop where
  ahead : ∀ n, (w.held n).isSome → lo ≤ n ∧ n < w.next + size
  source : ∀ n p, w.held n = some p → stream[n]? = some p

/-- The window between two offers. -/
abbrev AtRest (size : Nat) (stream : List π) (w : Window π) : Prop :=
  Bounded size stream (w.next + 1) w

theorem atRest_empty (size : Nat) (stream : List π) : AtRest size stream empty :=
  ⟨by simp [empty], by simp [empty]⟩

theorem AtRest.pass {w : Window π} (h : AtRest size stream w) :
    Bounded size stream w.pass.next w.pass where
  ahead := by
    intro n hn
    obtain ⟨hlo, hhi⟩ := h.ahead n hn
    exact ⟨hlo, by simp only [Window.pass]; omega⟩
  source := h.source

theorem Bounded.release {w : Window π} (h : Bounded size stream w.next w) {fuel : Nat}
    (hfuel : ∀ n, (w.held n).isSome → n < w.next + fuel) :
    AtRest size stream (w.release fuel).2 ∧
      stream.take (w.release fuel).2.next = stream.take w.next ++ (w.release fuel).1 ∧
      w.next ≤ (w.release fuel).2.next ∧
      ∀ n, (w.held n).isSome → n < (w.release fuel).2.next ∨
        ((w.release fuel).2.held n).isSome := by
  induction fuel generalizing w with
  | zero =>
    refine ⟨⟨fun n hn => ?_, h.source⟩, by simp [Window.release], Nat.le_refl _,
      fun n hn => Or.inr hn⟩
    have := hfuel n hn
    have := (h.ahead n hn).1
    omega
  | succ fuel ih =>
    cases hnext : w.held w.next with
    | none =>
      simp only [Window.release, hnext]
      refine ⟨⟨fun n hn => ?_, h.source⟩, by simp, Nat.le_refl _, fun n hn => Or.inr hn⟩
      have hne : n ≠ w.next := by
        rintro rfl
        simp [hnext] at hn
      have := h.ahead n hn
      omega
    | some p =>
      simp only [Window.release, hnext]
      let w₁ : Window π := ⟨w.next + 1, Function.update w.held w.next none⟩
      have hheld : ∀ n, n ≠ w.next → w₁.held n = w.held n := fun n hn =>
        Function.update_of_ne hn ..
      have hgone : w₁.held w.next = none := Function.update_self ..
      have hmem : ∀ n, (w₁.held n).isSome → n ≠ w.next ∧ (w.held n).isSome := by
        intro n hn
        have hne : n ≠ w.next := by
          rintro rfl
          simp [hgone] at hn
        exact ⟨hne, hheld n hne ▸ hn⟩
      have h₁ : Bounded size stream w₁.next w₁ := by
        refine ⟨fun n hn => ?_, fun n q hq => ?_⟩
        · have := hmem n hn
          have := h.ahead n this.2
          simp only [w₁]
          omega
        · have hne := (hmem n (by simp [hq])).1
          exact h.source n q (hheld n hne ▸ hq)
      obtain ⟨hrest, htake, hle, hkept⟩ := ih h₁ (fun n hn => by
        have := hmem n hn
        have := hfuel n this.2
        simp only [w₁]
        omega)
      refine ⟨hrest, ?_, by simp only [w₁] at hle; omega, fun n hn => ?_⟩
      · have hone : stream.take w₁.next = stream.take w.next ++ [p] := by
          simp only [w₁]
          rw [List.take_add_one, h.source _ _ hnext]
          rfl
        rw [htake, hone, List.append_assoc]
        rfl
      · by_cases hne : n = w.next
        · exact Or.inl (by simp only [w₁] at hle; omega)
        · exact hkept n (by rw [hheld n hne]; exact hn)

theorem AtRest.accept {w : Window π} (h : AtRest size stream w) {n : Nat} {p : π}
    (hp : stream[n]? = some p) :
    AtRest size stream (w.accept size n p).2 ∧
      stream.take (w.accept size n p).2.next =
        stream.take w.next ++ (w.accept size n p).1 ∧
      w.next ≤ (w.accept size n p).2.next ∧
      ∀ k, (w.held k).isSome ∨ k = n ∧ w.next ≤ k ∧ k < w.next + size →
        k < (w.accept size n p).2.next ∨ ((w.accept size n p).2.held k).isSome := by
  simp only [Window.accept]
  by_cases hn : n = w.next
  · subst hn
    have hbound : ∀ k, (w.pass.held k).isSome → k < w.pass.next + size := fun k hk => by
      have := (h.ahead k hk).2
      simp only [Window.pass]
      omega
    obtain ⟨hrest, htake, hle, hkept⟩ := h.pass.release hbound
    simp only [Window.pass] at hle hkept htake hrest ⊢
    simp only [if_true]
    refine ⟨hrest, ?_, by omega, ?_⟩
    · rw [htake, List.take_add_one, hp, List.append_assoc]
      rfl
    · rintro k (hk | ⟨rfl, -, -⟩)
      · exact hkept k hk
      · exact Or.inl (by omega)
  · rw [if_neg hn]
    by_cases hnew : w.next < n ∧ n < w.next + size ∧ (w.held n).isNone = true
    · rw [if_pos hnew]
      refine ⟨⟨fun k hk => ?_, fun k q hq => ?_⟩, by simp, Nat.le_refl _, ?_⟩
      · by_cases hkn : k = n
        · subst hkn
          exact ⟨hnew.1, hnew.2.1⟩
        · simp only [Function.update_of_ne hkn] at hk
          exact h.ahead k hk
      · by_cases hkn : k = n
        · subst hkn
          simp only [Function.update_self, Option.some.injEq] at hq
          exact hq ▸ hp
        · simp only [Function.update_of_ne hkn] at hq
          exact h.source k q hq
      · rintro k (hk | ⟨rfl, -, -⟩)
        · refine Or.inr ?_
          by_cases hkn : k = n
          · simp [hkn]
          · simpa only [Function.update_of_ne hkn] using hk
        · exact Or.inr (by simp)
    · rw [if_neg hnew]
      refine ⟨h, by simp, Nat.le_refl _, ?_⟩
      rintro k (hk | ⟨rfl, hlo, hhi⟩)
      · exact Or.inr hk
      · refine Or.inr ?_
        cases hheld : w.held k with
        | some q => rfl
        | none => exact absurd ⟨by omega, hhi, by simp [hheld]⟩ hnew

theorem release_next_le (fuel : Nat) {w : Window π}
    (hsource : ∀ n p, w.held n = some p → stream[n]? = some p) (hle : w.next ≤ stream.length) :
    (w.release fuel).2.next ≤ stream.length := by
  induction fuel generalizing w with
  | zero => exact hle
  | succ fuel ih =>
    cases hnext : w.held w.next with
    | none =>
      simp only [release, hnext]
      exact hle
    | some p =>
      simp only [release, hnext]
      refine ih (fun n q hq => ?_) ?_
      · by_cases hne : n = w.next
        · simp [hne] at hq
        · simp only [Function.update_of_ne hne] at hq
          exact hsource n q hq
      · exact (List.getElem?_eq_some_iff.1 (hsource _ _ hnext)).1

theorem AtRest.accept_next_le {w : Window π} (h : AtRest size stream w) {n : Nat} {p : π}
    (hp : stream[n]? = some p) (hle : w.next ≤ stream.length) :
    (w.accept size n p).2.next ≤ stream.length := by
  simp only [Window.accept]
  by_cases hn : n = w.next
  · subst hn
    rw [if_pos rfl]
    exact release_next_le size h.source (List.getElem?_eq_some_iff.1 hp).1
  · rw [if_neg hn]
    by_cases hnew : w.next < n ∧ n < w.next + size ∧ (w.held n).isNone = true
    · rw [if_pos hnew]
      exact hle
    · rw [if_neg hnew]
      exact hle

theorem AtRest.complete {w : Window π} (h : AtRest size stream w)
    (hall : ∀ n < stream.length, n < w.next ∨ (w.held n).isSome) : stream.length ≤ w.next := by
  by_cases hlt : w.next < stream.length
  · rcases hall w.next hlt with hn | hn
    · omega
    · have := (h.ahead _ hn).1
      omega
  · omega

end Window

end Reorder
end Leodos
