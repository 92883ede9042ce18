/-
Pieces of program that put bits down.

A medium says which bits a writer holds, how many it has room for, and how it stops when there
are more.  A piece of program that puts bits down is closed under sequence, so the bits of a
whole program are read off its pieces.
-/

namespace Leodos
namespace Emission

section
variable {E : Type}

@[simp] theorem ok_bind {α β : Type} (a : α) (f : α → Except E β) : (Except.ok a >>= f) = f a := rfl

@[simp] theorem error_bind {α β : Type} (e : E) (f : α → Except E β) :
    ((Except.error e : Except E α) >>= f) = .error e := rfl

theorem bind_ok {α β : Type} {x : Except E α} {f : α → Except E β} {b : β}
    (h : x >>= f = .ok b) : ∃ a, x = .ok a ∧ f a = .ok b := by
  cases x with
  | error e => cases h
  | ok a => exact ⟨a, rfl, h⟩

/-- What a writer holds, the room there is, and how a write without room ends. -/
structure Medium (W E : Type) where
  holds : W → List Bool → Prop
  room : Nat
  full : E

variable {W : Type}

/-- The piece of program puts the bits down, or stops when they have no room. -/
def Puts (medium : Medium W E) (bits : List Bool) (f : W → Except E W) : Prop :=
  ∀ w done, medium.holds w done → done.length ≤ medium.room →
    (done.length + bits.length ≤ medium.room →
      ∃ w', f w = .ok w' ∧ medium.holds w' (done ++ bits)) ∧
    (medium.room < done.length + bits.length → f w = .error medium.full)

variable {medium : Medium W E}

theorem puts_pure : Puts medium [] .ok := by
  intro w done h hroom
  refine ⟨fun _ => ⟨w, rfl, ?_⟩, fun hfull => ?_⟩
  · rw [List.append_nil]
    exact h
  · rw [List.length_nil] at hfull
    omega

theorem Puts.bind {bits bits' : List Bool} {f g : W → Except E W} (hf : Puts medium bits f)
    (hg : Puts medium bits' g) : Puts medium (bits ++ bits') (fun w => f w >>= g) := by
  intro w done h hroom
  have hfst := hf w done h hroom
  rw [List.length_append]
  by_cases hfit : done.length + bits.length ≤ medium.room
  · obtain ⟨w', hw', hholds⟩ := hfst.1 hfit
    have hsnd := hg w' _ hholds (by rw [List.length_append]; exact hfit)
    rw [List.length_append, List.append_assoc] at hsnd
    simp only [hw', ok_bind]
    refine ⟨fun hall => ?_, fun hfull => ?_⟩
    · obtain ⟨w'', hw'', hholds'⟩ := hsnd.1 (by omega)
      exact ⟨w'', hw'', hholds'⟩
    · exact hsnd.2 (by omega)
  · refine ⟨fun hall => by omega, fun _ => ?_⟩
    simp only [hfst.2 (by omega), error_bind]

theorem Puts.of_ok {bits done : List Bool} {f : W → Except E W} {w w' : W}
    (h : Puts medium bits f) (hholds : medium.holds w done) (hroom : done.length ≤ medium.room)
    (hok : f w = .ok w') :
    medium.holds w' (done ++ bits) ∧ (done ++ bits).length ≤ medium.room := by
  have hputs := h w done hholds hroom
  rw [List.length_append]
  by_cases hfit : done.length + bits.length ≤ medium.room
  · obtain ⟨w'', hw'', hholds'⟩ := hputs.1 hfit
    rw [hok] at hw''
    cases hw''
    exact ⟨hholds', hfit⟩
  · rw [hputs.2 (by omega)] at hok
    cases hok

theorem puts_foldlM {α : Type} {f : W → α → Except E W} {bits : α → List Bool} {xs : List α}
    (h : ∀ x ∈ xs, Puts medium (bits x) (fun w => f w x)) :
    Puts medium (xs.flatMap bits) (fun w => xs.foldlM f w) := by
  induction xs with
  | nil => exact puts_pure
  | cons x xs ih =>
    have hhead := h x List.mem_cons_self
    have htail := ih (fun y hy => h y (List.mem_cons_of_mem _ hy))
    rw [List.flatMap_cons]
    exact hhead.bind htail

/-- The piece of program puts the bits down and hands a value on. -/
def Gives {α : Type} (medium : Medium W E) (bits : List Bool) (a : α)
    (f : W → Except E (α × W)) : Prop :=
  ∀ w done, medium.holds w done → done.length ≤ medium.room →
    (done.length + bits.length ≤ medium.room →
      ∃ w', f w = .ok (a, w') ∧ medium.holds w' (done ++ bits)) ∧
    (medium.room < done.length + bits.length → f w = .error medium.full)

theorem Puts.gives {α : Type} {bits : List Bool} {f : W → Except E W} (h : Puts medium bits f)
    (a : α) : Gives medium bits a (fun w => f w >>= fun w => .ok (a, w)) := by
  intro w done hholds hroom
  have hputs := h w done hholds hroom
  refine ⟨fun hfit => ?_, fun hover => ?_⟩
  · obtain ⟨w', hw', hholds'⟩ := hputs.1 hfit
    refine ⟨w', ?_, hholds'⟩
    simp only [hw', ok_bind]
  · simp only [hputs.2 hover, error_bind]

theorem Gives.bind {α β : Type} {bits bits' : List Bool} {a : α} {b : β}
    {f : W → Except E (α × W)} {g : α → W → Except E (β × W)} (hf : Gives medium bits a f)
    (hg : Gives medium bits' b (g a)) :
    Gives medium (bits ++ bits') b (fun w => f w >>= fun p => g p.1 p.2) := by
  intro w done h hroom
  have hfst := hf w done h hroom
  rw [List.length_append]
  by_cases hfit : done.length + bits.length ≤ medium.room
  · obtain ⟨w', hw', hholds⟩ := hfst.1 hfit
    have hsnd := hg w' _ hholds (by rw [List.length_append]; exact hfit)
    rw [List.length_append, List.append_assoc] at hsnd
    simp only [hw', ok_bind]
    exact ⟨fun hall => hsnd.1 (by omega), fun hfull => hsnd.2 (by omega)⟩
  · refine ⟨fun hall => by omega, fun _ => ?_⟩
    simp only [hfst.2 (by omega), error_bind]

theorem gives_pure {α : Type} (a : α) : Gives medium [] a (fun w => .ok (a, w)) := by
  intro w done h hroom
  refine ⟨fun _ => ⟨w, rfl, ?_⟩, fun hfull => ?_⟩
  · rw [List.append_nil]
    exact h
  · rw [List.length_nil] at hfull
    omega

end

end Emission
end Leodos
