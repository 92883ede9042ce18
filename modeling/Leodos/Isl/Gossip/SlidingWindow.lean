/-
The duplicate filter over epochs that do not wrap.

Epochs are integers and the filter sees them modulo 2^16.  As long as each lies less than
half a turn from the newest, the filter calls one a duplicate exactly when it was seen or
lies more than 128 behind the newest (`duplicate_iff`).
-/
import Leodos.Isl.Gossip.DuplicateFilter
import Mathlib.Data.List.Induction

namespace Leodos
namespace Isl
namespace DuplicateFilter

def wrap (epoch : Int) : BitVec 16 := .ofInt 16 epoch

def feed (f : DuplicateFilter) (epochs : List Int) : DuplicateFilter :=
  epochs.foldl (fun f epoch => (f.isDuplicate (wrap epoch)).2) f

/-- Each epoch lies within 32767 of the greatest one before it. -/
def Near (epochs : List Int) : Prop :=
  ∀ earlier epoch later, epochs = earlier ++ epoch :: later →
    ∀ top ∈ earlier, (∀ e ∈ earlier, e ≤ top) → epoch ≤ top + 32767 ∧ top ≤ epoch + 32767

/-! ## One epoch more -/

variable {f : DuplicateFilter} {seen : List Nat} {top n : Nat}

theorem Remembers.concat (h : f.Remembers seen top) (hn : n ∈ seen ∨ n + 128 < top) :
    f.Remembers (seen ++ [n]) top := by
  have hle : n ≤ top := by
    obtain hseen | hfar := hn
    · exact h.le_top n hseen
    · omega
  refine ⟨h.initialized, h.head, List.mem_append_left _ h.top_mem, ?_, ?_⟩
  · intro k hk
    obtain hold | hnew := List.mem_append.1 hk
    · exact h.le_top k hold
    · rw [List.mem_singleton.1 hnew]
      exact hle
  · intro d hd
    rw [h.history d hd]
    constructor
    · intro hset
      obtain ⟨k, hk, hsum⟩ := hset
      exact ⟨k, List.mem_append_left _ hk, hsum⟩
    · intro hset
      obtain ⟨k, hk, hsum⟩ := hset
      obtain hold | hnew := List.mem_append.1 hk
      · exact ⟨k, hold, hsum⟩
      · rw [List.mem_singleton.1 hnew] at hsum
        obtain hseen | hfar := hn
        · exact ⟨n, hseen, hsum⟩
        · omega

theorem Remembers.far (h : f.Remembers seen top) (hfar : n + 128 < top)
    (hnear : top < n + 32768) : f.isDuplicate (.ofNat 16 n) = (true, f) := by
  have hcap : Bitmap.CAPACITY < BitVec.ofNat 16 (top - n) := by
    rw [Bitmap.CAPACITY]
    bv_omega
  rw [h.isDuplicate_eq, ShortestPath.compute_behind (by omega) hnear]
  dsimp only
  rw [if_pos hcap]

theorem Remembers.answer (h : f.Remembers seen top) (hahead : n < top + 32768)
    (hbehind : top < n + 32768) :
    ∃ f', f.isDuplicate (.ofNat 16 n) = (decide (n ∈ seen ∨ n + 128 < top), f') ∧
      f'.Remembers (seen ++ [n]) (max top n) := by
  rcases Nat.lt_or_ge top n with hlt | hle
  · obtain ⟨f', hanswer, hf'⟩ := h.ahead hlt hahead
    have hnew : ¬ (n ∈ seen ∨ n + 128 < top) := by
      intro hold
      obtain hseen | hfar := hold
      · have hle := h.le_top n hseen
        omega
      · omega
    rw [decide_eq_false hnew, Nat.max_eq_right (Nat.le_of_lt hlt)]
    exact ⟨f', hanswer, hf'⟩
  rw [Nat.max_eq_left hle]
  rcases Nat.lt_or_ge (n + 128) top with hfar | hclose
  · rw [decide_eq_true (Or.inr hfar)]
    exact ⟨f, h.far hfar hbehind, h.concat (Or.inr hfar)⟩
  · obtain ⟨hseen, hanswer⟩ | ⟨hnew, f', hanswer, hf'⟩ := h.behind hle hclose
    · rw [decide_eq_true (Or.inl hseen)]
      exact ⟨f, hanswer, h.concat (Or.inl hseen)⟩
    · have hnot : ¬ (n ∈ seen ∨ n + 128 < top) := by
        intro hold
        obtain hseen | hfar := hold
        · exact hnew hseen
        · omega
      rw [decide_eq_false hnot]
      exact ⟨f', hanswer, hf'⟩

/-! ## Every epoch -/

/-- An epoch lifted by whole turns of the circle, so that none is negative. -/
def lift (turns : Nat) (epoch : Int) : Nat := (epoch + 65536 * turns).toNat

theorem wrap_eq_lift {turns : Nat} {epoch : Int} (h : 0 ≤ epoch + 65536 * turns) :
    wrap epoch = .ofNat 16 (lift turns epoch) := by
  apply BitVec.eq_of_toNat_eq
  rw [wrap, lift, BitVec.toNat_ofInt, BitVec.toNat_ofNat]
  omega

theorem exists_turns (epochs : List Int) : ∃ turns : Nat, ∀ e ∈ epochs, 0 ≤ e + 65536 * turns := by
  induction epochs with
  | nil => exact ⟨0, fun e he => absurd he List.not_mem_nil⟩
  | cons epoch epochs ih =>
    obtain ⟨turns, hturns⟩ := ih
    refine ⟨turns + epoch.natAbs, ?_⟩
    intro e he
    obtain rfl | hold := List.mem_cons.1 he
    · omega
    · have hpos := hturns e hold
      omega

theorem near_of_append {earlier later : List Int} (h : Near (earlier ++ later)) :
    Near earlier := by
  intro before epoch after hsplit top htop hmax
  refine h before epoch (after ++ later) ?_ top htop hmax
  rw [hsplit, List.append_assoc, List.cons_append]

theorem near_nil : Near [] := by
  intro earlier epoch later hsplit
  cases earlier with
  | nil => cases hsplit
  | cons e earlier => cases hsplit

theorem near_concat {epochs : List Int} {epoch : Int} (h : Near epochs)
    (hnear : ∀ top ∈ epochs, (∀ e ∈ epochs, e ≤ top) →
      epoch ≤ top + 32767 ∧ top ≤ epoch + 32767) : Near (epochs ++ [epoch]) := by
  intro earlier next later hsplit top htop hmax
  rcases List.eq_nil_or_concat later with hlast | ⟨later', last, hlater⟩
  · subst hlast
    obtain ⟨hsame, hnext⟩ := List.append_inj' hsplit rfl
    cases hnext
    subst hsame
    exact hnear top htop hmax
  · rw [List.concat_eq_append] at hlater
    subst hlater
    rw [← List.cons_append, ← List.append_assoc] at hsplit
    obtain ⟨hsame, -⟩ := List.append_inj' hsplit rfl
    exact h earlier next later' hsame top htop hmax

theorem remembers_feed {turns : Nat} {epochs : List Int} (hne : epochs ≠ []) (hnear : Near epochs)
    (hturns : ∀ e ∈ epochs, 0 ≤ e + 65536 * turns) :
    ∃ top ∈ epochs, (∀ e ∈ epochs, e ≤ top) ∧
      (new.feed epochs).Remembers (epochs.map (lift turns)) (lift turns top) := by
  induction epochs using List.reverseRecOn with
  | nil => exact absurd rfl hne
  | append_singleton epochs epoch ih =>
    have hlast : 0 ≤ epoch + 65536 * turns :=
      hturns epoch (List.mem_append_right _ List.mem_cons_self)
    have hstep : new.feed (epochs ++ [epoch]) =
        ((new.feed epochs).isDuplicate (.ofNat 16 (lift turns epoch))).2 := by
      rw [feed, List.foldl_append, ← wrap_eq_lift hlast]
      rfl
    by_cases hempty : epochs = []
    · subst hempty
      obtain ⟨f', hanswer, hf'⟩ := isDuplicate_new (lift turns epoch)
      refine ⟨epoch, List.mem_cons_self, ?_, ?_⟩
      · intro e he
        exact Int.le_of_eq (List.mem_singleton.1 he)
      · rw [hstep]
        have hfresh : new.feed [] = new := rfl
        rw [hfresh, hanswer]
        exact hf'
    obtain ⟨top, htop, hmax, hremembers⟩ := ih hempty (near_of_append hnear)
      (fun e he => hturns e (List.mem_append_left _ he))
    have htop' := hturns top (List.mem_append_left _ htop)
    obtain ⟨hahead, hbehind⟩ := hnear epochs epoch [] rfl top htop hmax
    obtain ⟨f', hanswer, hf'⟩ := hremembers.answer (n := lift turns epoch)
      (by unfold lift; omega) (by unfold lift; omega)
    rw [hstep, hanswer, List.map_append]
    rcases Int.lt_or_le top epoch with hlt | hle
    · refine ⟨epoch, List.mem_append_right _ List.mem_cons_self, ?_, ?_⟩
      · intro e he
        obtain hold | hnew := List.mem_append.1 he
        · exact Int.le_trans (hmax e hold) (Int.le_of_lt hlt)
        · exact Int.le_of_eq (List.mem_singleton.1 hnew)
      · rw [Nat.max_eq_right (by unfold lift; omega)] at hf'
        exact hf'
    · refine ⟨top, List.mem_append_left _ htop, ?_, ?_⟩
      · intro e he
        obtain hold | hnew := List.mem_append.1 he
        · exact hmax e hold
        · rw [List.mem_singleton.1 hnew]
          exact hle
      · rw [Nat.max_eq_left (by unfold lift; omega)] at hf'
        exact hf'

/-- An epoch is called a duplicate exactly when it was seen, or lies more than 128 behind
the newest. -/
theorem duplicate_iff {earlier : List Int} {epoch : Int} (h : Near (earlier ++ [epoch])) :
    ((new.feed earlier).isDuplicate (wrap epoch)).1 = true ↔
      epoch ∈ earlier ∨ ∃ top ∈ earlier, (∀ e ∈ earlier, e ≤ top) ∧ epoch + 128 < top := by
  by_cases hempty : earlier = []
  · subst hempty
    constructor
    · intro hdup
      cases hdup
    · intro hold
      obtain hseen | ⟨top, htop, -⟩ := hold
      · cases hseen
      · cases htop
  obtain ⟨turns, hturns⟩ := exists_turns (earlier ++ [epoch])
  have hlast := hturns epoch (List.mem_append_right _ List.mem_cons_self)
  have hold := fun e he => hturns e (List.mem_append_left _ he)
  obtain ⟨top, htop, hmax, hremembers⟩ := remembers_feed hempty (near_of_append h) hold
  have htop' := hold top htop
  obtain ⟨hahead, hbehind⟩ := h earlier epoch [] rfl top htop hmax
  obtain ⟨f', hanswer, -⟩ := hremembers.answer (n := lift turns epoch)
    (by unfold lift; omega) (by unfold lift; omega)
  have hmem : lift turns epoch ∈ earlier.map (lift turns) ↔ epoch ∈ earlier := by
    constructor
    · intro hseen
      obtain ⟨e, he, hsame⟩ := List.mem_map.1 hseen
      have hpos := hold e he
      have heq : e = epoch := by
        unfold lift at hsame
        omega
      rw [← heq]
      exact he
    · exact List.mem_map_of_mem
  have hfar : lift turns epoch + 128 < lift turns top ↔ epoch + 128 < top := by
    unfold lift
    omega
  rw [wrap_eq_lift hlast, hanswer]
  show decide _ = true ↔ _
  rw [decide_eq_true_eq, hmem, hfar]
  constructor
  · intro hcase
    obtain hseen | hbelow := hcase
    · exact Or.inl hseen
    · exact Or.inr ⟨top, htop, hmax, hbelow⟩
  · intro hcase
    obtain hseen | ⟨top', htop'', -, hbelow⟩ := hcase
    · exact Or.inl hseen
    · have hle := hmax top' htop''
      exact Or.inr (by omega)

theorem near_round : Near ([0, 30000, 60000, 90000] ++ [89871]) := by
  have hnext : ∀ {epochs : List Int} (newest epoch : Int), Near epochs → newest ∈ epochs →
      (∀ e ∈ epochs, e ≤ newest) → epoch ≤ newest + 32767 → newest ≤ epoch + 32767 →
      Near (epochs ++ [epoch]) := by
    intro epochs newest epoch h hin hmax hahead hbehind
    apply near_concat h
    intro top htop htopmax
    have hle := hmax top htop
    have hge := htopmax newest hin
    omega
  have hfirst : Near ([] ++ [0]) := by
    apply near_concat near_nil
    intro top htop
    cases htop
  have hsecond := hnext 0 30000 hfirst (by decide) (by decide) (by decide) (by decide)
  have hthird := hnext 30000 60000 hsecond (by decide) (by decide) (by decide) (by decide)
  have hfourth := hnext 60000 90000 hthird (by decide) (by decide) (by decide) (by decide)
  exact hnext 90000 89871 hfourth (by decide) (by decide) (by decide) (by decide)

/-- The epoch 89871 was never seen, and counts as a duplicate. -/
theorem duplicate_iff_round :
    ((new.feed [0, 30000, 60000, 90000]).isDuplicate (wrap 89871)).1 = true := by
  apply (duplicate_iff near_round).2
  exact Or.inr ⟨90000, by decide, by decide, by decide⟩

end DuplicateFilter
end Isl
end Leodos
