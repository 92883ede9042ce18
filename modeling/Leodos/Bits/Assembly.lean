/-
Words assembled from fields.

A word is assembled by writing values into its fields one after the other.  The values are read
back when every one of them fits its field and no two fields overlap; a value that is too long
is not read back, and nothing is said about the fields behind it.
-/
import Leodos.Bits.Field

namespace Leodos
namespace Bits

variable {w : Nat}

/-- A run of adjacent bits and the mask that marks it. -/
structure Field (w : Nat) where
  mask : BitVec w
  lo : Nat
  len : Nat
  spans : Spans mask lo len

def Field.Apart (f g : Field w) : Prop := f.lo + f.len ≤ g.lo ∨ g.lo + g.len ≤ f.lo

instance (f g : Field w) : Decidable (f.Apart g) :=
  inferInstanceAs (Decidable (_ ∨ _))

/-- Fields and the values that are written into them, in this order. -/
abbrev Entries (w : Nat) := List (Field w × BitVec w)

def assemble (word : BitVec w) (entries : Entries w) : BitVec w :=
  entries.foldl (fun word entry => setBits word entry.1.mask entry.2) word

/-- Every value fits its field. -/
def AllFit : Entries w → Prop
  | [] => True
  | entry :: entries => Fits entry.2 entry.1.len ∧ AllFit entries

/-- Every value is read back from the word. -/
def Reads (word : BitVec w) : Entries w → Prop
  | [] => True
  | entry :: entries => getBits word entry.1.mask = entry.2 ∧ Reads word entries

theorem getBits_assemble (word : BitVec w) (entries : Entries w) (f : Field w)
    (hfit : AllFit entries) (hapart : ∀ g ∈ entries.map Prod.fst, f.Apart g) :
    getBits (assemble word entries) f.mask = getBits word f.mask := by
  induction entries generalizing word with
  | nil => rfl
  | cons entry entries ih =>
    rw [List.map_cons] at hapart
    have hhead := hapart entry.1 List.mem_cons_self
    have htail := fun g hg => hapart g (List.mem_cons_of_mem _ hg)
    show getBits (assemble (setBits word entry.1.mask entry.2) entries) f.mask = _
    rw [ih _ hfit.2 htail]
    exact getBits_setBits_of_disjoint entry.1.spans f.spans hhead.symm hfit.1 word

theorem reads_assemble (word : BitVec w) (entries : Entries w)
    (hapart : (entries.map Prod.fst).Pairwise Field.Apart) (hfit : AllFit entries) :
    Reads (assemble word entries) entries := by
  induction entries generalizing word with
  | nil => trivial
  | cons entry entries ih =>
    rw [List.map_cons, List.pairwise_cons] at hapart
    refine ⟨?_, ih _ hapart.2 hfit.2⟩
    show getBits (assemble (setBits word entry.1.mask entry.2) entries) entry.1.mask = _
    rw [getBits_assemble _ _ entry.1 hfit.2 hapart.1]
    exact getBits_setBits_self entry.1.spans hfit.1 word

theorem toNat_getBits_lt {mask : BitVec w} {lo len : Nat} (h : Spans mask lo len)
    (word : BitVec w) : (getBits word mask).toNat < 2 ^ len := by
  apply Nat.lt_pow_two_of_testBit
  intro i hi
  exact fits_getBits h word i hi

/-! ## Values narrower than the word -/

variable {n : Nat}

theorem setWidth_narrow (hn : n ≤ w) (v : BitVec n) : (v.setWidth w).setWidth n = v :=
  (BitVec.setWidth_setWidth_of_le v hn).trans (BitVec.setWidth_eq v)

theorem fits_narrow {v : BitVec n} {len : Nat} (h : v.toNat < 2 ^ len) :
    Fits (v.setWidth w) len := by
  apply fits_of_toNat_lt
  rw [BitVec.toNat_setWidth]
  exact Nat.lt_of_le_of_lt (Nat.mod_le ..) h

theorem toNat_of_read {mask word : BitVec w} {lo len : Nat} (h : Spans mask lo len) {v : BitVec n}
    (hread : (getBits word mask).setWidth n = v) : v.toNat < 2 ^ len := by
  rw [← hread, BitVec.toNat_setWidth]
  exact Nat.lt_of_le_of_lt (Nat.mod_le ..) (toNat_getBits_lt h word)

theorem read_iff {mask word : BitVec w} {lo len : Nat} (h : Spans mask lo len) (hlen : len ≤ n)
    (hn : n ≤ w) {v : BitVec n} :
    (getBits word mask).setWidth n = v ↔ getBits word mask = v.setWidth w := by
  have hfits : Fits (getBits word mask) n := fun i hi =>
    fits_getBits h word i (Nat.le_trans hlen hi)
  constructor
  · intro hread
    rw [← hread, setWidth_setWidth_of_fits hfits]
  · intro hbits
    rw [hbits, setWidth_narrow hn]

theorem flag_iff {mask word : BitVec w} {lo : Nat} (h : Spans mask lo 1) {b : Bool} :
    (getBits word mask != 0) = b ↔ getBits word mask = (BitVec.ofBool b).setWidth w := by
  have hw : 0 < w := Nat.lt_of_lt_of_le (Nat.succ_pos lo) h.2.1
  have hbit : getBits word mask = 0 ∨ getBits word mask = (1#1).setWidth w := by
    have hlt := toNat_getBits_lt h word
    have hone : (1#1).toNat < 2 ^ w := Nat.one_lt_two_pow (Nat.pos_iff_ne_zero.1 hw)
    by_cases hzero : (getBits word mask).toNat = 0
    · exact Or.inl (BitVec.eq_of_toNat_eq hzero)
    · refine Or.inr (BitVec.eq_of_toNat_eq ?_)
      rw [BitVec.toNat_setWidth, Nat.mod_eq_of_lt hone]
      show _ = 1
      omega
  have hne : (1#1).setWidth w ≠ 0#w := by
    intro heq
    have hlow := congrArg (fun x : BitVec w => x.getLsbD 0) heq
    simp [hw] at hlow
  rcases hbit with hbit | hbit
  · rw [hbit]
    cases b with
    | false => exact iff_of_true (by simp) (by simp)
    | true => exact iff_of_false (by simp) (fun heq => hne heq.symm)
  · rw [hbit]
    cases b with
    | false => exact iff_of_false (by simpa using hne) (by simpa using hne)
    | true => exact iff_of_true (by simpa using hne) rfl

/-! ## Fields that overlap -/

/-- The values agree on the bits that the fields share. -/
def Compatible (entry entry' : Field w × BitVec w) : Prop :=
  ∀ i, i < w → entry.1.lo ≤ i → i < entry.1.lo + entry.1.len → entry'.1.lo ≤ i →
    i < entry'.1.lo + entry'.1.len →
    entry.2.getLsbD (i - entry.1.lo) = entry'.2.getLsbD (i - entry'.1.lo)

theorem getLsbD_of_getBits {f : Field w} {word value : BitVec w}
    (h : getBits word f.mask = value) {i : Nat} (hlo : f.lo ≤ i) (hhi : i < f.lo + f.len) :
    value.getLsbD (i - f.lo) = word.getLsbD i := by
  have hlen : i - f.lo < f.len := by omega
  rw [← h, getLsbD_getBits f.spans, decide_eq_true hlen, Bool.true_and, Nat.add_sub_cancel' hlo]

theorem compatible_of_reads {entry entry' : Field w × BitVec w} {word : BitVec w}
    (h : getBits word entry.1.mask = entry.2) (h' : getBits word entry'.1.mask = entry'.2) :
    Compatible entry entry' := by
  intro i _ hlo hhi hlo' hhi'
  rw [getLsbD_of_getBits h hlo hhi, getLsbD_of_getBits h' hlo' hhi']

theorem getBits_setBits_of_compatible {entry entry' : Field w × BitVec w} {word : BitVec w}
    (h : getBits word entry.1.mask = entry.2) (hfit : Fits entry'.2 entry'.1.len)
    (hcompatible : Compatible entry entry') :
    getBits (setBits word entry'.1.mask entry'.2) entry.1.mask = entry.2 := by
  rw [← h]
  apply BitVec.eq_of_getLsbD_eq
  intro i _
  rw [getLsbD_getBits entry.1.spans, getLsbD_getBits entry.1.spans]
  by_cases hlen : i < entry.1.len
  · have hw : entry.1.lo + i < w :=
      Nat.lt_of_lt_of_le (Nat.add_lt_add_left hlen entry.1.lo) entry.1.spans.2.1
    have hlo : entry.1.lo ≤ entry.1.lo + i := Nat.le_add_right ..
    have hhi := Nat.add_lt_add_left hlen entry.1.lo
    rw [getLsbD_setBits entry'.1.spans hfit word hw]
    by_cases hin : entry'.1.lo ≤ entry.1.lo + i ∧ entry.1.lo + i < entry'.1.lo + entry'.1.len
    · rw [if_pos hin, ← hcompatible _ hw hlo hhi hin.1 hin.2, getLsbD_of_getBits h hlo hhi]
    · rw [if_neg hin]
  · rw [decide_eq_false hlen, Bool.false_and, Bool.false_and]

end Bits
end Leodos
