/-
Fixed-length cell memory as lists.

A Rust array or pool buffer is a list whose length never changes.  `write` is
`copy_from_slice` into a sub-slice, `slice` is the sub-slice itself, and
`copyWithin` moves a block inside the list, overlapping or not.  Every law is
stated through `getElem?`, so a caller splits on cell indices only once, here.
-/

namespace Leodos
namespace Memory

variable {α : Type}

/-- The `len` cells of `b` from `off` on. -/
def slice (b : List α) (off len : Nat) : List α :=
  (b.drop off).take len

/-- Overwrite the cells of `b` from `off` on with `src`.  Cells of `src` that
would fall past the end are dropped, so the length of `b` never changes. -/
def write (b : List α) (off : Nat) (src : List α) : List α :=
  b.take off ++ src.take (b.length - off) ++ b.drop (off + src.length)

/-- Copy the block of `len` cells at `src` to `dst`, reading all of it first. -/
def copyWithin (b : List α) (src len dst : Nat) : List α :=
  write b dst (slice b src len)

theorem slice_getElem? (b : List α) (off len i : Nat) :
    (slice b off len)[i]? = if i < len then b[off + i]? else none := by
  simp [slice, List.getElem?_take, List.getElem?_drop]

theorem slice_length {b : List α} {off len : Nat} (h : off + len ≤ b.length) :
    (slice b off len).length = len := by
  simp [slice]
  omega

@[simp] theorem slice_zero (b : List α) (off : Nat) : slice b off 0 = [] := by
  simp [slice]

theorem slice_add (b : List α) (off n k : Nat) :
    slice b off (n + k) = slice b off n ++ slice b (off + n) k := by
  rw [slice, slice, slice, List.take_add, List.drop_drop]

theorem slice_drop (b : List α) (k off len : Nat) :
    slice (b.drop k) off len = slice b (k + off) len := by
  rw [slice, slice, List.drop_drop]

theorem slice_append_right (a b : List α) (off len : Nat) :
    slice (a ++ b) (a.length + off) len = slice b off len := by
  rw [slice, slice, List.drop_length_add_append]

theorem slice_append_left (a b : List α) : slice (a ++ b) 0 a.length = a := by
  rw [slice, List.drop_zero, List.take_left]

@[simp] theorem write_length (b : List α) (off : Nat) (src : List α) :
    (write b off src).length = b.length := by
  simp [write]
  omega

@[simp] theorem copyWithin_length (b : List α) (src len dst : Nat) :
    (copyWithin b src len dst).length = b.length :=
  write_length _ _ _

theorem write_getElem? (b : List α) (off : Nat) (src : List α) (i : Nat) :
    (write b off src)[i]? =
      if off ≤ i ∧ i < off + src.length ∧ i < b.length then src[i - off]?
      else b[i]? := by
  unfold write
  rw [List.append_assoc, List.getElem?_append, List.getElem?_append]
  simp only [List.length_take, List.getElem?_take, List.getElem?_drop]
  by_cases hlo : i < min off b.length
  · have h₁ : i < off := by omega
    simp [hlo, h₁, show ¬ off ≤ i by omega]
  · rw [if_neg hlo]
    by_cases hb : b.length ≤ off
    · have hmin : min off b.length = b.length := by omega
      simp [hmin, show ¬ i < b.length by omega, show b.length - off = 0 by omega]
      omega
    · have hmin : min off b.length = off := by omega
      rw [hmin]
      by_cases hsrc : i - off < min (b.length - off) src.length
      · have h₁ : i - off < b.length - off := by omega
        have h₂ : off ≤ i ∧ i < off + src.length ∧ i < b.length := by omega
        rw [if_pos hsrc, if_pos h₁, if_pos h₂]
      · rw [if_neg hsrc, if_neg (by omega)]
        by_cases hend : i < b.length
        · congr 1
          omega
        · rw [List.getElem?_eq_none (by omega), List.getElem?_eq_none (by omega)]

@[simp] theorem write_nil (b : List α) (off : Nat) : write b off [] = b := by
  simp [write]

theorem write_zero {b src : List α} (h : src.length ≤ b.length) :
    write b 0 src = src ++ b.drop src.length := by
  rw [write, List.take_zero, List.nil_append, List.take_of_length_le (by omega), Nat.zero_add]

theorem take_write {b src : List α} (h : src.length ≤ b.length) :
    (write b 0 src).take src.length = src := by
  rw [write_zero h, List.take_left]

theorem write_replicate {z : α} {n off : Nat} {src : List α} (h : off + src.length = n) :
    write (List.replicate n z) off src = List.replicate off z ++ src := by
  rw [write, List.take_replicate, List.length_replicate, List.take_of_length_le (by omega),
    List.drop_replicate, h, Nat.sub_self, List.replicate_zero, List.append_nil,
    Nat.min_eq_left (by omega)]

theorem slice_write_self {b src : List α} {off : Nat}
    (h : off + src.length ≤ b.length) :
    slice (write b off src) off src.length = src := by
  apply List.ext_getElem?
  intro i
  rw [slice_getElem?]
  by_cases hi : i < src.length
  · rw [if_pos hi, write_getElem?, if_pos (by omega)]
    congr 1
    omega
  · rw [if_neg hi, List.getElem?_eq_none (by omega)]

theorem slice_write_of_disjoint {b src : List α} {off off' len : Nat}
    (h : off' + len ≤ off ∨ off + src.length ≤ off') :
    slice (write b off src) off' len = slice b off' len := by
  apply List.ext_getElem?
  intro i
  rw [slice_getElem?, slice_getElem?]
  by_cases hi : i < len
  · rw [if_pos hi, if_pos hi, write_getElem?, if_neg (by omega)]
  · rw [if_neg hi, if_neg hi]

theorem write_write {b src src' : List α} {off : Nat} (h : src.length = src'.length) :
    write (write b off src) off src' = write b off src' := by
  apply List.ext_getElem?
  intro i
  rw [write_getElem?, write_getElem?, write_getElem?, write_length, h]
  split <;> rfl

theorem write_comm {b src src' : List α} {off off' : Nat} (h : off + src.length ≤ off') :
    write (write b off src) off' src' = write (write b off' src') off src := by
  apply List.ext_getElem?
  intro i
  rw [write_getElem?, write_getElem?, write_getElem?, write_getElem?, write_length, write_length]
  by_cases hi : off' ≤ i ∧ i < off' + src'.length ∧ i < b.length
  · rw [if_pos hi, if_neg (by omega), if_pos hi]
  · rw [if_neg hi, if_neg hi]

theorem write_slice {b : List α} {off len : Nat} (h : off + len ≤ b.length) :
    write b off (slice b off len) = b := by
  apply List.ext_getElem?
  intro i
  rw [write_getElem?, slice_length h]
  split
  · rw [slice_getElem?, if_pos (by omega)]
    congr 1
    omega
  · rfl

theorem take_write_of_le {b src : List α} {off n : Nat} (h : n ≤ off) :
    (write b off src).take n = b.take n := by
  show slice _ 0 n = slice b 0 n
  exact slice_write_of_disjoint (Or.inl (by omega))

theorem slice_write_append {b src : List α} {n : Nat} (h : n + src.length ≤ b.length) :
    slice (write b n src) 0 (n + src.length) = slice b 0 n ++ src := by
  have hlen : (slice b 0 n).length = n := slice_length (by omega)
  apply List.ext_getElem?
  intro i
  rw [slice_getElem?, List.getElem?_append, hlen, slice_getElem?, Nat.zero_add]
  by_cases hi : i < n
  · rw [if_pos (by omega), if_pos hi, if_pos hi, write_getElem?, if_neg (by omega)]
  · rw [if_neg hi]
    by_cases hs : i < n + src.length
    · rw [if_pos hs, write_getElem?, if_pos (by omega)]
    · rw [if_neg hs, List.getElem?_eq_none (by omega)]

theorem slice_write_append_of_length {b src : List α} {n k : Nat} (hk : src.length = k)
    (h : n + k ≤ b.length) : slice (write b n src) 0 (n + k) = slice b 0 n ++ src := by
  rw [← hk] at h ⊢
  exact slice_write_append h

theorem slice_copyWithin_self {b : List α} {src len dst : Nat}
    (hsrc : src + len ≤ b.length) (hdst : dst + len ≤ b.length) :
    slice (copyWithin b src len dst) dst len = slice b src len := by
  have hlen : (slice b src len).length = len := slice_length hsrc
  have h : slice (write b dst (slice b src len)) dst (slice b src len).length =
      slice b src len := slice_write_self (by omega)
  rw [hlen] at h
  exact h

theorem slice_copyWithin_of_disjoint {b : List α} {src len dst off n : Nat}
    (hsrc : src + len ≤ b.length) (h : off + n ≤ dst ∨ dst + len ≤ off) :
    slice (copyWithin b src len dst) off n = slice b off n := by
  have hlen : (slice b src len).length = len := slice_length hsrc
  exact slice_write_of_disjoint (by omega)

theorem slice_copyWithin_part {b : List α} {src len dst k n : Nat}
    (hsrc : src + len ≤ b.length) (hdst : dst + len ≤ b.length) (hk : k + n ≤ len) :
    slice (copyWithin b src len dst) (dst + k) n = slice b (src + k) n := by
  have hlen : (slice b src len).length = len := slice_length hsrc
  apply List.ext_getElem?
  intro i
  rw [slice_getElem?, slice_getElem?]
  by_cases hi : i < n
  · rw [if_pos hi, if_pos hi, copyWithin, write_getElem?, hlen, if_pos (by omega),
      slice_getElem?, if_pos (by omega)]
    congr 1
    omega
  · rw [if_neg hi, if_neg hi]

theorem copyWithin_same {b : List α} {src len : Nat} (h : src + len ≤ b.length) :
    copyWithin b src len src = b := write_slice h

theorem take_eq_map_getD {b : List α} {n : Nat} (h : n ≤ b.length) (d : α) :
    b.take n = (List.range n).map fun i => b.getD i d := by
  apply List.ext_getElem?
  intro i
  rw [List.getElem?_take, List.getElem?_map]
  by_cases hi : i < n
  · rw [if_pos hi, List.getElem?_range hi, Option.map_some, List.getD_eq_getElem?_getD,
      List.getElem?_eq_getElem (by omega), Option.getD_some]
  · rw [if_neg hi, List.getElem?_eq_none (by rw [List.length_range]; omega), Option.map_none]

end Memory
end Leodos

/-
Records laid end to end in a cell memory.

Each record is encoded as a block of cells, and `Laid` says that a list of records
occupies the cells from one position to another without a gap.  A record may only
stand where `ok` allows it, which is how a reader's restrictions on positions are
kept with the layout.
-/

namespace Leodos
namespace Memory

variable {α β : Type}

theorem slice_of_append {b x y : List α} {p : Nat} (h : slice b p (x ++ y).length = x ++ y) :
    slice b p x.length = x ∧ slice b (p + x.length) y.length = y := by
  rw [List.length_append, slice_add] at h
  have hlen := congrArg List.length h
  have hx : (slice b p x.length).length ≤ x.length := by
    rw [slice, List.length_take]
    omega
  have hy : (slice b (p + x.length) y.length).length ≤ y.length := by
    rw [slice, List.length_take]
    omega
  rw [List.length_append, List.length_append] at hlen
  exact List.append_inj h (by omega)

/-- The records `ds` occupy the cells `p ..< e` of `b`, in order. -/
def Laid (enc : β → List α) (ok : Nat → β → Prop) (b : List α) : Nat → List β → Nat → Prop
  | p, [], e => p = e
  | p, d :: ds, e =>
      ok p d ∧ slice b p (enc d).length = enc d ∧ Laid enc ok b (p + (enc d).length) ds e

variable {enc : β → List α} {ok : Nat → β → Prop} {b : List α}

theorem Laid.le {ds : List β} {p e : Nat} (h : Laid enc ok b p ds e) : p ≤ e := by
  induction ds generalizing p with
  | nil => exact Nat.le_of_eq h
  | cons d ds ih =>
    have := ih h.2.2
    omega

theorem Laid.write {ds : List β} {p e off : Nat} {src : List α} (h : Laid enc ok b p ds e)
    (hclear : off + src.length ≤ p ∨ e ≤ off) : Laid enc ok (write b off src) p ds e := by
  induction ds generalizing p with
  | nil => exact h
  | cons d ds ih =>
    have hle := h.2.2.le
    refine ⟨h.1, ?_, ih h.2.2 (by omega)⟩
    rw [slice_write_of_disjoint (by omega)]
    exact h.2.1

theorem Laid.concat {ds : List β} {d : β} {p e : Nat} (h : Laid enc ok b p ds e)
    (hok : ok e d) (hroom : e + (enc d).length ≤ b.length) :
    Laid enc ok (Memory.write b e (enc d)) p (ds ++ [d]) (e + (enc d).length) := by
  induction ds generalizing p with
  | nil =>
    have hp : p = e := h
    subst hp
    exact ⟨hok, slice_write_self hroom, rfl⟩
  | cons d' ds ih =>
    have hle := h.2.2.le
    refine ⟨h.1, ?_, ih h.2.2⟩
    rw [slice_write_of_disjoint (by omega)]
    exact h.2.1

theorem Laid.congr {b' : List α} {ds : List β} {p e : Nat} (h : Laid enc ok b p ds e)
    (hsame : ∀ i, p ≤ i → i < e → b'[i]? = b[i]?) : Laid enc ok b' p ds e := by
  induction ds generalizing p with
  | nil => exact h
  | cons d ds ih =>
    have hle := h.2.2.le
    have hblock : slice b' p (enc d).length = slice b p (enc d).length := by
      apply List.ext_getElem?
      intro i
      rw [slice_getElem?, slice_getElem?]
      by_cases hi : i < (enc d).length
      · rw [if_pos hi, if_pos hi, hsame _ (by omega) (by omega)]
      · rw [if_neg hi, if_neg hi]
    exact ⟨h.1, hblock.trans h.2.1, ih h.2.2 fun i hi => hsame i (by omega)⟩

end Memory
end Leodos
