/-
A function applied to every column of a buffer.

A column is a family of cells, one for each row; the columns share no cell.  The loop reads a
column, applies a function that may fail, and writes the result back, one column after the
other.  A function that undoes another one column by column undoes it on the whole buffer.  Loops
that change some cells from the others, and loops that move cells one by one, follow.
-/
import Leodos.Assignment.Loop

namespace Leodos
namespace Memory

open Assignment

variable {α κ : Type}

/-! ## Tables -/

theorem mapM_eq_some {β : Type} {f : β → Option α} {xs : List β} {ys : List α} :
    xs.mapM f = some ys ↔ ys.length = xs.length ∧
      ∀ (i : Nat) (x : β), xs[i]? = some x → f x = ys[i]? := by
  induction xs generalizing ys with
  | nil =>
    constructor
    · intro h
      rw [← Option.some.inj h]
      exact ⟨rfl, fun i x hx => by cases hx⟩
    · intro h
      rw [List.eq_nil_of_length_eq_zero h.1]
      rfl
  | cons x xs ih =>
    simp only [List.mapM_cons, Option.bind_eq_bind, Option.bind_eq_some_iff, Option.pure_def,
      Option.some.injEq]
    constructor
    · intro h
      obtain ⟨y, hy, rest, hrest, hys⟩ := h
      obtain ⟨hlen, hget⟩ := ih.1 hrest
      rw [← hys]
      refine ⟨by rw [List.length_cons, List.length_cons, hlen], fun i x' hx => ?_⟩
      cases i with
      | zero =>
        rw [← Option.some.inj hx]
        exact hy
      | succ i => exact hget i x' hx
    · intro h
      obtain ⟨hlen, hget⟩ := h
      cases ys with
      | nil => cases hlen
      | cons y ys =>
        exact ⟨y, hget 0 x rfl, ys, ih.2 ⟨Nat.succ.inj hlen, fun i x' hx => hget (i + 1) x' hx⟩,
          rfl⟩

theorem mapM_range_eq_some {f : Nat → Option α} {n : Nat} {ys : List α} :
    (List.range n).mapM f = some ys ↔ ys.length = n ∧ ∀ k < n, f k = ys[k]? := by
  rw [mapM_eq_some, List.length_range]
  refine and_congr_right fun _ => ⟨fun h k hk => h k k (List.getElem?_range hk), fun h i x hx => ?_⟩
  have hi : i < n := by
    have hlt := (List.getElem?_eq_some_iff.1 hx).1
    rwa [List.length_range] at hlt
  rw [List.getElem?_range hi] at hx
  rw [← Option.some.inj hx]
  exact h i hi

/-! ## Columns -/

/-- The cells of a column: `at' z` is the place of row `z`. -/
def readColumn (rows : Nat) (at' : Nat → Nat) (b : List α) : Option (List α) :=
  (List.range rows).mapM fun z => b[at' z]?

def writeCell (at' : Nat → Nat) (out : List α) (b : List α) (z : Nat) : Option (List α) :=
  out[z]?.bind fun x => if at' z < b.length then some (b.set (at' z) x) else none

def writeColumn (rows : Nat) (at' : Nat → Nat) (out b : List α) : Option (List α) :=
  (List.range rows).foldlM (writeCell at' out) b

/-- One turn of the loop over the columns. -/
def mapColumn (rows : Nat) (f : List α → Option (List α)) (at' : Nat → Nat) (b : List α) :
    Option (List α) :=
  (readColumn rows at' b).bind fun col => (f col).bind fun out => writeColumn rows at' out b

def mapColumns (rows : Nat) (f : List α → Option (List α)) (place : κ → Nat → Nat) (keys : List κ)
    (b : List α) : Option (List α) :=
  keys.foldlM (fun b key => mapColumn rows f (place key) b) b

/-- The columns lie in `size` cells and share none. -/
structure Apart (rows : Nat) (place : κ → Nat → Nat) (keys : List κ) (size : Nat) : Prop where
  lt : ∀ key ∈ keys, ∀ z < rows, place key z < size
  inj : ∀ key ∈ keys, ∀ key' ∈ keys, ∀ z < rows, ∀ z' < rows,
    place key z = place key' z' → key = key' ∧ z = z'
  nodup : keys.Nodup

theorem readColumn_congr {rows : Nat} {at' : Nat → Nat} {b b' : List α}
    (h : ∀ z < rows, b'[at' z]? = b[at' z]?) : readColumn rows at' b' = readColumn rows at' b := by
  apply Option.ext
  intro col
  rw [readColumn, readColumn, mapM_range_eq_some, mapM_range_eq_some]
  refine and_congr_right fun _ => forall_congr' fun z => imp_congr_right fun hz => ?_
  rw [h z hz]

theorem readColumn_isSome {rows : Nat} {at' : Nat → Nat} {b : List α}
    (h : ∀ z < rows, at' z < b.length) : ∃ col, readColumn rows at' b = some col := by
  induction rows with
  | zero => exact ⟨[], rfl⟩
  | succ rows ih =>
    obtain ⟨col, hcol⟩ := ih fun z hz => h z (Nat.lt_succ_of_lt hz)
    obtain ⟨hlen, hget⟩ := mapM_range_eq_some.1 hcol
    obtain ⟨x, hx⟩ : ∃ x, b[at' rows]? = some x :=
      ⟨_, List.getElem?_eq_getElem (h rows (Nat.lt_succ_self rows))⟩
    refine ⟨col ++ [x], mapM_range_eq_some.2 ⟨?_, ?_⟩⟩
    · rw [List.length_append, hlen]
      rfl
    · intro z hz
      by_cases hz' : z = rows
      · rw [hz', hx, ← hlen, List.getElem?_concat_length]
      · rw [List.getElem?_append_left (by omega)]
        exact hget z (by omega)

theorem writeColumn_eq {rows : Nat} {at' : Nat → Nat} {out b : List α} (hlen : out.length = rows)
    (hlt : ∀ z < rows, at' z < b.length) (hinj : ∀ z < rows, ∀ z' < rows, at' z = at' z' → z = z') :
    ∃ b', writeColumn rows at' out b = some b' ∧ b'.length = b.length ∧
      (∀ z < rows, b'[at' z]? = out[z]?) ∧ ∀ i, (∀ z < rows, i ≠ at' z) → b'[i]? = b[i]? := by
  apply foldlM_range_of_inv (writeCell at' out)
    (fun k b' => b'.length = b.length ∧ (∀ z < k, b'[at' z]? = out[z]?) ∧
      ∀ i, (∀ z < k, i ≠ at' z) → b'[i]? = b[i]?)
  · exact ⟨rfl, fun z hz => absurd hz (Nat.not_lt_zero z), fun _ _ => rfl⟩
  · intro k hk b' hinv
    obtain ⟨hsize, hdone, hrest⟩ := hinv
    have hcell : at' k < b'.length := by
      rw [hsize]
      exact hlt k hk
    have hout : out[k]? = some (out.get ⟨k, by omega⟩) := List.getElem?_eq_getElem _
    refine ⟨b'.set (at' k) (out.get ⟨k, by omega⟩), ?_, ?_, ?_, ?_⟩
    · rw [writeCell, hout, Option.bind_some, if_pos hcell]
    · rw [List.length_set, hsize]
    · intro z hz
      by_cases hz' : z = k
      · rw [hz', List.getElem?_set_self hcell, hout]
      · rw [List.getElem?_set_ne fun he => hz' (hinj k hk z (by omega) he).symm]
        exact hdone z (by omega)
    · intro i hi
      rw [List.getElem?_set_ne (hi k (Nat.lt_succ_self k)).symm]
      exact hrest i fun z hz => hi z (Nat.lt_succ_of_lt hz)

section Maps

variable {rows : Nat} {f : List α → Option (List α)} {place : κ → Nat → Nat} {keys : List κ}
variable {b b' : List α}

/-- `b'` is `b` with every column mapped. -/
structure Mapped (rows : Nat) (f : List α → Option (List α)) (place : κ → Nat → Nat)
    (keys : List κ) (b b' : List α) : Prop where
  length : b'.length = b.length
  column : ∀ key ∈ keys, (readColumn rows (place key) b).bind f = readColumn rows (place key) b'
  rest : ∀ i, (∀ key ∈ keys, ∀ z < rows, i ≠ place key z) → b'[i]? = b[i]?

theorem Apart.mapColumn {key : κ} (h : Apart rows place keys b.length) (hkey : key ∈ keys)
    (hf : ∀ col out, f col = some out → out.length = col.length) {out : List α}
    (hout : (readColumn rows (place key) b).bind f = some out) :
    ∃ b', mapColumn rows f (place key) b = some b' ∧ Mapped rows f place [key] b b' := by
  obtain ⟨col, hcol, hmap⟩ := Option.bind_eq_some_iff.1 hout
  have hlen : out.length = rows := (hf col out hmap).trans (mapM_range_eq_some.1 hcol).1
  obtain ⟨b', hb', hsize, hdone, hrest⟩ := writeColumn_eq (b := b) hlen (h.lt key hkey)
    fun z hz z' hz' he => (h.inj key hkey key hkey z hz z' hz' he).2
  refine ⟨b', by rw [Memory.mapColumn, hcol, Option.bind_some, hmap, Option.bind_some, hb'],
    hsize, ?_, ?_⟩
  · intro key' hkey'
    rw [List.mem_singleton.1 hkey', hout]
    exact (mapM_range_eq_some.2 ⟨hlen, hdone⟩).symm
  · intro i hi
    exact hrest i (hi key (List.mem_singleton_self key))

theorem Apart.read_other {key : κ} {size : Nat} (h : Apart rows place (key :: keys) size)
    (hmapped : Mapped rows f place [key] b b') {k : κ} (hk : k ∈ keys) :
    readColumn rows (place k) b' = readColumn rows (place k) b := by
  apply readColumn_congr
  intro z hz
  apply hmapped.rest
  intro k' hk' z' hz' he
  rw [List.mem_singleton.1 hk'] at he
  have hsame := h.inj k (List.mem_cons_of_mem _ hk) key List.mem_cons_self z hz z' hz' he
  rw [hsame.1] at hk
  exact (List.nodup_cons.1 h.nodup).1 hk

theorem Apart.tail {key : κ} {size : Nat} (h : Apart rows place (key :: keys) size) :
    Apart rows place keys size :=
  ⟨fun k hk => h.lt k (List.mem_cons_of_mem _ hk), fun k hk k' hk' =>
    h.inj k (List.mem_cons_of_mem _ hk) k' (List.mem_cons_of_mem _ hk'),
    (List.nodup_cons.1 h.nodup).2⟩

theorem Apart.mapColumns (h : Apart rows place keys b.length)
    (hf : ∀ col out, f col = some out → out.length = col.length)
    (hall : ∀ key ∈ keys, ∃ out, (readColumn rows (place key) b).bind f = some out) :
    ∃ b', mapColumns rows f place keys b = some b' ∧ Mapped rows f place keys b b' := by
  induction keys generalizing b with
  | nil => exact ⟨b, rfl, rfl, fun key hkey => (List.not_mem_nil hkey).elim, fun _ _ => rfl⟩
  | cons key keys ih =>
    obtain ⟨out, hout⟩ := hall key List.mem_cons_self
    obtain ⟨b₁, hb₁, hmapped⟩ := h.mapColumn List.mem_cons_self hf hout
    have hnew := (List.nodup_cons.1 h.nodup).1
    obtain ⟨b', hb', hmapped'⟩ := ih (by rw [hmapped.length]; exact h.tail) fun k hk => by
      rw [h.read_other hmapped hk]
      exact hall k (List.mem_cons_of_mem _ hk)
    refine ⟨b', by rw [Memory.mapColumns, List.foldlM_cons, hb₁]; exact hb', ?_, ?_, ?_⟩
    · rw [hmapped'.length, hmapped.length]
    · intro k hk
      rcases List.mem_cons.1 hk with hk | hk
      · rw [hk, hmapped.column key (List.mem_singleton_self key)]
        apply (readColumn_congr _).symm
        intro z hz
        apply hmapped'.rest
        intro k' hk' z' hz' he
        have hsame := h.inj key List.mem_cons_self k' (List.mem_cons_of_mem _ hk') z hz z' hz' he
        rw [hsame.1] at hnew
        exact hnew hk'
      · rw [← hmapped'.column k hk, h.read_other hmapped hk]
    · intro i hi
      rw [hmapped'.rest i fun k hk => hi k (List.mem_cons_of_mem _ hk)]
      exact hmapped.rest i fun k hk =>
        hi k (by rw [List.mem_singleton.1 hk]; exact List.mem_cons_self)

theorem Apart.column_isSome (h : Apart rows place keys b.length)
    (hf : ∀ col out, f col = some out → out.length = col.length)
    (hrun : Memory.mapColumns rows f place keys b = some b') :
    ∀ key ∈ keys, ∃ out, (readColumn rows (place key) b).bind f = some out := by
  induction keys generalizing b with
  | nil => exact fun key hkey => (List.not_mem_nil hkey).elim
  | cons key keys ih =>
    rw [Memory.mapColumns, List.foldlM_cons] at hrun
    obtain ⟨b₁, hb₁, hrest⟩ := Option.bind_eq_some_iff.1 hrun
    have hstep := hb₁
    rw [Memory.mapColumn] at hstep
    obtain ⟨col, hcol, hstep⟩ := Option.bind_eq_some_iff.1 hstep
    obtain ⟨out, hout, -⟩ := Option.bind_eq_some_iff.1 hstep
    have hfirst : (readColumn rows (place key) b).bind f = some out := by
      rw [hcol, Option.bind_some, hout]
    obtain ⟨b₂, hb₂, hmapped⟩ := h.mapColumn List.mem_cons_self hf hfirst
    rw [hb₁] at hb₂
    rw [← Option.some.inj hb₂] at hmapped
    intro k hk
    rcases List.mem_cons.1 hk with hk | hk
    · rw [hk]
      exact ⟨out, hfirst⟩
    · rw [← h.read_other hmapped hk]
      exact ih (by rw [hmapped.length]; exact h.tail) hrest k hk

theorem getElem?_of_readColumn {at' : Nat → Nat} {col : List α}
    (h : readColumn rows at' b = some col) {z : Nat} (hz : z < rows) : b[at' z]? = col[z]? :=
  (mapM_range_eq_some.1 h).2 z hz

theorem Apart.mapColumns_undo {g : List α → Option (List α)} (h : Apart rows place keys b.length)
    (hf : ∀ col out, f col = some out → out.length = col.length)
    (hg : ∀ col out, g col = some out → out.length = col.length)
    (hundo : ∀ key ∈ keys, ∀ col out, readColumn rows (place key) b = some col → f col = some out →
      g out = some col)
    (hrun : Memory.mapColumns rows f place keys b = some b') :
    Memory.mapColumns rows g place keys b' = some b := by
  have hall := h.column_isSome hf hrun
  obtain ⟨b₁, hb₁, hmapped⟩ := h.mapColumns hf hall
  rw [hrun] at hb₁
  rw [← Option.some.inj hb₁] at hmapped
  have hback : ∀ key ∈ keys, (readColumn rows (place key) b').bind g =
      readColumn rows (place key) b := by
    intro key hkey
    obtain ⟨out, hout⟩ := hall key hkey
    obtain ⟨col, hcol, hmap⟩ := Option.bind_eq_some_iff.1 hout
    rw [← hmapped.column key hkey, hout, Option.bind_some, hcol]
    exact hundo key hkey col out hcol hmap
  have hread : ∀ key ∈ keys, ∃ col, readColumn rows (place key) b = some col := fun key hkey =>
    readColumn_isSome (h.lt key hkey)
  obtain ⟨b'', hb'', hmapped'⟩ := Apart.mapColumns (b := b') (by rw [hmapped.length]; exact h) hg
    fun key hkey => by
      rw [hback key hkey]
      exact hread key hkey
  rw [hb'']
  congr 1
  apply List.ext_getElem?
  intro i
  by_cases hi : ∀ key ∈ keys, ∀ z < rows, i ≠ place key z
  · rw [hmapped'.rest i hi, hmapped.rest i hi]
  · simp only [not_forall, Classical.not_not] at hi
    obtain ⟨key, hkey, z, hz, he⟩ := hi
    obtain ⟨col, hcol⟩ := hread key hkey
    have hcol' : readColumn rows (place key) b'' = some col := by
      rw [← hmapped'.column key hkey, hback key hkey, hcol]
    rw [he, getElem?_of_readColumn hcol hz, getElem?_of_readColumn hcol' hz]

end Maps

/-! ## Lengths -/

theorem length_of_foldlM {f : List α → κ → Option (List α)} {ks : List κ} {b b' : List α}
    (hf : ∀ b k b', f b k = some b' → b'.length = b.length) (h : ks.foldlM f b = some b') :
    b'.length = b.length := by
  induction ks generalizing b with
  | nil =>
    cases h
    rfl
  | cons k ks ih =>
    rw [List.foldlM_cons] at h
    obtain ⟨b₁, hb₁, hrest⟩ := Option.bind_eq_some_iff.1 h
    rw [ih hrest, hf b k b₁ hb₁]

theorem length_writeColumn {rows : Nat} {at' : Nat → Nat} {out b b' : List α}
    (h : writeColumn rows at' out b = some b') : b'.length = b.length := by
  refine length_of_foldlM (fun b z b' hz => ?_) h
  obtain ⟨x, -, hz⟩ := Option.bind_eq_some_iff.1 hz
  split at hz
  · rw [← Option.some.inj hz, List.length_set]
  · cases hz

theorem length_mapColumns {rows : Nat} {f : List α → Option (List α)} {place : κ → Nat → Nat}
    {keys : List κ} {b b' : List α} (h : mapColumns rows f place keys b = some b') :
    b'.length = b.length := by
  refine length_of_foldlM (fun b key b' hkey => ?_) h
  obtain ⟨col, -, hkey⟩ := Option.bind_eq_some_iff.1 hkey
  obtain ⟨out, -, hkey⟩ := Option.bind_eq_some_iff.1 hkey
  exact length_writeColumn hkey

/-! ## Cells changed from the others

A loop changes some cells, each by what it reads from cells that the loop never writes.  So the
loop with an operation that undoes the first one reads the same and takes the changes back. -/

section Lifting

def liftCell (op : α → α → Option α) (at' : Nat → Nat) (context : List α → Nat → Option α)
    (b : List α) (k : Nat) : Option (List α) :=
  b[at' k]?.bind fun x => (context b k).bind fun c => (op x c).map fun y => b.set (at' k) y

def liftCells (op : α → α → Option α) (at' : Nat → Nat) (context : List α → Nat → Option α)
    (n : Nat) (b : List α) : Option (List α) :=
  (List.range n).foldlM (liftCell op at' context) b

/-- `b'` is `b` with its first `n` cells at the places changed. -/
structure Lifted (op : α → α → Option α) (at' : Nat → Nat) (context : List α → Nat → Option α)
    (n : Nat) (b b' : List α) : Prop where
  length : b'.length = b.length
  cell : ∀ k < n, ∃ x c y, b[at' k]? = some x ∧ context b k = some c ∧ op x c = some y ∧
    b'[at' k]? = some y
  rest : ∀ i, (∀ k < n, i ≠ at' k) → b'[i]? = b[i]?

/-- The places differ, and no cell that is read is written. -/
structure Liftable (at' : Nat → Nat) (context : List α → Nat → Option α) (n : Nat) : Prop where
  inj : ∀ k < n, ∀ k' < n, at' k = at' k' → k = k'
  reads : ∀ b b' : List α, (∀ i, (∀ k < n, i ≠ at' k) → b'[i]? = b[i]?) →
    ∀ k < n, context b' k = context b k

variable {op op' : α → α → Option α} {at' : Nat → Nat} {context : List α → Nat → Option α}
variable {n : Nat} {b b' : List α}

theorem Lifted.unique {b'' : List α} (h : Lifted op at' context n b b')
    (h' : Lifted op at' context n b b'') : b' = b'' := by
  apply List.ext_getElem?
  intro i
  by_cases hi : ∀ k < n, i ≠ at' k
  · rw [h.rest i hi, h'.rest i hi]
  · simp only [not_forall, Classical.not_not] at hi
    obtain ⟨k, hk, hik⟩ := hi
    obtain ⟨x, c, y, hx, hc, hy, hcell⟩ := h.cell k hk
    obtain ⟨x', c', y', hx', hc', hy', hcell'⟩ := h'.cell k hk
    rw [hx] at hx'
    rw [hc] at hc'
    rw [← Option.some.inj hx', ← Option.some.inj hc', hy] at hy'
    rw [hik, hcell, hcell', hy']

theorem Liftable.exists_lifted (h : Liftable at' context n)
    (hcell : ∀ k < n, ∃ x c y, b[at' k]? = some x ∧ context b k = some c ∧ op x c = some y) :
    ∃ b', liftCells op at' context n b = some b' ∧ Lifted op at' context n b b' := by
  obtain ⟨b', hb', hlen, hdone, hrest⟩ := foldlM_range_of_inv (liftCell op at' context)
    (fun m b' => b'.length = b.length ∧ (∀ k < m, ∃ x c y, b[at' k]? = some x ∧
      context b k = some c ∧ op x c = some y ∧ b'[at' k]? = some y) ∧
      ∀ i, (∀ k < m, i ≠ at' k) → b'[i]? = b[i]?) n b
    ⟨rfl, fun k hk => absurd hk (Nat.not_lt_zero k), fun _ _ => rfl⟩ fun m hm b' hinv => by
      obtain ⟨hlen, hdone, hrest⟩ := hinv
      obtain ⟨x, c, y, hx, hc, hy⟩ := hcell m hm
      have hnew : ∀ k < m, at' m ≠ at' k := fun k hk he =>
        Nat.ne_of_gt hk (h.inj m hm k (by omega) he)
      have hlt : at' m < b'.length := by
        rw [hlen]
        exact (List.getElem?_eq_some_iff.1 hx).1
      have hcontext : context b' m = some c := by
        rw [h.reads b b' (fun i hi => hrest i fun k hk => hi k (by omega)) m hm, hc]
      refine ⟨b'.set (at' m) y, ?_, by rw [List.length_set, hlen], fun k hk => ?_, fun i hi => ?_⟩
      · rw [liftCell, hrest _ hnew, hx, Option.bind_some, hcontext, Option.bind_some, hy]
        rfl
      · by_cases hkm : k = m
        · rw [hkm]
          exact ⟨x, c, y, hx, hc, hy, List.getElem?_set_self hlt⟩
        · obtain ⟨x', c', y', hx', hc', hy', hdone'⟩ := hdone k (by omega)
          rw [List.getElem?_set_ne (hnew k (by omega))]
          exact ⟨x', c', y', hx', hc', hy', hdone'⟩
      · rw [List.getElem?_set_ne (hi m (Nat.lt_succ_self m)).symm]
        exact hrest i fun k hk => hi k (Nat.lt_succ_of_lt hk)
  exact ⟨b', hb', hlen, hdone, hrest⟩

theorem Liftable.lifted (h : Liftable at' context n) {m : Nat} (hm : m ≤ n)
    (hrun : liftCells op at' context m b = some b') : Lifted op at' context m b b' := by
  induction m generalizing b' with
  | zero =>
    cases hrun
    exact ⟨rfl, fun k hk => absurd hk (Nat.not_lt_zero k), fun _ _ => rfl⟩
  | succ m ih =>
    rw [liftCells, List.range_succ, List.foldlM_append] at hrun
    obtain ⟨b₁, hb₁, hlast⟩ := Option.bind_eq_some_iff.1 hrun
    have hmid := ih (by omega) hb₁
    rw [List.foldlM_cons] at hlast
    obtain ⟨b₂, hb₂, hlast⟩ := Option.bind_eq_some_iff.1 hlast
    cases hlast
    obtain ⟨x, hx, hb₂⟩ := Option.bind_eq_some_iff.1 hb₂
    obtain ⟨c, hc, hb₂⟩ := Option.bind_eq_some_iff.1 hb₂
    obtain ⟨y, hy, hb₂⟩ := Option.map_eq_some_iff.1 hb₂
    have hnew : ∀ k < m, at' m ≠ at' k := fun k hk he =>
      Nat.ne_of_gt hk (h.inj m hm k (by omega) he)
    have hlt : at' m < b₁.length := (List.getElem?_eq_some_iff.1 hx).1
    rw [hmid.rest _ hnew] at hx
    rw [h.reads b b₁ (fun i hi => hmid.rest i fun k hk => hi k (by omega)) m hm] at hc
    rw [← hb₂]
    refine ⟨by rw [List.length_set, hmid.length], fun k hk => ?_, fun i hi => ?_⟩
    · by_cases hkm : k = m
      · rw [hkm]
        exact ⟨x, c, y, hx, hc, hy, List.getElem?_set_self hlt⟩
      · rw [List.getElem?_set_ne (hnew k (by omega))]
        exact hmid.cell k (by omega)
    · rw [List.getElem?_set_ne (hi m (Nat.lt_succ_self m)).symm]
      exact hmid.rest i fun k hk => hi k (Nat.lt_succ_of_lt hk)

theorem Liftable.liftCells_undo (h : Liftable at' context n)
    (hundo : ∀ x c y, op x c = some y → op' y c = some x)
    (hrun : liftCells op at' context n b = some b') : liftCells op' at' context n b' = some b := by
  have hlifted := h.lifted (Nat.le_refl n) hrun
  have hcell : ∀ k < n, ∃ x c y, b'[at' k]? = some x ∧ context b' k = some c ∧ op' x c = some y ∧
      b[at' k]? = some y := by
    intro k hk
    obtain ⟨x, c, y, hx, hc, hy, hdone⟩ := hlifted.cell k hk
    exact ⟨y, c, x, hdone, by rw [h.reads b b' hlifted.rest k hk, hc], hundo x c y hy, hx⟩
  obtain ⟨b'', hb'', hback⟩ := h.exists_lifted fun k hk => by
    obtain ⟨x, c, y, hx, hc, hy, -⟩ := hcell k hk
    exact ⟨x, c, y, hx, hc, hy⟩
  rw [hb'', hback.unique ⟨hlifted.length.symm, hcell, fun i hi => (hlifted.rest i hi).symm⟩]

end Lifting

/-! ## Cells moved one by one -/

section Moves

variable {src dst : Nat → Nat} {ks : List Nat}

def moveCell (src dst : Nat → Nat) (b : List α) (k : Nat) : Option (List α) :=
  b[src k]?.bind fun x => if dst k < b.length then some (b.set (dst k) x) else none

theorem length_moveCells {b b' : List α} (h : ks.foldlM (moveCell src dst) b = some b') :
    b'.length = b.length := by
  refine length_of_foldlM (fun b k b' hk => ?_) h
  obtain ⟨x, -, hk⟩ := Option.bind_eq_some_iff.1 hk
  split at hk
  · rw [← Option.some.inj hk, List.length_set]
  · cases hk

theorem moveCells_eq (src dst : Nat → Nat) (ks : List Nat) {b : List α}
    (hfree : ks.Pairwise fun k k' => dst k ≠ src k' ∧ dst k ≠ dst k')
    (hlt : ∀ k ∈ ks, src k < b.length ∧ dst k < b.length) :
    ∃ b', ks.foldlM (moveCell src dst) b = some b' ∧ b'.length = b.length ∧
      (∀ k ∈ ks, b'[dst k]? = b[src k]?) ∧ ∀ i, (∀ k ∈ ks, i ≠ dst k) → b'[i]? = b[i]? := by
  induction ks generalizing b with
  | nil => exact ⟨b, rfl, rfl, fun k hk => (List.not_mem_nil hk).elim, fun _ _ => rfl⟩
  | cons k ks ih =>
    obtain ⟨hhead, htail⟩ := List.pairwise_cons.1 hfree
    obtain ⟨hsrc, hdst⟩ := hlt k List.mem_cons_self
    have hx : b[src k]? = some (b.get ⟨src k, hsrc⟩) := List.getElem?_eq_getElem hsrc
    obtain ⟨b', hb', hlen, hmoved, hrest⟩ := ih (b := b.set (dst k) (b.get ⟨src k, hsrc⟩)) htail
      fun k' hk' => by
        rw [List.length_set]
        exact hlt k' (List.mem_cons_of_mem _ hk')
    refine ⟨b', ?_, by rw [hlen, List.length_set], fun k' hk' => ?_, fun i hi => ?_⟩
    · rw [List.foldlM_cons, moveCell, hx, Option.bind_some, if_pos hdst]
      exact hb'
    · rcases List.mem_cons.1 hk' with hk' | hk'
      · rw [hk', hrest _ fun k'' hk'' => (hhead k'' hk'').2, List.getElem?_set_self hdst, hx]
      · rw [hmoved k' hk', List.getElem?_set_ne (hhead k' hk').1]
    · rw [hrest i fun k' hk' => hi k' (List.mem_cons_of_mem _ hk'),
        List.getElem?_set_ne (hi k List.mem_cons_self).symm]

end Moves

end Memory
end Leodos
