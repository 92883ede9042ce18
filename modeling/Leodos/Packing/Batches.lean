/-
Items packed in order into batches of bounded weight.

An item joins the open batch when it fits and opens a new one otherwise.  Closing batches
early changes how the items are split, never which items there are or in what order.
-/

namespace Leodos
namespace Packing

structure Batches (α : Type) where
  closed : List (List α)
  opened : List α

inductive Op (α : Type) where
  | put (a : α)
  | flush

variable {α : Type} (weight : α → Nat) (max : Nat)

def load (batch : List α) : Nat := batch.foldr (fun a n => weight a + n) 0

namespace Batches

def empty : Batches α := ⟨[], []⟩

def close (b : Batches α) : Batches α :=
  match b.opened with
  | [] => b
  | _ :: _ => ⟨b.closed ++ [b.opened], []⟩

def put (b : Batches α) (a : α) : Batches α :=
  if load weight b.opened + weight a ≤ max then { b with opened := b.opened ++ [a] }
  else ⟨b.closed ++ [b.opened], [a]⟩

def step (b : Batches α) : Op α → Batches α
  | .put a => b.put weight max a
  | .flush => b.close

def run (ops : List (Op α)) : Batches α := ops.foldl (step weight max) empty

def items (b : Batches α) : List α := b.closed.flatten ++ b.opened

end Batches

def puts (ops : List (Op α)) : List α :=
  ops.filterMap fun op => match op with
    | .put a => some a
    | .flush => none

theorem puts_append (ops ops' : List (Op α)) : puts (ops ++ ops') = puts ops ++ puts ops' :=
  List.filterMap_append

theorem puts_cons (op : Op α) (ops : List (Op α)) : puts (op :: ops) = puts [op] ++ puts ops :=
  puts_append [op] ops

variable {weight : α → Nat} {max : Nat} {b : Batches α}

@[simp] theorem load_nil : load weight [] = 0 := rfl

theorem load_cons (a : α) (batch : List α) :
    load weight (a :: batch) = weight a + load weight batch := rfl

theorem load_append (xs ys : List α) :
    load weight (xs ++ ys) = load weight xs + load weight ys := by
  induction xs with
  | nil => exact (Nat.zero_add _).symm
  | cons x xs ih => rw [List.cons_append, load_cons, load_cons, ih, Nat.add_assoc]

namespace Batches

theorem items_close : b.close.items = b.items := by
  obtain ⟨closed, opened⟩ := b
  cases opened with
  | nil => rfl
  | cons a opened => simp only [close, items, List.flatten_append, List.flatten_singleton,
      List.append_nil]

theorem items_put (a : α) : (b.put weight max a).items = b.items ++ [a] := by
  rw [put]
  split
  · simp only [items, List.append_assoc]
  · simp only [items, List.flatten_append, List.flatten_singleton]

theorem items_foldl (ops : List (Op α)) (b : Batches α) :
    (ops.foldl (step weight max) b).items = b.items ++ puts ops := by
  induction ops generalizing b with
  | nil => exact (List.append_nil _).symm
  | cons op ops ih =>
    rw [List.foldl_cons, ih]
    cases op with
    | put a =>
      show (b.put weight max a).items ++ puts ops = b.items ++ (a :: puts ops)
      rw [items_put, List.append_assoc, List.singleton_append]
    | flush =>
      show b.close.items ++ puts ops = b.items ++ puts ops
      rw [items_close]

theorem items_run (ops : List (Op α)) : (run weight max ops).items = puts ops := by
  rw [run, items_foldl]
  rfl

theorem opened_close : b.close.opened = [] := by
  obtain ⟨closed, opened⟩ := b
  cases opened <;> rfl

end Batches
end Packing
end Leodos
