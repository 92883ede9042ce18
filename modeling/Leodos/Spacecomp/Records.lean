/-
Batches of records, `bufwriter.rs` and `reader.rs`.

The writer packs records into a buffer and sends the buffer when it is full; the reader takes
a payload apart again.  A write stores its record before it sends, so a send that fails leaves
a full buffer behind, into which the next write does not fit.  The reader looks at a record
only at an address that its type allows, and stops without a word at any other.
-/
import Mathlib.Data.List.Forall2
import Mathlib.Tactic.ByContra
import Leodos.Bits.Endian
import Leodos.Memory.Cells
import Leodos.Transition.System

namespace Leodos
namespace Spacecomp

open Memory Transition

abbrev Bytes := List UInt8

/-- A record type whose values are read from and written to memory as they lie there. -/
structure Layout (T : Type) where
  size : Nat
  align : Nat
  size_pos : 0 < size
  align_dvd : align ∣ size
  asBytes : T → Bytes
  ofBytes : Bytes → T
  length_asBytes (record : T) : (asBytes record).length = size
  ofBytes_asBytes (record : T) : ofBytes (asBytes record) = record

variable {T : Type}

/-! ## The reader -/

/-- The value at `address`, where `bytes` lie. -/
def Layout.refFromBytes (L : Layout T) (address : Nat) (bytes : Bytes) : Option T :=
  if bytes.length = L.size ∧ address % L.align = 0 then some (L.ofBytes bytes) else none

/-- `data` lies at `address`. -/
structure RecordIter where
  data : Bytes
  address : Nat
  offset : Nat

namespace RecordIter

def new (data : Bytes) (address : Nat) : RecordIter := ⟨data, address, 0⟩

def next (L : Layout T) (it : RecordIter) : Option (T × RecordIter) :=
  let stop := it.offset + L.size
  if it.data.length < stop then none
  else
    (L.refFromBytes (it.address + it.offset) (slice it.data it.offset L.size)).map fun record =>
      (record, { it with offset := stop })

/-- The records of the first `fuel` calls of `next`, up to the first that gives none. -/
def collect (L : Layout T) : Nat → RecordIter → List T
  | 0, _ => []
  | fuel + 1, it =>
    match it.next L with
    | none => []
    | some (record, it) => record :: collect L fuel it

/-- Every record takes an octet, so no iteration makes more calls than this. -/
def records (L : Layout T) (it : RecordIter) : List T := it.collect L it.data.length

end RecordIter

/-! ## The writer -/

/-- The writer, and the payloads that its channel took, each with the address at which it was
received. -/
structure BufWriter where
  buf : Bytes
  len : Nat
  sent : List (Nat × Bytes)

namespace BufWriter

def new (buf : Bytes) : BufWriter := ⟨buf, 0, []⟩

def capacity (L : Layout T) (w : BufWriter) : Nat := w.buf.length / L.size

/-- `delivery` is the address at which the payload is received, if the send succeeds.  The
second component tells whether the call returned `Ok`. -/
def flush (L : Layout T) (w : BufWriter) (delivery : Option Nat) : Option (BufWriter × Bool) :=
  if w.len = 0 then some (w, true)
  else
    let payloadLen := w.len * L.size
    if w.buf.length < payloadLen then none
    else
      match delivery with
      | none => some (w, false)
      | some address =>
        some ({ w with len := 0, sent := w.sent ++ [(address, slice w.buf 0 payloadLen)] }, true)

/-- The record behind those that wait. -/
def store (L : Layout T) (w : BufWriter) (record : T) : BufWriter :=
  { w with
    buf := Memory.write w.buf (w.len * L.size) (L.asBytes record)
    len := w.len + 1 }

/-- No result stands for a slice out of range. -/
def write (L : Layout T) (w : BufWriter) (record : T) (delivery : Option Nat) :
    Option (BufWriter × Bool) :=
  let offset := w.len * L.size
  if w.buf.length < offset + L.size then none
  else
    let w := w.store L record
    if w.capacity L ≤ w.len then w.flush L delivery else some (w, true)

end BufWriter

/-- A call on the writer, with what becomes of a send that it makes. -/
inductive Call (T : Type) where
  | write (record : T) (delivery : Option Nat)
  | flush (delivery : Option Nat)

/-- The record passed to a call of `write`. -/
def Call.record? : Call T → Option T
  | write record _ => some record
  | flush _ => none

namespace BufWriter

def call (L : Layout T) (w : BufWriter) : Call T → Option BufWriter
  | .write record delivery => (w.write L record delivery).map Prod.fst
  | .flush delivery => (w.flush L delivery).map Prod.fst

def run (L : Layout T) : BufWriter → List (Call T) → Option BufWriter
  | w, [] => some w
  | w, op :: ops => (w.call L op).bind fun w => run L w ops

def delivered (L : Layout T) (w : BufWriter) : List T :=
  w.sent.flatMap fun payload => (RecordIter.new payload.2 payload.1).records L

def buffered (L : Layout T) (w : BufWriter) : List T :=
  (RecordIter.new (slice w.buf 0 (w.len * L.size)) 0).records L

end BufWriter

/-- The calls run without a panic, and every record passed to `write` is delivered or still
buffered, once and in order. -/
def ArriveOnce (L : Layout T) (buf : Bytes) (ops : List (Call T)) : Prop :=
  ∃ w, (BufWriter.new buf).run L ops = some w ∧
    w.delivered L ++ w.buffered L = ops.filterMap Call.record?

/-! ## Reading records -/

theorem Layout.length_flatMap (L : Layout T) (records : List T) :
    (records.flatMap L.asBytes).length = records.length * L.size := by
  induction records with
  | nil => simp
  | cons record records ih =>
    rw [List.flatMap_cons, List.length_append, L.length_asBytes, ih, List.length_cons,
      Nat.succ_mul, Nat.add_comm]

theorem RecordIter.collect_eq (L : Layout T) {address fuel : Nat} (haddress : L.align ∣ address)
    (records : List T) (front : Bytes) (hfront : L.align ∣ front.length)
    (hfuel : records.length ≤ fuel) :
    collect L fuel ⟨front ++ records.flatMap L.asBytes, address, front.length⟩ = records := by
  induction records generalizing front fuel with
  | nil =>
    cases fuel with
    | zero => rfl
    | succ fuel =>
      have hshort : (front ++ ([] : List T).flatMap L.asBytes).length < front.length + L.size := by
        have hpos := L.size_pos
        simp
        omega
      rw [collect, next, if_pos hshort]
  | cons record records ih =>
    cases fuel with
    | zero => exact absurd hfuel (Nat.not_succ_le_zero _)
    | succ fuel =>
      have hrecord := L.length_asBytes record
      have hlong : ¬ (front ++ (record :: records).flatMap L.asBytes).length <
          front.length + L.size := by
        rw [List.flatMap_cons, List.length_append, List.length_append, hrecord]
        omega
      have hread : slice (front ++ (record :: records).flatMap L.asBytes) front.length L.size =
          L.asBytes record := by
        have hright := slice_append_right front ((record :: records).flatMap L.asBytes) 0 L.size
        have hleft := slice_append_left (L.asBytes record) (records.flatMap L.asBytes)
        rw [hrecord] at hleft
        exact hright.trans hleft
      have hmod : (address + front.length) % L.align = 0 :=
        Nat.mod_eq_zero_of_dvd ((Nat.dvd_add_right haddress).2 hfront)
      have hnext : next L ⟨front ++ (record :: records).flatMap L.asBytes, address, front.length⟩ =
          some (record, ⟨front ++ (record :: records).flatMap L.asBytes, address,
            front.length + L.size⟩) := by
        rw [next]
        dsimp only
        rw [if_neg hlong, hread, Layout.refFromBytes, if_pos ⟨hrecord, hmod⟩, L.ofBytes_asBytes,
          Option.map_some]
      have hrest := ih (front ++ L.asBytes record)
        (by rw [List.length_append, hrecord]; exact (Nat.dvd_add_right hfront).2 L.align_dvd)
        (Nat.le_of_succ_le_succ hfuel)
      rw [List.append_assoc, List.length_append, hrecord, ← List.flatMap_cons] at hrest
      rw [collect, hnext]
      exact congrArg _ hrest

theorem RecordIter.records_of_aligned (L : Layout T) {address : Nat} (h : L.align ∣ address)
    (records : List T) :
    (RecordIter.new (records.flatMap L.asBytes) address).records L = records := by
  apply RecordIter.collect_eq L h records [] (Nat.dvd_zero _)
  show records.length ≤ (records.flatMap L.asBytes).length
  rw [L.length_flatMap]
  exact Nat.le_mul_of_pos_right _ L.size_pos

theorem RecordIter.records_of_misaligned (L : Layout T) {address : Nat} (h : ¬ L.align ∣ address)
    (data : Bytes) : (RecordIter.new data address).records L = [] := by
  have hnone : (RecordIter.new data address).next L = none := by
    have hmod : ¬ ((slice data 0 L.size).length = L.size ∧ (address + 0) % L.align = 0) :=
      fun hboth => h (Nat.dvd_of_mod_eq_zero hboth.2)
    show (if data.length < 0 + L.size then none
      else (L.refFromBytes (address + 0) (slice data 0 L.size)).map _) = none
    rw [Layout.refFromBytes, if_neg hmod, Option.map_none, ite_self]
  show collect L data.length _ = []
  cases data.length with
  | zero => rfl
  | succ n => rw [collect, hnone]

/-! ## Writing records -/

namespace BufWriter

variable {L : Layout T} {w : BufWriter} {batches : List (List T)} {pending : List T}

/-- Every payload is received where its records can be read. -/
def AllAligned (L : Layout T) (sent : List (Nat × Bytes)) : Prop :=
  ∀ payload ∈ sent, L.align ∣ payload.1

/-- The payloads hold `batches`, and the buffer, which takes `cap` records, holds `pending`. -/
structure Holds (L : Layout T) (cap : Nat) (w : BufWriter) (batches : List (List T))
    (pending : List T) : Prop where
  capacity : w.buf.length / L.size = cap
  len : w.len = pending.length
  le : pending.length ≤ cap
  bytes : slice w.buf 0 (pending.length * L.size) = pending.flatMap L.asBytes
  sent : List.Forall₂ (fun payload batch => payload.2 = batch.flatMap L.asBytes ∧ batch ≠ [])
    w.sent batches

theorem Holds.fits {cap : Nat} (h : Holds L cap w batches pending) {n : Nat} (hn : n ≤ cap) :
    n * L.size ≤ w.buf.length := by
  rw [← h.capacity] at hn
  exact Nat.le_trans (Nat.mul_le_mul_right _ hn) (Nat.div_mul_le_self ..)

theorem holds_new {buf : Bytes} : Holds L (buf.length / L.size) (new buf) [] [] :=
  ⟨rfl, rfl, Nat.zero_le _, by simp, .nil⟩

theorem Holds.buffered_eq {cap : Nat} (h : Holds L cap w batches pending) :
    w.buffered L = pending := by
  rw [buffered, h.len, h.bytes, RecordIter.records_of_aligned L (Nat.dvd_zero _)]

/-- No more than the records of the payloads is delivered, and all of it just when every payload
is received where its records can be read. -/
theorem delivered_of_forall₂ {sent : List (Nat × Bytes)}
    (h : List.Forall₂ (fun payload batch => payload.2 = batch.flatMap L.asBytes ∧ batch ≠ [])
      sent batches) :
    (AllAligned L sent →
      sent.flatMap (fun payload => (RecordIter.new payload.2 payload.1).records L) =
        batches.flatten) ∧
    (sent.flatMap (fun payload => (RecordIter.new payload.2 payload.1).records L)).length ≤
      batches.flatten.length ∧
    (¬ AllAligned L sent →
      (sent.flatMap fun payload => (RecordIter.new payload.2 payload.1).records L).length <
        batches.flatten.length) := by
  induction h with
  | nil => exact ⟨fun _ => rfl, Nat.le_refl _, fun hnot => absurd (by simp [AllAligned]) hnot⟩
  | @cons payload batch sent batches hhead _ ih =>
    obtain ⟨hall, hle, hlt⟩ := ih
    rw [List.flatMap_cons, List.flatten_cons, List.length_append, List.length_append]
    have hsplit : AllAligned L (payload :: sent) ↔ L.align ∣ payload.1 ∧ AllAligned L sent :=
      List.forall_mem_cons
    rw [hsplit, hhead.1]
    by_cases haligned : L.align ∣ payload.1
    · rw [RecordIter.records_of_aligned L haligned]
      refine ⟨fun hboth => by rw [hall hboth.2], Nat.add_le_add_left hle _, fun hnot => ?_⟩
      exact Nat.add_lt_add_left (hlt fun hsent => hnot ⟨haligned, hsent⟩) _
    · have hpos : 0 < batch.length := List.length_pos_iff.2 hhead.2
      rw [RecordIter.records_of_misaligned L haligned, List.length_nil]
      exact ⟨fun hboth => absurd hboth.1 haligned, by omega, fun _ => by omega⟩

theorem Holds.delivered_eq_iff {cap : Nat} (h : Holds L cap w batches pending) :
    w.delivered L ++ w.buffered L = batches.flatten ++ pending ↔ AllAligned L w.sent := by
  obtain ⟨hall, -, hlt⟩ := delivered_of_forall₂ h.sent
  rw [h.buffered_eq, List.append_left_inj]
  constructor
  · intro heq
    by_contra hnot
    have hless := hlt hnot
    rw [delivered] at heq
    rw [heq] at hless
    exact Nat.lt_irrefl _ hless
  · exact hall

/-- What a call leaves: the records are those before it and those passed to it, `n` of them wait
in the buffer, and the payloads are as readable as before if `readable` holds. -/
def Leaves (L : Layout T) (cap : Nat) (w w' : BufWriter) (records : List T) (n : Nat)
    (readable : Prop) : Prop :=
  ∃ batches pending, Holds L cap w' batches pending ∧ batches.flatten ++ pending = records ∧
    pending.length = n ∧ (AllAligned L w'.sent ↔ AllAligned L w.sent ∧ readable)

/-- A send that takes place is received where its records can be read. -/
def Readable (L : Layout T) (delivery : Option Nat) : Prop :=
  ∀ address ∈ delivery, L.align ∣ address

theorem Holds.leaves {cap : Nat} (h : Holds L cap w batches pending) {readable : Prop}
    (hr : readable) : Leaves L cap w w (batches.flatten ++ pending) pending.length readable :=
  ⟨batches, pending, h, rfl, rfl, (and_iff_left hr).symm⟩

theorem Holds.flush {cap : Nat} (h : Holds L cap w batches pending) (delivery : Option Nat) :
    ∃ w' ok, w.flush L delivery = some (w', ok) ∧
      Leaves L cap w w' (batches.flatten ++ pending) (if delivery.isSome then 0 else pending.length)
        (pending ≠ [] → Readable L delivery) := by
  by_cases hempty : pending = []
  · have hlen : w.len = 0 := by
      rw [h.len, hempty]
      rfl
    have hleft : (if delivery.isSome then 0 else pending.length) = pending.length := by
      rw [hempty, List.length_nil, ite_self]
    refine ⟨w, true, if_pos hlen, ?_⟩
    rw [hleft]
    exact h.leaves fun hne => absurd hempty hne
  · have hlen : w.len ≠ 0 := by
      rw [h.len]
      exact fun hzero => hempty (List.eq_nil_of_length_eq_zero hzero)
    have hfits : ¬ w.buf.length < w.len * L.size := by
      rw [h.len]
      exact Nat.not_lt_of_le (h.fits h.le)
    cases delivery with
    | none =>
      refine ⟨w, false, ?_, h.leaves fun _ address haddress => by cases haddress⟩
      rw [BufWriter.flush, if_neg hlen]
      exact if_neg hfits
    | some address =>
      refine ⟨{ w with len := 0, sent := w.sent ++ [(address, slice w.buf 0 (w.len * L.size))] },
        true, ?_, batches ++ [pending], [], ⟨h.capacity, rfl, Nat.zero_le _, by simp, ?_⟩,
        ?_, rfl, ?_⟩
      · rw [BufWriter.flush, if_neg hlen]
        exact if_neg hfits
      · refine List.rel_append h.sent (.cons ⟨?_, hempty⟩ .nil)
        rw [h.len, h.bytes]
      · simp
      · simp [AllAligned, Readable, hempty, or_imp, forall_and]

theorem Holds.write {cap : Nat} (h : Holds L cap w batches pending) (record : T)
    (delivery : Option Nat) (hroom : pending.length < cap) :
    ∃ w' ok, w.write L record delivery = some (w', ok) ∧
      Leaves L cap w w' (batches.flatten ++ pending ++ [record])
        (if pending.length + 1 = cap ∧ delivery.isSome then 0 else pending.length + 1)
        (pending.length + 1 = cap → Readable L delivery) := by
  have hfits : (pending.length + 1) * L.size ≤ w.buf.length := h.fits hroom
  have hoffset : (pending.length + 1) * L.size = pending.length * L.size + L.size := Nat.succ_mul ..
  have hrecord := L.length_asBytes record
  have hstored : Holds L cap (w.store L record) batches (pending ++ [record]) := by
    refine ⟨?_, ?_, ?_, ?_, h.sent⟩
    · rw [store, write_length]
      exact h.capacity
    · rw [List.length_append, store, h.len]
      rfl
    · rw [List.length_append]
      exact hroom
    · rw [List.length_append, store, h.len, List.length_singleton, hoffset,
        slice_write_append_of_length hrecord (by omega), h.bytes, List.flatMap_append,
        List.flatMap_singleton]
  have hstore : ¬ w.buf.length < w.len * L.size + L.size := by
    rw [h.len]
    omega
  have hwrite : w.write L record delivery =
      if cap ≤ pending.length + 1 then (w.store L record).flush L delivery
      else some (w.store L record, true) := by
    have hlen : (w.store L record).len = pending.length + 1 := by rw [store, h.len]
    have hcapacity : (w.store L record).capacity L = cap := hstored.capacity
    rw [BufWriter.write, if_neg hstore]
    simp only [hcapacity, hlen]
  rw [hwrite, List.append_assoc]
  by_cases hfull : pending.length + 1 = cap
  · obtain ⟨w', ok, hflush, hleaves⟩ := hstored.flush delivery
    refine ⟨w', ok, ?_, ?_⟩
    · rw [if_pos (by omega), hflush]
    · have hcount : (if pending.length + 1 = cap ∧ delivery.isSome then 0 else pending.length + 1) =
          if delivery.isSome then 0 else (pending ++ [record]).length := by
        simp [hfull]
      obtain ⟨batches', pending', hholds, hsame, hlen, haligned⟩ := hleaves
      refine ⟨batches', pending', hholds, hsame, hlen.trans hcount.symm, haligned.trans ?_⟩
      simp [hfull, store]
  · refine ⟨_, true, if_neg (by omega), ?_⟩
    have hreadable : pending.length + 1 = cap → Readable L delivery := fun he => absurd he hfull
    have hleaves := hstored.leaves hreadable
    rw [if_neg (fun hboth => hfull hboth.1)]
    rw [List.length_append] at hleaves
    exact hleaves

theorem Holds.write_none {cap : Nat} (h : Holds L cap w batches pending) (record : T)
    (delivery : Option Nat) (hfull : cap ≤ pending.length) : w.write L record delivery = none := by
  have hshort : w.buf.length < w.len * L.size + L.size := by
    have hdiv := Nat.lt_div_mul_add (a := w.buf.length) L.size_pos
    have hle : w.buf.length / L.size * L.size ≤ pending.length * L.size := by
      rw [h.capacity]
      exact Nat.mul_le_mul_right _ hfull
    rw [h.len]
    omega
  exact if_pos hshort

end BufWriter

/-! ## Runs -/

/-- The records that wait in a buffer for `cap` of them after a call, when `n` waited before. -/
def Call.waiting (cap n : Nat) : Call T → Nat
  | write _ delivery => if n + 1 = cap ∧ delivery.isSome then 0 else n + 1
  | flush delivery => if delivery.isSome then 0 else n

/-- A write finds room, and a payload is received where its records can be read. -/
def Call.Orderly (L : Layout T) (cap n : Nat) : Call T → Prop
  | write _ delivery => n < cap ∧ (n + 1 = cap → BufWriter.Readable L delivery)
  | flush delivery => n ≠ 0 → BufWriter.Readable L delivery

namespace BufWriter

variable {L : Layout T} {w : BufWriter} {batches : List (List T)} {pending : List T}

theorem Holds.call {cap : Nat} (h : Holds L cap w batches pending) (op : Call T) :
    (w.call L op = none ∧ ¬ op.Orderly L cap pending.length) ∨
      ∃ w', w.call L op = some w' ∧
        Leaves L cap w w' (batches.flatten ++ pending ++ op.record?.toList)
          (op.waiting cap pending.length) (op.Orderly L cap pending.length) := by
  cases op with
  | write record delivery =>
    by_cases hroom : pending.length < cap
    · obtain ⟨w', ok, hwrite, batches', pending', hholds, hsame, hlen, haligned⟩ :=
        h.write record delivery hroom
      refine Or.inr ⟨w', by rw [BufWriter.call, hwrite]; rfl, batches', pending', hholds, hsame,
        hlen, haligned.trans ?_⟩
      rw [Call.Orderly, and_iff_right hroom]
    · refine Or.inl ⟨?_, fun horderly => hroom horderly.1⟩
      rw [BufWriter.call, h.write_none record delivery (Nat.le_of_not_lt hroom), Option.map_none]
  | flush delivery =>
    obtain ⟨w', ok, hflush, batches', pending', hholds, hsame, hlen, haligned⟩ := h.flush delivery
    refine Or.inr ⟨w', by rw [BufWriter.call, hflush]; rfl, batches', pending', hholds, ?_, hlen,
      haligned.trans ?_⟩
    · rw [hsame, Call.record?, Option.toList_none, List.append_nil]
    · rw [Call.Orderly, ne_eq, ne_eq, List.length_eq_zero_iff]

theorem Holds.run_iff {cap : Nat} (h : Holds L cap w batches pending) (ops : List (Call T)) :
    (∃ w', w.run L ops = some w' ∧
        w'.delivered L ++ w'.buffered L =
          batches.flatten ++ pending ++ ops.filterMap Call.record?) ↔
      AllAligned L w.sent ∧
        System.Meets (fun n op => op.waiting cap n) (fun n op => op.Orderly L cap n)
          pending.length ops := by
  induction ops generalizing w batches pending with
  | nil =>
    rw [List.filterMap_nil, List.append_nil, System.Meets, and_true, ← h.delivered_eq_iff]
    constructor
    · intro hrun
      obtain ⟨w', hw', hexact⟩ := hrun
      rw [← Option.some.inj hw'] at hexact
      exact hexact
    · intro hexact
      exact ⟨w, rfl, hexact⟩
  | cons op ops ih =>
    rw [run, System.Meets]
    rcases h.call op with hnone | hsome
    · rw [hnone.1, Option.bind_none]
      refine iff_of_false ?_ (fun hboth => hnone.2 hboth.2.1)
      intro hrun
      obtain ⟨w', hw', -⟩ := hrun
      cases hw'
    · obtain ⟨w', hcall, batches', pending', hholds, hsame, hlen, haligned⟩ := hsome
      have hrecords : batches.flatten ++ pending ++ (op :: ops).filterMap Call.record? =
          batches'.flatten ++ pending' ++ ops.filterMap Call.record? := by
        rw [hsame]
        cases op with
        | write record delivery => simp [Call.record?]
        | flush delivery => simp [List.filterMap_cons, Call.record?]
      rw [hcall, Option.bind_some, hrecords, ih hholds, haligned, ← hlen, and_assoc]

end BufWriter

/-- Batched records arrive once just when no write finds the buffer full, as it is after a failed
send, and every payload is received where its records can be read. -/
theorem arriveOnce_iff (L : Layout T) (buf : Bytes) (ops : List (Call T)) :
    ArriveOnce L buf ops ↔
      System.Meets (fun n op => op.waiting (buf.length / L.size) n)
        (fun n op => op.Orderly L (buf.length / L.size) n) 0 ops := by
  have haligned : BufWriter.AllAligned L (BufWriter.new buf).sent := by
    simp [BufWriter.AllAligned, BufWriter.new]
  have hholds : BufWriter.Holds L (buf.length / L.size) (BufWriter.new buf) [] [] :=
    BufWriter.holds_new
  have hiff := hholds.run_iff ops
  rw [and_iff_right haligned] at hiff
  exact hiff

def wordLayout : Layout UInt16 where
  size := 2
  align := 2
  size_pos := by decide
  align_dvd := by decide
  asBytes word := LittleEndian.encode 2 word.toNat
  ofBytes bytes := UInt16.ofNat (LittleEndian.decode bytes)
  length_asBytes word := LittleEndian.length_encode 2 word.toNat
  ofBytes_asBytes word := by
    rw [LittleEndian.decode_encode_of_lt word.toNat_lt]
    exact UInt16.ofNat_toNat

example : (RecordIter.new [7, 0] 0).records wordLayout = [7] := by decide
example : (RecordIter.new [7, 0] 1).records wordLayout = [] := by decide

/-- After a failed send the next write panics. -/
theorem not_arriveOnce :
    ¬ ∀ (T : Type) (L : Layout T) (buf : Bytes) (ops : List (Call T)), L.size ≤ buf.length →
      ArriveOnce L buf ops := by
  intro hall
  obtain ⟨w, hrun, -⟩ :=
    hall UInt16 wordLayout [0, 0] [.write 1 none, .write 2 none] (by decide)
  have hpanic : ((BufWriter.new [0, 0]).run wordLayout
      [.write 1 none, .write 2 none]).isNone = true := by decide
  rw [hrun] at hpanic
  cases hpanic

end Spacecomp
end Leodos
