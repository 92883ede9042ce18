/-
The modular checksum of a file, `transport/cfdp/checksum.rs`.

The calculator adds big-endian words as the octets come in and keeps the octets of an
incomplete word for the next call.  However the file is cut into pieces, the result is the
sum of the words of the whole file, the last one filled up with zeros (`finalize_foldl`).
-/
import Leodos.Bits.Endian

namespace Leodos
namespace Cfdp

/-- The octets of an incomplete word, `heapless::Vec<u8, 4>`. -/
structure Pending where
  octets : List UInt8
  fits : octets.length ≤ 4
  deriving DecidableEq

namespace Pending

def empty : Pending := ⟨[], Nat.zero_le _⟩

def isFull (v : Pending) : Bool := v.octets.length = 4

/-- A push onto a full vector fails, and the code does not look at the result. -/
def push (v : Pending) (b : UInt8) : Pending :=
  if h : v.octets.length < 4 then
    ⟨v.octets ++ [b], by rw [List.length_append, List.length_singleton]; omega⟩
  else v

theorem octets_push {v : Pending} (h : v.octets.length < 4) (b : UInt8) :
    (v.push b).octets = v.octets ++ [b] := by
  rw [push, dif_pos h]

theorem octets_foldl_push {bytes : List UInt8} {v : Pending}
    (h : v.octets.length + bytes.length ≤ 4) :
    (bytes.foldl push v).octets = v.octets ++ bytes := by
  induction bytes generalizing v with
  | nil => rw [List.foldl_nil, List.append_nil]
  | cons b bytes ih =>
    rw [List.length_cons] at h
    have hpush := octets_push (v := v) (by omega) b
    have hroom : (v.push b).octets.length + bytes.length ≤ 4 := by
      rw [hpush, List.length_append, List.length_singleton]
      omega
    rw [List.foldl_cons, ih hroom, hpush, List.append_assoc, List.singleton_append]

end Pending

/-- A word from its octets, `u32::from_be_bytes`. -/
def fromBeBytes (bytes : List UInt8) : UInt32 := .ofNat (BigEndian.decode bytes)

structure ModularChecksum where
  sum : UInt32
  pending : Pending
  deriving DecidableEq

namespace ModularChecksum

def new : ModularChecksum := ⟨0, .empty⟩

/-- The pending octets filled up from the data, and the data that is left. -/
def fill (pending : Pending) : List UInt8 → Pending × List UInt8
  | [] => (pending, [])
  | b :: data => if pending.isFull then (pending, b :: data) else fill (pending.push b) data

/-- The sum with the whole words of the data, and the remainder. -/
def body (sum : UInt32) : List UInt8 → UInt32 × List UInt8
  | b0 :: b1 :: b2 :: b3 :: data => body (sum + fromBeBytes [b0, b1, b2, b3]) data
  | rest => (sum, rest)

def update (c : ModularChecksum) (data : List UInt8) : ModularChecksum :=
  let (filled, remaining) := fill c.pending data
  let (sum, pending) :=
    if filled.isFull then (c.sum + fromBeBytes filled.octets, Pending.empty)
    else (c.sum, filled)
  let (sum, rest) := body sum remaining
  ⟨sum, rest.foldl Pending.push pending⟩

/-- Octets filled up with zeros to a word. -/
def padded (bytes : List UInt8) : List UInt8 := bytes ++ List.replicate (4 - bytes.length) 0

def finalize (c : ModularChecksum) : UInt32 :=
  if c.pending.octets = [] then c.sum else c.sum + fromBeBytes (padded c.pending.octets)

/-! ## The words of a file -/

/-- The words of a byte string, the last one filled up with zeros. -/
def words : List UInt8 → List (List UInt8)
  | b0 :: b1 :: b2 :: b3 :: bytes => [b0, b1, b2, b3] :: words bytes
  | [] => []
  | last => [padded last]

def wordSum (bytes : List UInt8) : Nat :=
  ((words bytes).map BigEndian.decode).foldr (· + ·) 0

theorem wordSum_word {word : List UInt8} (h : word.length = 4) (bytes : List UInt8) :
    wordSum (word ++ bytes) = BigEndian.decode word + wordSum bytes := by
  rcases word with _ | ⟨b0, _ | ⟨b1, _ | ⟨b2, _ | ⟨b3, _ | ⟨b4, more⟩⟩⟩⟩⟩
  case cons.cons.cons.cons.nil => rfl
  all_goals
    simp only [List.length_nil, List.length_cons] at h
    omega

theorem wordSum_last {last : List UInt8} (hne : last ≠ []) (h : last.length < 4) :
    wordSum last = BigEndian.decode (padded last) := by
  rcases last with _ | ⟨b0, _ | ⟨b1, _ | ⟨b2, _ | ⟨b3, more⟩⟩⟩⟩
  case nil => exact absurd rfl hne
  case cons.cons.cons.cons =>
    simp only [List.length_cons] at h
    omega
  all_goals exact Nat.add_zero _

theorem wordSum_append {n : Nat} {whole : List UInt8} (h : whole.length = 4 * n)
    (bytes : List UInt8) : wordSum (whole ++ bytes) = wordSum whole + wordSum bytes := by
  induction n generalizing whole with
  | zero =>
    rw [List.eq_nil_of_length_eq_zero h, List.nil_append]
    exact (Nat.zero_add _).symm
  | succ n ih =>
    have hword : (whole.take 4).length = 4 := by
      rw [List.length_take]
      omega
    have hrest : (whole.drop 4).length = 4 * n := by
      rw [List.length_drop]
      omega
    rw [← List.take_append_drop 4 whole, List.append_assoc, wordSum_word hword,
      wordSum_word hword, ih hrest, Nat.add_assoc]

/-! ## What the calculator holds -/

/-- The calculator has added the whole words of `bytes` and keeps the rest. -/
structure Consumed (c : ModularChecksum) (bytes : List UInt8) : Prop where
  room : c.pending.octets.length < 4
  split : ∃ n whole, whole.length = 4 * n ∧ bytes = whole ++ c.pending.octets ∧
    c.sum = .ofNat (wordSum whole)

theorem consumed_new : new.Consumed [] :=
  ⟨by decide, 0, [], rfl, rfl, rfl⟩

theorem fill_spec (pending : Pending) (data : List UInt8) :
    ∃ taken, data = taken ++ (fill pending data).2 ∧
      (fill pending data).1.octets = pending.octets ++ taken ∧
      ((fill pending data).1.isFull = true ∨ (fill pending data).2 = []) := by
  induction data generalizing pending with
  | nil => exact ⟨[], rfl, (List.append_nil _).symm, Or.inr rfl⟩
  | cons b data ih =>
    rw [fill]
    by_cases hfull : pending.isFull = true
    · rw [if_pos hfull]
      exact ⟨[], rfl, (List.append_nil _).symm, Or.inl hfull⟩
    · rw [if_neg hfull]
      have hfits := pending.fits
      have hroom : pending.octets.length < 4 := by
        rw [Pending.isFull, decide_eq_true_eq] at hfull
        omega
      obtain ⟨taken, hdata, hoctets, hend⟩ := ih (pending.push b)
      refine ⟨b :: taken, ?_, ?_, hend⟩
      · rw [List.cons_append, ← hdata]
      · rw [hoctets, Pending.octets_push hroom, List.append_assoc, List.singleton_append]

theorem body_spec (sum : UInt32) (data : List UInt8) :
    ∃ n whole, whole.length = 4 * n ∧ data = whole ++ (body sum data).2 ∧
      (body sum data).2.length < 4 ∧ (body sum data).1 = sum + .ofNat (wordSum whole) := by
  induction sum, data using body.induct with
  | case1 sum b0 b1 b2 b3 data ih =>
    obtain ⟨n, whole, hlen, hdata, hrest, hsum⟩ := ih
    refine ⟨n + 1, [b0, b1, b2, b3] ++ whole, ?_, ?_, hrest, ?_⟩
    · rw [List.length_append, hlen]
      show 4 + 4 * n = 4 * (n + 1)
      omega
    · rw [List.append_assoc]
      show _ = [b0, b1, b2, b3] ++ (whole ++ (body _ data).2)
      rw [← hdata]
      rfl
    · show (body _ data).1 = _
      rw [hsum, wordSum_word rfl, UInt32.ofNat_add, UInt32.add_assoc]
      rfl
  | case2 sum data hshort =>
    have hbody : body sum data = (sum, data) := by
      unfold body
      split
      · exact absurd rfl (hshort _ _ _ _ _)
      · rfl
    rw [hbody]
    refine ⟨0, [], rfl, rfl, ?_, (UInt32.add_zero sum).symm⟩
    rcases data with _ | ⟨b0, _ | ⟨b1, _ | ⟨b2, _ | ⟨b3, more⟩⟩⟩⟩
    case cons.cons.cons.cons => exact absurd rfl (hshort b0 b1 b2 b3 more)
    all_goals simp

theorem Consumed.after {whole : List UInt8} {pending : Pending} {n : Nat}
    (hlen : whole.length = 4 * n) (hpending : pending.octets = []) (data : List UInt8) :
    Consumed ⟨(body (.ofNat (wordSum whole)) data).1,
      (body (.ofNat (wordSum whole)) data).2.foldl Pending.push pending⟩ (whole ++ data) := by
  obtain ⟨m, more, hmore, hdata, hrest, hsum⟩ := body_spec (.ofNat (wordSum whole)) data
  have hroom : pending.octets.length + (body (.ofNat (wordSum whole)) data).2.length ≤ 4 := by
    rw [hpending, List.length_nil, Nat.zero_add]
    exact Nat.le_of_lt hrest
  have hoctets := Pending.octets_foldl_push hroom
  rw [hpending, List.nil_append] at hoctets
  refine ⟨by rw [hoctets]; exact hrest, n + m, whole ++ more, ?_, ?_, ?_⟩
  · rw [List.length_append, hlen, hmore]
    omega
  · rw [hoctets, List.append_assoc, ← hdata]
  · show (body _ data).1 = _
    rw [hsum, wordSum_append hlen, UInt32.ofNat_add]

theorem Consumed.update {c : ModularChecksum} {bytes : List UInt8} (h : c.Consumed bytes)
    (data : List UInt8) : (c.update data).Consumed (bytes ++ data) := by
  obtain ⟨hroom, n, whole, hlen, hbytes, hsum⟩ := h
  obtain ⟨taken, hdata, hoctets, hend⟩ := fill_spec c.pending data
  by_cases hfull : (fill c.pending data).1.isFull = true
  · -- the filled word is whole, and nothing is pending when the main part starts
    have hword : (fill c.pending data).1.octets.length = 4 := by
      rw [Pending.isFull, decide_eq_true_eq] at hfull
      exact hfull
    have hwhole : (whole ++ (fill c.pending data).1.octets).length = 4 * (n + 1) := by
      rw [List.length_append, hlen, hword]
      omega
    have hadd : c.sum + fromBeBytes (fill c.pending data).1.octets =
        .ofNat (wordSum (whole ++ (fill c.pending data).1.octets)) := by
      have hone := wordSum_word hword []
      rw [List.append_nil] at hone
      rw [hsum, wordSum_append hlen, hone, UInt32.ofNat_add]
      rfl
    have hall : bytes ++ data =
        (whole ++ (fill c.pending data).1.octets) ++ (fill c.pending data).2 := by
      rw [hbytes, hoctets]
      conv => lhs; rw [hdata]
      simp only [List.append_assoc]
    have hempty : Pending.empty.octets = [] := rfl
    have hafter := Consumed.after hwhole hempty (fill c.pending data).2
    rw [← hadd, ← hall] at hafter
    rw [ModularChecksum.update]
    dsimp only
    rw [if_pos hfull]
    exact hafter
  · -- the data ends inside the word
    have hnil : (fill c.pending data).2 = [] := by
      obtain hyes | hnil := hend
      · exact absurd hyes hfull
      · exact hnil
    rw [hnil, List.append_nil] at hdata
    have hfits := (fill c.pending data).1.fits
    rw [ModularChecksum.update]
    dsimp only
    rw [if_neg hfull, hnil]
    refine ⟨?_, n, whole, hlen, ?_, hsum⟩
    · show (fill c.pending data).1.octets.length < 4
      rw [Pending.isFull, decide_eq_true_eq] at hfull
      omega
    · show bytes ++ data = whole ++ (fill c.pending data).1.octets
      rw [hoctets, ← hdata, hbytes, List.append_assoc]

theorem Consumed.finalize {c : ModularChecksum} {bytes : List UInt8} (h : c.Consumed bytes) :
    c.finalize = .ofNat (wordSum bytes) := by
  obtain ⟨hroom, n, whole, hlen, hbytes, hsum⟩ := h
  rw [ModularChecksum.finalize]
  by_cases hnil : c.pending.octets = []
  · rw [if_pos hnil, hsum, hbytes, hnil, List.append_nil]
  · rw [if_neg hnil, hsum, hbytes, wordSum_append hlen, wordSum_last hnil hroom,
      UInt32.ofNat_add]
    rfl

theorem consumed_foldl (pieces : List (List UInt8)) {c : ModularChecksum} {bytes : List UInt8}
    (h : c.Consumed bytes) :
    (pieces.foldl ModularChecksum.update c).Consumed (bytes ++ pieces.flatten) := by
  induction pieces generalizing c bytes with
  | nil =>
    rw [List.flatten_nil, List.append_nil]
    exact h
  | cons piece pieces ih =>
    rw [List.foldl_cons, List.flatten_cons, ← List.append_assoc]
    exact ih (h.update piece)

/-- However a file is cut into pieces, its checksum is the sum of its words. -/
theorem finalize_foldl (pieces : List (List UInt8)) :
    (pieces.foldl ModularChecksum.update new).finalize = (new.update pieces.flatten).finalize ∧
      (new.update pieces.flatten).finalize.toNat = wordSum pieces.flatten % UInt32.size := by
  have hpieces := (consumed_foldl pieces consumed_new).finalize
  have hwhole := (consumed_new.update pieces.flatten).finalize
  rw [List.nil_append] at hpieces hwhole
  refine ⟨hpieces.trans hwhole.symm, ?_⟩
  rw [hwhole]
  exact UInt32.toNat_ofNat'

example : ([[1], [], [2, 3, 4, 255, 255], [255, 255, 7]].foldl update new).finalize =
    0x08020303 := by
  decide

end ModularChecksum

end Cfdp
end Leodos
