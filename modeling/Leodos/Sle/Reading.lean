/-
What the reader found when it succeeds, and that it does not panic.

Each reading call in front of some octets ends without a panic, and when it succeeds the
scan finds the same element there (`Ends`).  The one exception is a BOOLEAN whose value is
missing at the end of the buffer.
-/
import Leodos.Sle.Calls
import Leodos.Sle.Grammar
import Leodos.Sle.Pdu

namespace Leodos
namespace Sle

open Emission BerReader Memory

/-! ## Numbers -/

theorem signOf_iff {data : Bytes} (h : data ≠ []) :
    signOf data = true ↔ 256 ^ data.length ≤ 2 * BigEndian.decode data := by
  cases data with
  | nil => exact absurd rfl h
  | cons b data =>
    have hlow := BigEndian.decode_lt data
    rw [signOf, signOf_octet, decide_eq_true_eq, BigEndian.decode_cons, List.length_cons,
      Nat.pow_succ]
    rw [ge_iff_le, UInt8.le_iff_toNat_le]
    show 128 ≤ b.toNat ↔ _
    constructor
    · intro hb
      have := Nat.mul_le_mul_right (256 ^ data.length) hb
      omega
    · intro hle
      refine Nat.le_of_not_lt fun hb => ?_
      have := Nat.mul_le_mul_right (256 ^ data.length) (Nat.succ_le_of_lt hb)
      rw [Nat.succ_mul] at this
      omega

theorem toInt_decodeI64 {data : Bytes} (h : data.length ≤ 8) :
    (decodeI64 data).toInt = wireInt data := by
  by_cases hempty : data = []
  · subst hempty
    rfl
  have hpow : 256 ^ data.length ≤ 256 ^ 8 := Nat.pow_le_pow_right (by decide) h
  have hlt := BigEndian.decode_lt data
  have hsign := signOf_iff hempty
  have hnat := toNat_foldl data (signFill (signOf data))
  have hdecode : decodeI64 data = data.foldl shiftIn (signFill (signOf data)) := rfl
  rw [← hdecode] at hnat
  rw [wireInt, BitVec.toInt_eq_toNat_cond]
  generalize 256 ^ data.length = p at hpow hlt hsign hnat
  generalize BigEndian.decode data = d at hlt hsign hnat
  cases hs : signOf data with
  | true =>
    have hle := hsign.1 hs
    have hfill : (signFill true).toNat = 18446744073709551615 := by decide
    rw [hs, hfill] at hnat
    have hmod : (18446744073709551615 * p + d) % 2 ^ 64 = 2 ^ 64 - p + d := by omega
    rw [hnat, hmod, if_neg (by omega), if_pos rfl]
    omega
  | false =>
    have hlow : 2 * d < p := by
      refine Nat.lt_of_not_le fun hle => ?_
      rw [hsign.2 hle] at hs
      cases hs
    have hfill : (signFill false).toNat = 0 := by decide
    rw [hs, hfill] at hnat
    have hmod : (0 * p + d) % 2 ^ 64 = d := by omega
    rw [hnat, hmod, if_pos (by omega), if_neg Bool.false_ne_true]

/-! ## Calls that end without a panic -/

/-- The call does not panic, and a value it returns is as wanted. -/
def Ends {α : Type} : Result α → (α → Prop) → Prop
  | .ok a, post => post a
  | .error fault, _ => fault ≠ .panic

namespace Ends

variable {α β : Type} {m : Result α} {post : α → Prop}

theorem ok {a : α} (h : post a) : Ends (.ok a) post := h

theorem err (e : SleError) : Ends (.error (.err e)) post := fun hpanic => by cases hpanic

theorem bind {f : α → Result β} {post' : β → Prop} (hm : Ends m post)
    (hf : ∀ a, post a → Ends (f a) post') : Ends (m >>= f) post' := by
  cases m with
  | error fault => exact hm
  | ok a => exact hf a hm

theorem mono {post' : α → Prop} (hm : Ends m post) (h : ∀ a, post a → post' a) : Ends m post' := by
  cases m with
  | error fault => exact hm
  | ok a => exact h a hm

theorem no_panic (hm : Ends m post) : m ≠ .error .panic := by
  intro hpanic
  rw [hpanic] at hm
  exact hm rfl

theorem of_ok {a : α} (hm : Ends m post) (h : m = .ok a) : post a := by
  rw [h] at hm
  exact hm

end Ends

theorem scanField_of_header {bytes content : Bytes} {tag : TagOctet} {n : Nat} {field : Field}
    (hheader : header bytes = some (tag, n, content)) (hle : n ≤ content.length)
    (hfield : Field.ofElement tag (content.take n) = some field) :
    scanField bytes = some (field, content.drop n) := by
  simp only [scanField, hheader, Option.bind_eq_bind, Option.bind_some, Nat.not_lt.2 hle, if_false,
    hfield]
  rfl

def boolAtEnd (bytes : Bytes) : Bool :=
  match header bytes with
  | some (tag, 1, []) => isUniversal Tags.boolean tag
  | _ => false

namespace BerReader.At

variable {r : BerReader} {bytes : Bytes}

theorem ends_decodeTag (bytes : Bytes) : Ends (decodeTag bytes) fun found =>
    ∃ octet rest, bytes = octet :: rest ∧ decodeTag [octet] = .ok (found.1, 1) ∧ found.2 = 1 := by
  cases bytes with
  | nil => exact .err _
  | cons octet rest =>
    by_cases hlong : octet &&& 0x1F = 0x1F
    · rw [decodeTag, if_pos hlong]
      exact .err _
    · rw [decodeTag, if_neg hlong]
      refine .ok ⟨octet, rest, rfl, ?_, rfl⟩
      rw [decodeTag, if_neg hlong]

theorem decodeLength_ne_panic (bytes : Bytes) : decodeLength bytes ≠ .error .panic := by
  cases bytes with
  | nil => exact fun h => by cases h
  | cons first rest =>
    intro h
    rw [decodeLength] at h
    by_cases hshort : first < 128
    · rw [if_pos hshort] at h
      cases h
    rw [if_neg hshort] at h
    by_cases hcount : (first &&& 0x7F).toNat = 0 ∨ (first &&& 0x7F).toNat > 4
    · rw [if_pos hcount] at h
      cases h
    rw [if_neg hcount] at h
    by_cases hroom : rest.length < (first &&& 0x7F).toNat
    · rw [if_pos hroom] at h
      cases h
    · rw [if_neg hroom] at h
      cases h

theorem ends_decodeLength (bytes : Bytes) : Ends (decodeLength bytes) fun found =>
    ∃ len rest, bytes = len ++ rest ∧ decodeLength len = .ok (found.1, len.length) ∧
      found.2 = len.length := by
  cases hdecode : decodeLength bytes with
  | error fault =>
    rintro rfl
    exact decodeLength_ne_panic bytes hdecode
  | ok found =>
    obtain ⟨len, rest, rfl, hused, hlen⟩ := decodeLength_ok hdecode
    have hself := hlen []
    rw [List.append_nil, ← hused] at hself
    exact ⟨len, rest, rfl, hself, hused.symm⟩

theorem ends_peekTag (h : r.At bytes) : Ends r.peekTag fun tag =>
    ∃ octet rest, bytes = octet :: rest ∧ decodeTag [octet] = .ok (tag, 1) := by
  simp only [BerReader.peekTag, h.ahead, ok_bind]
  refine (ends_decodeTag bytes).bind ?_
  rintro ⟨tag, used⟩ ⟨octet, rest, hbytes, htag, -⟩
  exact .ok ⟨octet, rest, hbytes, htag⟩

theorem ends_readTag (h : r.At bytes) : Ends r.readTag fun found =>
    ∃ octet rest, bytes = octet :: rest ∧ decodeTag [octet] = .ok (found.1, 1) ∧
      found.2.At rest := by
  simp only [readTag, h.ahead, ok_bind]
  refine (ends_decodeTag bytes).bind ?_
  rintro ⟨tag, used⟩ ⟨octet, rest, rfl, htag, hused⟩
  obtain rfl : used = 1 := hused
  have hat : r.At ([octet] ++ rest) := h
  exact .ok ⟨octet, rest, rfl, htag, hat.skip⟩

theorem ends_expect (wanted : TagOctet → Bool) (h : r.At bytes) :
    Ends (r.expect wanted) fun found =>
      ∃ octet rest, bytes = octet :: rest ∧ decodeTag [octet] = .ok (found.1, 1) ∧
        wanted found.1 = true ∧ found.2.At rest := by
  refine h.ends_readTag.bind ?_
  rintro ⟨tag, r'⟩ ⟨octet, rest, hbytes, htag, hat⟩
  show Ends (if wanted tag then _ else _) _
  by_cases hwanted : wanted tag = true
  · rw [if_pos hwanted]
    exact .ok ⟨octet, rest, hbytes, htag, hwanted, hat⟩
  · rw [if_neg hwanted]
    exact .err _

theorem ends_readLength (h : r.At bytes) : Ends r.readLength fun found =>
    ∃ len rest, bytes = len ++ rest ∧ decodeLength len = .ok (found.1, len.length) ∧
      found.2.At rest := by
  simp only [BerReader.readLength, h.ahead, ok_bind]
  refine (ends_decodeLength bytes).bind ?_
  rintro ⟨n, used⟩ ⟨len, rest, rfl, hlen, hused⟩
  obtain rfl : used = len.length := hused
  exact .ok ⟨len, rest, rfl, hlen, h.skip⟩

theorem ends_readRaw (n : Nat) (h : r.At bytes) : Ends (r.readRaw n) fun found =>
    n ≤ bytes.length ∧ found.1 = bytes.take n ∧ found.2.At (bytes.drop n) := by
  simp only [BerReader.readRaw, h.remaining, ok_bind]
  by_cases hroom : bytes.length < n
  · rw [if_pos hroom]
    exact .err _
  · rw [if_neg hroom]
    have hle : n ≤ bytes.length := Nat.le_of_not_lt hroom
    have hat : r.At (bytes.take n ++ bytes.drop n) := by rwa [List.take_append_drop]
    have hskip := hat.skip
    rw [List.length_take_of_le hle] at hskip
    refine .ok ⟨hle, ?_, hskip⟩
    rw [slice, h.drop_eq]

theorem ends_header {α : Type} {wanted : TagOctet → Bool} {post : α → Prop}
    {f : TagOctet → Nat × BerReader → Result α} (h : r.At bytes)
    (hf : ∀ tag n r' content, header bytes = some (tag, n, content) → wanted tag = true →
      r'.At content → Ends (f tag (n, r')) post) :
    Ends (r.expect wanted >>= fun x => x.2.readLength >>= f x.1) post := by
  refine (h.ends_expect wanted).bind ?_
  rintro ⟨tag, r₁⟩ ⟨octet, rest, rfl, htag, hwanted, hat⟩
  refine hat.ends_readLength.bind ?_
  rintro ⟨n, r₂⟩ ⟨len, content, rfl, hlen, hat'⟩
  exact hf tag n r₂ content (header_eq_some.2 ⟨octet, len, rfl, htag, hlen⟩) hwanted hat'

theorem ends_readOctetString (h : r.At bytes) : Ends r.readOctetString fun found =>
    ∃ rest, scanField bytes = some (.octets, rest) ∧ found.2.At rest := by
  refine ends_header (f := fun _ found => found.2.readRaw found.1) h ?_
  intro tag n r' content hheader hwanted hat
  refine (hat.ends_readRaw n).mono ?_
  rintro ⟨data, r''⟩ ⟨hle, -, hat'⟩
  exact ⟨_, scanField_of_header hheader hle (Field.ofElement_eq_some.2 ⟨hwanted, trivial⟩), hat'⟩

theorem ends_readNumber (enumerated : Bool) (h : r.At bytes) :
    Ends (r.readNumber (Field.number enumerated 0).tag) fun found =>
      ∃ rest, scanField bytes = some (.number enumerated found.1.toInt, rest) ∧
        found.2.At rest := by
  refine ends_header (f := fun _ found =>
    if found.1 = 0 ∨ found.1 > 8 then .error (.err .integerOverflow)
    else found.2.readRaw found.1 >>= fun x => return (decodeI64 x.1, x.2)) h ?_
  intro tag n r' content hheader hwanted hat
  show Ends (if n = 0 ∨ n > 8 then _ else _) _
  by_cases hlen : n = 0 ∨ n > 8
  · rw [if_pos hlen]
    exact .err _
  rw [if_neg hlen]
  refine (hat.ends_readRaw n).bind ?_
  rintro ⟨data, r''⟩ ⟨hle, hdata, hat'⟩
  obtain rfl : data = content.take n := hdata
  have hlength : (content.take n).length = n := List.length_take_of_le hle
  have hfilled : content.take n ≠ [] := by
    intro hempty
    rw [hempty] at hlength
    exact hlen (.inl hlength.symm)
  refine .ok ⟨_, scanField_of_header hheader hle (Field.ofElement_eq_some.2 ⟨hwanted, hfilled, ?_⟩),
    hat'⟩
  exact (toInt_decodeI64 (by omega)).symm

theorem ends_readInteger (h : r.At bytes) : Ends r.readInteger fun found =>
    ∃ rest, scanField bytes = some (.number false found.1.toInt, rest) ∧ found.2.At rest :=
  h.ends_readNumber false

theorem ends_readEnum (h : r.At bytes) : Ends r.readEnum fun found =>
    ∃ rest, scanField bytes = some (.number true found.1.toInt, rest) ∧ found.2.At rest :=
  h.ends_readNumber true

theorem ends_readNull (h : r.At bytes) : Ends r.readNull fun r' =>
    ∃ rest, scanField bytes = some (.null, rest) ∧ r'.At rest := by
  refine ends_header (f := fun _ found =>
    if found.1 ≠ 0 then .error (.err .truncated) else return found.2) h ?_
  intro tag n r' content hheader hwanted hat
  show Ends (if n ≠ 0 then _ else _) _
  by_cases hlen : n = 0
  · subst hlen
    rw [if_neg (fun hne => hne rfl)]
    exact .ok ⟨_, scanField_of_header hheader (Nat.zero_le _)
      (Field.ofElement_eq_some.2 ⟨hwanted, rfl⟩), hat⟩
  · rw [if_pos hlen]
    exact .err _

theorem ends_readSequence (h : r.At bytes) : Ends r.readSequence fun found =>
    ∃ tag content, header bytes = some (tag, found.1, content) ∧ isSequence tag = true ∧
      found.2.At content := by
  refine (h.ends_expect _).bind ?_
  rintro ⟨tag, r₁⟩ ⟨octet, rest, rfl, htag, hwanted, hat⟩
  refine hat.ends_readLength.mono ?_
  rintro ⟨n, r₂⟩ ⟨len, content, rfl, hlen, hat'⟩
  exact ⟨tag, content, header_eq_some.2 ⟨octet, len, rfl, htag, hlen⟩, hwanted, hat'⟩

theorem ends_readContextTag (h : r.At bytes) : Ends r.readContextTag fun found =>
    ∃ tag content, header bytes = some (tag, found.1.2, content) ∧ tag.cls = .context ∧
      tag.tag = found.1.1 ∧ found.2.At content := by
  refine ends_header (f := fun tag found => .ok ((tag.tag, found.1), found.2)) h ?_
  intro tag n r' content hheader hwanted hat
  exact .ok ⟨tag, content, hheader, eq_of_beq hwanted, rfl, hat⟩

theorem ends_subReader (n : Nat) (h : r.At bytes) : Ends (r.subReader n) fun found =>
    found.1.At (bytes.take n) ∧ found.2.At (bytes.drop n) := by
  simp only [subReader, h.remaining, ok_bind]
  by_cases hroom : bytes.length < n
  · rw [if_pos hroom]
    exact .err _
  · rw [if_neg hroom]
    have hat : r.At (bytes.take n ++ bytes.drop n) := by rwa [List.take_append_drop]
    have hskip := hat.skip
    rw [List.length_take_of_le (Nat.le_of_not_lt hroom)] at hskip
    refine .ok ⟨?_, hskip⟩
    rw [slice, h.drop_eq]
    exact at_new _

theorem getElem?_pos (h : r.At bytes) : r.buf[r.pos]? = bytes[0]? := by
  rw [← h.drop_eq, List.getElem?_drop, Nat.add_zero]

theorem ends_readBool (h : r.At bytes) (hvalue : boolAtEnd bytes = false) :
    Ends r.readBool fun found => ∃ rest, found.2.At rest := by
  refine (h.ends_expect _).bind ?_
  rintro ⟨tag, r₁⟩ ⟨octet, rest, rfl, htag, hwanted, hat⟩
  refine hat.ends_readLength.bind ?_
  rintro ⟨n, r₂⟩ ⟨len, content, rfl, hlen, hat'⟩
  show Ends (if n ≠ 1 then _ else _) _
  by_cases hone : n = 1
  · subst hone
    rw [if_neg (fun hne => hne rfl), hat'.getElem?_pos]
    cases content with
    | nil =>
      have hheader : header (octet :: (len ++ [])) = some (tag, 1, []) :=
        header_eq_some.2 ⟨octet, len, rfl, htag, hlen⟩
      simp only [boolAtEnd, hheader] at hvalue
      rw [hwanted] at hvalue
      cases hvalue
    | cons val rest =>
      have hval : r₂.At ([val] ++ rest) := hat'
      exact .ok ⟨rest, hval.skip⟩
  · rw [if_pos hone]
    exact .err _

theorem readBool_panics (h : r.At bytes) (hvalue : boolAtEnd bytes = true) :
    r.readBool = .error .panic := by
  unfold boolAtEnd at hvalue
  split at hvalue
  next tag hheader =>
    obtain ⟨octet, len, rfl, htag, hlen⟩ := header_eq_some.1 hheader
    rw [List.append_nil] at h
    have htag' : decodeTag (octet :: len) = .ok (tag, 1) := htag
    have hexpect := expect (isUniversal Tags.boolean) h htag' hvalue
    have h₀ : r.At ([octet] ++ (len ++ [])) := by rwa [List.append_nil]
    have h₁ : (r.skip 1).At (len ++ []) := h₀.skip
    have hread := readLength h₁ (decodeLength_append hlen [])
    have hend : ((r.skip 1).skip len.length).buf[((r.skip 1).skip len.length).pos]? = none :=
      h₁.skip.getElem?_pos
    simp only [readBool, hexpect, hread, ok_bind, ne_eq, not_true, if_false]
    rw [hend]
  · cases hvalue

end BerReader.At

end Sle
end Leodos
