/-
Elements of definite length as languages, and a scan of them from front to back.

An element's language says which octets spell it, so that the length in front of a
content is the number of its octets.  The scan takes the header of a wrapper apart
without a look at its length.  What it finds spells an element exactly when every wrapper
ends where its length says (`begins_operation_iff`).
-/
import Leodos.Sle.Octets
import Mathlib.Computability.Language

namespace Leodos
namespace Sle

open BerReader (isUniversal)

/-! ## Languages -/

/-- The number that octets spell in two's complement. -/
def wireInt (data : Bytes) : Int :=
  if signOf data then (BigEndian.decode data : Int) - ((256 ^ data.length : Nat) : Int)
  else (BigEndian.decode data : Int)

def element (wanted : TagOctet → Bool) (inner : Language UInt8) : Language UInt8 :=
  {bytes | ∃ octet len content tag, bytes = octet :: (len ++ content) ∧
    decodeTag [octet] = .ok (tag, 1) ∧ wanted tag = true ∧
    decodeLength len = .ok (content.length, len.length) ∧ content ∈ inner}

/-- What a primitive element says: the octets of a string are left open. -/
inductive Field where
  | octets
  | null
  | number (enumerated : Bool) (value : Int)
  deriving DecidableEq, Repr

namespace Field

def tag : Field → UInt8
  | octets => Tags.octetString
  | null => Tags.null
  | number enumerated _ => if enumerated then Tags.enumerated else Tags.integer

def Says : Field → Bytes → Prop
  | octets, _ => True
  | null, content => content = []
  | number _ value, content => content ≠ [] ∧ wireInt content = value

def contents (field : Field) : Language UInt8 := {content | field.Says content}

def lang (field : Field) : Language UInt8 := element (isUniversal field.tag) field.contents

end Field

def fieldsLang (fields : List Field) : Language UInt8 := (fields.map Field.lang).prod

def isSequence (tag : TagOctet) : Bool := isUniversal Tags.sequence tag && tag.constructed

/-- NULL, or a sequence around the number between two strings. -/
def credentialsLang : Option Int → Language UInt8
  | none => Field.null.lang
  | some random => element isSequence (fieldsLang [.octets, .number false random, .octets])

def isOperation (op : UInt8) (tag : TagOctet) : Bool := tag.cls == .context && tag.tag == op

def operationLang (op : UInt8) (random : Option Int) (fields : List Field) : Language UInt8 :=
  element (isOperation op) (element isSequence (credentialsLang random * fieldsLang fields))

/-- A word of the language and then the rest. -/
def Splits (lang : Language UInt8) (bytes rest : Bytes) : Prop :=
  ∃ word ∈ lang, bytes = word ++ rest

/-! ## The scan -/

/-- Tag and declared length of the element at the front, and the octets behind them. -/
def header : Bytes → Option (TagOctet × Nat × Bytes)
  | [] => none
  | octet :: rest =>
      match decodeTag [octet], decodeLength rest with
      | .ok (tag, _), .ok (n, used) => some (tag, n, rest.drop used)
      | _, _ => none

def Field.ofElement (tag : TagOctet) (content : Bytes) : Option Field :=
  if isUniversal Tags.octetString tag then some .octets
  else if isUniversal Tags.null tag then if content = [] then some .null else none
  else if content = [] then none
  else if isUniversal Tags.integer tag then some (.number false (wireInt content))
  else if isUniversal Tags.enumerated tag then some (.number true (wireInt content))
  else none

/-- The primitive element at the front, and the octets behind it. -/
def scanField (bytes : Bytes) : Option (Field × Bytes) := do
  let (tag, n, content) ← header bytes
  if content.length < n then none
  else
    let field ← Field.ofElement tag (content.take n)
    return (field, content.drop n)

def scanFields : Nat → Bytes → Option (List Field × Bytes)
  | 0, bytes => some ([], bytes)
  | k + 1, bytes => do
      let (field, bytes) ← scanField bytes
      let (fields, bytes) ← scanFields k bytes
      return (field :: fields, bytes)

/-- The number in the credentials, if there is one, and the octets behind them. -/
def scanCredentials (bytes : Bytes) : Option (Option Int × Bytes) := do
  let (tag, _, content) ← header bytes
  if isUniversal Tags.null tag then
    let (_, rest) ← scanField bytes
    return (none, rest)
  else if isSequence tag then
    match ← scanFields 3 content with
    | ([.octets, .number false random, .octets], rest) => some (some random, rest)
    | _ => none
  else none

/-- An operation taken apart: what is behind the header of the context tag, behind that of
the sequence, behind the credentials and behind the fields. -/
structure Scan where
  inner : Bytes
  content : Bytes
  random : Option Int
  fieldBytes : Bytes
  fields : List Field
  rest : Bytes
  deriving DecidableEq, Repr

def scanOperation (op : UInt8) (k : Nat) (buf : Bytes) : Option Scan := do
  let (tag, _, inner) ← header buf
  let (tag', _, content) ← header inner
  if isOperation op tag && isSequence tag' then
    let (random, fieldBytes) ← scanCredentials content
    let (fields, rest) ← scanFields k fieldBytes
    return { inner, content, random, fieldBytes, fields, rest }
  else none

/-- The element ends where `rest` begins. -/
def endsAt (bytes rest : Bytes) : Bool :=
  match header bytes with
  | some (_, n, content) => content.length == n + rest.length
  | none => false

/-- Each wrapper ends where the last of its elements ends. -/
def Scan.agrees (s : Scan) (buf : Bytes) : Bool :=
  endsAt buf s.rest && endsAt s.inner s.rest && endsAt s.content s.fieldBytes

/-! ## Headers -/

theorem decodeTag_ok {octet : UInt8} {bytes : Bytes} {tag : TagOctet} {used : Nat}
    (h : decodeTag (octet :: bytes) = .ok (tag, used)) :
    used = 1 ∧ ∀ bytes', decodeTag (octet :: bytes') = .ok (tag, 1) := by
  rw [decodeTag] at h
  by_cases hlong : octet &&& 0x1F = 0x1F
  · rw [if_pos hlong] at h
    cases h
  · rw [if_neg hlong] at h
    obtain ⟨rfl, rfl⟩ := Prod.mk.inj (Except.ok.inj h)
    refine ⟨rfl, fun bytes' => ?_⟩
    rw [decodeTag, if_neg hlong]

theorem decodeLength_ok {bytes : Bytes} {n used : Nat} (h : decodeLength bytes = .ok (n, used)) :
    ∃ len rest, bytes = len ++ rest ∧ len.length = used ∧
      ∀ rest', decodeLength (len ++ rest') = .ok (n, used) := by
  cases bytes with
  | nil => cases h
  | cons first more =>
    rw [decodeLength] at h
    by_cases hshort : first < 128
    · rw [if_pos hshort] at h
      obtain ⟨rfl, rfl⟩ := Prod.mk.inj (Except.ok.inj h)
      refine ⟨[first], more, rfl, rfl, fun rest' => ?_⟩
      show decodeLength (first :: rest') = _
      rw [decodeLength, if_pos hshort]
    rw [if_neg hshort] at h
    by_cases hcount : (first &&& 0x7F).toNat = 0 ∨ (first &&& 0x7F).toNat > 4
    · rw [if_pos hcount] at h
      cases h
    rw [if_neg hcount] at h
    by_cases hroom : more.length < (first &&& 0x7F).toNat
    · rw [if_pos hroom] at h
      cases h
    rw [if_neg hroom] at h
    obtain ⟨rfl, rfl⟩ := Prod.mk.inj (Except.ok.inj h)
    have hlen : (more.take (first &&& 0x7F).toNat).length = (first &&& 0x7F).toNat :=
      List.length_take_of_le (Nat.le_of_not_lt hroom)
    refine ⟨first :: more.take (first &&& 0x7F).toNat, more.drop (first &&& 0x7F).toNat, ?_, ?_,
      fun rest' => ?_⟩
    · rw [List.cons_append, List.take_append_drop]
    · rw [List.length_cons, hlen, Nat.add_comm]
    · have hroom' : ¬ (more.take (first &&& 0x7F).toNat ++ rest').length <
          (first &&& 0x7F).toNat := by
        rw [List.length_append, hlen]
        omega
      rw [List.cons_append, decodeLength, if_neg hshort, if_neg hcount, if_neg hroom',
        List.take_left' hlen]

theorem decodeLength_append {len : Bytes} {n : Nat} (h : decodeLength len = .ok (n, len.length))
    (rest : Bytes) : decodeLength (len ++ rest) = .ok (n, len.length) := by
  obtain ⟨len', more, hsplit, hlength, hdecode⟩ := decodeLength_ok h
  have hmore : more.length = 0 := by
    have := congrArg List.length hsplit
    rw [List.length_append] at this
    omega
  rw [List.length_eq_zero_iff.1 hmore, List.append_nil] at hsplit
  rw [hsplit] at hdecode ⊢
  exact hdecode rest

theorem header_eq_some {bytes rest : Bytes} {tag : TagOctet} {n : Nat} :
    header bytes = some (tag, n, rest) ↔ ∃ octet len, bytes = octet :: (len ++ rest) ∧
      decodeTag [octet] = .ok (tag, 1) ∧ decodeLength len = .ok (n, len.length) := by
  constructor
  · intro h
    cases bytes with
    | nil => cases h
    | cons octet bytes =>
      rw [header] at h
      split at h
      next tag' used n' used' htag hlen =>
        obtain ⟨rfl, hrest⟩ := Prod.mk.inj (Option.some.inj h)
        obtain ⟨rfl, rfl⟩ := Prod.mk.inj hrest
        obtain ⟨len, more, rfl, rfl, hdecode⟩ := decodeLength_ok hlen
        refine ⟨octet, len, ?_, ?_, ?_⟩
        · rw [List.drop_left]
        · exact (decodeTag_ok htag).2 []
        · have := hdecode []
          rwa [List.append_nil] at this
      · cases h
  · rintro ⟨octet, len, rfl, htag, hlen⟩
    simp only [header, htag, decodeLength_append hlen, List.drop_left]

theorem splits_element {wanted : TagOctet → Bool} {inner : Language UInt8} {bytes rest : Bytes} :
    Splits (element wanted inner) bytes rest ↔ ∃ tag content, wanted tag = true ∧
      content ∈ inner ∧ header bytes = some (tag, content.length, content ++ rest) := by
  constructor
  · rintro ⟨word, ⟨octet, len, content, tag, rfl, htag, hwanted, hlen, hinner⟩, rfl⟩
    refine ⟨tag, content, hwanted, hinner, ?_⟩
    exact header_eq_some.2 ⟨octet, len, by simp, htag, hlen⟩
  · rintro ⟨tag, content, hwanted, hinner, hheader⟩
    obtain ⟨octet, len, rfl, htag, hlen⟩ := header_eq_some.1 hheader
    exact ⟨octet :: (len ++ content), ⟨octet, len, content, tag, rfl, htag, hwanted, hlen, hinner⟩,
      by simp⟩

theorem splits_mul {first second : Language UInt8} {bytes rest : Bytes} :
    Splits (first * second) bytes rest ↔
      ∃ mid, Splits first bytes mid ∧ Splits second mid rest := by
  constructor
  · rintro ⟨word, hword, rfl⟩
    obtain ⟨a, ha, b, hb, rfl⟩ := Language.mem_mul.1 hword
    exact ⟨b ++ rest, ⟨a, ha, List.append_assoc a b rest⟩, b, hb, rfl⟩
  · rintro ⟨mid, ⟨a, ha, rfl⟩, b, hb, rfl⟩
    exact ⟨a ++ b, Language.mem_mul.2 ⟨a, ha, b, hb, rfl⟩, (List.append_assoc a b rest).symm⟩

/-! ## The scan finds what is spelled -/

theorem isUniversal_iff {t : UInt8} {tag : TagOctet} :
    isUniversal t tag = true ↔ tag.tag = t ∧ tag.cls = .universal := by
  simp only [isUniversal, Bool.and_eq_true, beq_iff_eq]

theorem Field.ofElement_eq_some {tag : TagOctet} {content : Bytes} {field : Field} :
    ofElement tag content = some field ↔
      isUniversal field.tag tag = true ∧ field.Says content := by
  constructor
  · intro h
    unfold ofElement at h
    split at h
    next htag =>
      obtain rfl := Option.some.inj h
      exact ⟨htag, trivial⟩
    split at h
    next htag =>
      split at h
      next hempty =>
        obtain rfl := Option.some.inj h
        exact ⟨htag, hempty⟩
      · cases h
    split at h
    · cases h
    next hfilled =>
      split at h
      next htag =>
        obtain rfl := Option.some.inj h
        exact ⟨htag, hfilled, rfl⟩
      split at h
      next htag =>
        obtain rfl := Option.some.inj h
        exact ⟨htag, hfilled, rfl⟩
      · cases h
  · rintro ⟨htag, hsays⟩
    obtain ⟨t, cls, constructed⟩ := tag
    simp only [isUniversal, Bool.and_eq_true, beq_iff_eq] at htag
    obtain ⟨rfl, rfl⟩ := htag
    cases field with
    | octets => rfl
    | null =>
      obtain rfl : content = [] := hsays
      rfl
    | number enumerated value =>
      obtain ⟨hfilled, rfl⟩ := hsays
      cases enumerated <;> exact if_neg hfilled

theorem scanField_eq_some {bytes rest : Bytes} {field : Field} :
    scanField bytes = some (field, rest) ↔ Splits field.lang bytes rest := by
  rw [Field.lang, splits_element]
  constructor
  · intro h
    obtain ⟨⟨tag, n, content⟩, hheader, h⟩ := Option.bind_eq_some_iff.1 h
    by_cases hroom : content.length < n
    · simp only [hroom, if_true] at h
      cases h
    simp only [hroom, if_false] at h
    obtain ⟨field', hfield, h⟩ := Option.bind_eq_some_iff.1 h
    obtain ⟨rfl, rfl⟩ := Prod.mk.inj (Option.some.inj h)
    obtain ⟨htag, hsays⟩ := Field.ofElement_eq_some.1 hfield
    have hlen : (content.take n).length = n := List.length_take_of_le (Nat.le_of_not_lt hroom)
    refine ⟨tag, content.take n, htag, hsays, ?_⟩
    rw [hlen, List.take_append_drop]
    exact hheader
  · rintro ⟨tag, content, htag, hsays, hheader⟩
    have hroom : ¬ (content ++ rest).length < content.length := by
      rw [List.length_append]
      omega
    have hfield := Field.ofElement_eq_some.2 ⟨htag, hsays⟩
    simp only [scanField, hheader, Option.bind_eq_bind, Option.bind_some, if_neg hroom,
      List.take_left, List.drop_left, hfield]
    rfl

theorem scanFields_eq_some {fields : List Field} {bytes rest : Bytes} :
    scanFields fields.length bytes = some (fields, rest) ↔
      Splits (fieldsLang fields) bytes rest := by
  induction fields generalizing bytes with
  | nil =>
    constructor
    · intro h
      obtain ⟨-, rfl⟩ := Prod.mk.inj (Option.some.inj h)
      exact ⟨[], (Language.mem_one []).2 rfl, rfl⟩
    · rintro ⟨word, hword, rfl⟩
      obtain rfl := (Language.mem_one word).1 hword
      rfl
  | cons field fields ih =>
    rw [fieldsLang, List.map_cons, List.prod_cons, splits_mul]
    constructor
    · intro h
      obtain ⟨⟨field', mid⟩, hfield, h⟩ := Option.bind_eq_some_iff.1 h
      obtain ⟨⟨fields', rest'⟩, hfields, h⟩ := Option.bind_eq_some_iff.1 h
      obtain ⟨hsame, rfl⟩ := Prod.mk.inj (Option.some.inj h)
      obtain ⟨rfl, rfl⟩ := List.cons.inj hsame
      exact ⟨mid, scanField_eq_some.1 hfield, ih.1 hfields⟩
    · rintro ⟨mid, hfield, hfields⟩
      have hscan := scanField_eq_some.2 hfield
      have hscans := ih.2 hfields
      simp only [List.length_cons, scanFields, hscan, hscans, Option.bind_eq_bind,
        Option.bind_some]
      rfl

/-! ## Wrappers -/

theorem endsAt_of_header {bytes rest content : Bytes} {tag : TagOctet} {n : Nat}
    (h : header bytes = some (tag, n, content)) :
    endsAt bytes rest = true ↔ content.length = n + rest.length := by
  simp only [endsAt, h, beq_iff_eq]

theorem splits_wrapper {wanted : TagOctet → Bool} {inner : Language UInt8} {bytes rest : Bytes} :
    Splits (element wanted inner) bytes rest ↔ ∃ tag n content,
      header bytes = some (tag, n, content) ∧ wanted tag = true ∧ Splits inner content rest ∧
      endsAt bytes rest = true := by
  rw [splits_element]
  constructor
  · rintro ⟨tag, content, hwanted, hinner, hheader⟩
    refine ⟨tag, _, _, hheader, hwanted, ⟨content, hinner, rfl⟩, ?_⟩
    rw [endsAt_of_header hheader, List.length_append]
  · rintro ⟨tag, n, content, hheader, hwanted, ⟨word, hword, rfl⟩, hends⟩
    rw [endsAt_of_header hheader, List.length_append] at hends
    obtain rfl : word.length = n := Nat.add_right_cancel hends
    exact ⟨tag, word, hwanted, hword, hheader⟩

theorem Field.eq_null_of_tag {field : Field} (h : field.tag = Tags.null) : field = null := by
  cases field with
  | octets => exact absurd h (by decide)
  | null => rfl
  | number enumerated value =>
    cases enumerated with
    | false => exact absurd h (show Tags.integer ≠ Tags.null by decide)
    | true => exact absurd h (show Tags.enumerated ≠ Tags.null by decide)

theorem eq_null_of_scanField {bytes rest content : Bytes} {tag : TagOctet} {n : Nat}
    {field : Field} (hheader : header bytes = some (tag, n, content))
    (htag : isUniversal Tags.null tag = true) (h : scanField bytes = some (field, rest)) :
    field = .null := by
  obtain ⟨tag', n', content', hheader', htag', -, -⟩ := splits_wrapper.1 (scanField_eq_some.1 h)
  rw [hheader] at hheader'
  obtain ⟨rfl, -⟩ := Prod.mk.inj (Option.some.inj hheader')
  refine Field.eq_null_of_tag ?_
  rw [← (isUniversal_iff.1 htag').1, (isUniversal_iff.1 htag).1]

theorem splits_credentials {random : Option Int} {bytes rest : Bytes} :
    Splits (credentialsLang random) bytes rest ↔
      scanCredentials bytes = some (random, rest) ∧ endsAt bytes rest = true := by
  constructor
  · intro h
    cases random with
    | none =>
      have hscan := scanField_eq_some.2 h
      obtain ⟨tag, n, content, hheader, htag, -, hends⟩ := splits_wrapper.1 h
      have htag' : isUniversal Tags.null tag = true := htag
      refine ⟨?_, hends⟩
      simp only [scanCredentials, hheader, Option.bind_eq_bind, Option.bind_some, htag', if_true,
        hscan]
      rfl
    | some random =>
      obtain ⟨tag, n, content, hheader, htag, hfields, hends⟩ := splits_wrapper.1 h
      have hscan : scanFields 3 content = _ := scanFields_eq_some.2 hfields
      have htag' : isUniversal Tags.null tag = false := by
        simp only [isSequence, Bool.and_eq_true, isUniversal_iff] at htag
        rw [isUniversal, htag.1.1]
        rfl
      refine ⟨?_, hends⟩
      simp only [scanCredentials, hheader, Option.bind_eq_bind, Option.bind_some, htag', htag,
        if_true, hscan, Bool.false_eq_true, if_false]
  · rintro ⟨h, hends⟩
    obtain ⟨⟨tag, n, content⟩, hheader, h⟩ := Option.bind_eq_some_iff.1 h
    by_cases hnull : isUniversal Tags.null tag = true
    · simp only [hnull, if_true] at h
      obtain ⟨⟨field, rest'⟩, hfield, h⟩ := Option.bind_eq_some_iff.1 h
      obtain ⟨rfl, rfl⟩ := Prod.mk.inj (Option.some.inj h)
      obtain rfl := eq_null_of_scanField hheader hnull hfield
      exact scanField_eq_some.1 hfield
    simp only [hnull] at h
    by_cases hseq : isSequence tag = true
    · simp only [hseq, if_true] at h
      obtain ⟨⟨fields, rest'⟩, hfields, h⟩ := Option.bind_eq_some_iff.1 h
      split at h
      next random' rest'' hsame =>
        obtain ⟨rfl, rfl⟩ := Prod.mk.inj hsame
        obtain ⟨rfl, rfl⟩ := Prod.mk.inj (Option.some.inj h)
        exact splits_wrapper.2 ⟨tag, n, content, hheader, hseq, scanFields_eq_some.1 hfields, hends⟩
      · cases h
    · simp only [hseq] at h
      cases h

/-- An operation is spelled in front exactly when the scan finds it and each wrapper ends
where its length says. -/
theorem splits_operation {op : UInt8} {random : Option Int} {fields : List Field}
    {buf rest : Bytes} :
    Splits (operationLang op random fields) buf rest ↔ ∃ s,
      scanOperation op fields.length buf = some s ∧ s.agrees buf = true ∧
      s.random = random ∧ s.fields = fields ∧ s.rest = rest := by
  rw [operationLang, splits_wrapper]
  constructor
  · rintro ⟨tag, n, inner, hheader, htag, hinner, hends⟩
    obtain ⟨tag', n', content, hheader', htag', hcontent, hends'⟩ := splits_wrapper.1 hinner
    obtain ⟨fieldBytes, hcred, hfields⟩ := splits_mul.1 hcontent
    obtain ⟨hscan, hends''⟩ := splits_credentials.1 hcred
    have hscans := scanFields_eq_some.2 hfields
    refine ⟨⟨inner, content, random, fieldBytes, fields, rest⟩, ?_, ?_, rfl, rfl, rfl⟩
    · simp only [scanOperation, hheader, hheader', Option.bind_eq_bind, Option.bind_some, htag,
        htag', Bool.and_self, if_true, hscan, hscans]
      rfl
    · simp only [Scan.agrees, hends, hends', hends'', Bool.and_self]
  · rintro ⟨s, hscan, hagrees, rfl, rfl, rfl⟩
    simp only [Scan.agrees, Bool.and_eq_true] at hagrees
    obtain ⟨⟨hends, hends'⟩, hends''⟩ := hagrees
    obtain ⟨⟨tag, n, inner⟩, hheader, h⟩ := Option.bind_eq_some_iff.1 hscan
    obtain ⟨⟨tag', n', content⟩, hheader', h⟩ := Option.bind_eq_some_iff.1 h
    by_cases htags : isOperation op tag && isSequence tag'
    · simp only [htags, if_true] at h
      obtain ⟨⟨random, fieldBytes⟩, hcred, h⟩ := Option.bind_eq_some_iff.1 h
      obtain ⟨⟨fields, rest⟩, hfields, h⟩ := Option.bind_eq_some_iff.1 h
      obtain rfl := Option.some.inj h
      rw [Bool.and_eq_true] at htags
      refine ⟨tag, n, inner, hheader, htags.1, ?_, hends⟩
      refine splits_wrapper.2 ⟨tag', n', content, hheader', htags.2, ?_, hends'⟩
      exact splits_mul.2 ⟨fieldBytes, splits_credentials.2 ⟨hcred, hends''⟩,
        scanFields_eq_some.1 hfields⟩
    · simp only [htags] at h
      cases h

end Sle
end Leodos
