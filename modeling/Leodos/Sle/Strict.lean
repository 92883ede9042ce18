/-
How strict the PDU decoders are.

No decoder panics.  A PDU that is decoded is spelled at the front of the input, with each
length the number of octets inside and each number the one on the wire, exactly when on
the scan of the input the three wrappers end where their lengths say and the numbers have
room in their fields; the decoders look at neither.
-/
import Leodos.Sle.Reading

namespace Leodos
namespace Sle

open Emission BerReader

/-- The input begins with a word of the language. -/
def Begins (lang : Language UInt8) (buf : Bytes) : Prop := ∃ rest, Splits lang buf rest

def inRange (lo hi value : Int) : Bool := decide (lo ≤ value) && decide (value < hi)

/-- The first numbers among the fields lie in the ranges. -/
def inRanges : List (Int × Int) → List Field → Bool
  | (lo, hi) :: ranges, .number _ value :: fields =>
      inRange lo hi value && inRanges ranges fields
  | ranges, _ :: fields => inRanges ranges fields
  | _, [] => true

/-- The wrappers of an operation with `k` fields end where their lengths say, and its
numbers lie in their ranges. -/
def strictOperation (op : UInt8) (k : Nat) (ranges : List (Int × Int)) (buf : Bytes) : Bool :=
  match scanOperation op k buf with
  | some s => s.agrees buf && s.random.all (inRange 0 4294967296) && inRanges ranges s.fields
  | none => false

def strictSequence (k : Nat) (ranges : List (Int × Int)) (buf : Bytes) : Bool :=
  match header buf with
  | some (tag, _, content) =>
      match scanFields k content with
      | some (fields, rest) => isSequence tag && endsAt buf rest && inRanges ranges fields
      | none => false
  | none => false

/-! ## What the PDUs say -/

def credentialsNumber (credentials : Option Credentials) : Option Int :=
  credentials.map fun cred => (cred.random.toNat : Int)

def timeField : Option Time → Field
  | none => .null
  | some _ => .octets

namespace RafBindInvocation

def lang (p : RafBindInvocation) : Language UInt8 :=
  operationLang RafOp.bind (credentialsNumber p.credentials)
    [.octets, .octets, .number true p.serviceType.toI64.toInt, .number false p.version.toNat]

def strict (buf : Bytes) : Bool := strictOperation RafOp.bind 4 [(0, 256), (0, 65536)] buf

end RafBindInvocation

namespace CltuBindInvocation

def lang (p : CltuBindInvocation) : Language UInt8 :=
  operationLang CltuOp.bind (credentialsNumber p.credentials)
    [.octets, .octets, .number true p.serviceType.toI64.toInt, .number false p.version.toNat]

def strict (buf : Bytes) : Bool := strictOperation CltuOp.bind 4 [(2, 3), (0, 65536)] buf

end CltuBindInvocation

namespace RafBindReturn

def lang (p : RafBindReturn) : Language UInt8 :=
  operationLang RafOp.bindReturn (credentialsNumber p.credentials)
    [.number true p.result.toI64.toInt]

def strict (buf : Bytes) : Bool := strictOperation RafOp.bindReturn 1 [(0, 256)] buf

end RafBindReturn

namespace RafStartInvocation

def lang (p : RafStartInvocation) : Language UInt8 :=
  operationLang RafOp.start (credentialsNumber p.credentials)
    [timeField p.startTime, timeField p.stopTime, .number true p.quality.toI64.toInt]

def strict (buf : Bytes) : Bool := strictOperation RafOp.start 3 [] buf

end RafStartInvocation

namespace CltuStartInvocation

def lang (p : CltuStartInvocation) : Language UInt8 :=
  operationLang CltuOp.start (credentialsNumber p.credentials)
    [.number false p.invokeId.toNat, .number false p.firstCltuId.toNat]

def strict (buf : Bytes) : Bool :=
  strictOperation CltuOp.start 2 [(0, 65536), (0, 4294967296)] buf

end CltuStartInvocation

namespace CltuTransferDataInvocation

def lang (p : CltuTransferDataInvocation) : Language UInt8 :=
  operationLang CltuOp.transferData (credentialsNumber p.credentials)
    [.number false p.cltuId.toNat, .octets]

def strict (buf : Bytes) : Bool :=
  strictOperation CltuOp.transferData 2 [(0, 4294967296)] buf

end CltuTransferDataInvocation

namespace CltuTransferDataReturn

def lang (p : CltuTransferDataReturn) : Language UInt8 :=
  operationLang CltuOp.transferDataReturn (credentialsNumber p.credentials)
    [.number false p.cltuId.toNat, .number true p.status.toI64.toInt]

def strict (buf : Bytes) : Bool :=
  strictOperation CltuOp.transferDataReturn 2 [(0, 4294967296)] buf

end CltuTransferDataReturn

namespace RafTransferDataInvocation

def lang (p : RafTransferDataInvocation) : Language UInt8 :=
  element isSequence (fieldsLang [.octets, .number false p.dataLinkContinuity.toInt, .octets])

def strict (buf : Bytes) : Bool := strictSequence 3 [(-32768, 32768)] buf

end RafTransferDataInvocation

/-! ## Numbers in narrow fields -/

theorem inRange_iff {lo hi value : Int} : inRange lo hi value = true ↔ lo ≤ value ∧ value < hi := by
  rw [inRange, Bool.and_eq_true, decide_eq_true_eq, decide_eq_true_eq]

theorem toNat_setWidth_iff {n : Nat} {hi : Int} (hhi : hi = ((2 ^ n : Nat) : Int)) (x : I64) :
    ((x.setWidth n).toNat : Int) = x.toInt ↔ inRange 0 hi x.toInt = true := by
  have hlt := (x.setWidth n).isLt
  rw [inRange_iff, hhi]
  constructor
  · intro hsame
    rw [← hsame]
    omega
  · rintro ⟨hpos, hroom⟩
    have hnat : x.toInt = x.toNat := by
      rw [BitVec.toInt_eq_toNat_cond] at hpos ⊢
      have := x.isLt
      split at hpos
      next h => rw [if_pos h]
      · omega
    rw [hnat] at hroom ⊢
    rw [BitVec.toNat_setWidth, Nat.mod_eq_of_lt (by omega)]

theorem toInt_setWidth_iff (x : I64) :
    (x.setWidth 16).toInt = x.toInt ↔ inRange (-32768) 32768 x.toInt = true := by
  have hlt := x.isLt
  rw [inRange_iff, BitVec.toInt_eq_toNat_cond, BitVec.toInt_eq_toNat_cond, BitVec.toNat_setWidth]
  constructor
  · intro hsame
    split at hsame
    · split at hsame <;> omega
    · split at hsame <;> omega
  · intro hroom
    split at hroom
    · split <;> omega
    · split <;> omega

theorem ServiceType.ends_fromU8 (v : BitVec 8) :
    Ends (fromU8 v) fun s => s.toI64.toInt = v.toNat := by
  unfold fromU8
  split
  next hv => exact .ok (by rw [hv]; rfl)
  split
  next hv => exact .ok (by rw [hv]; rfl)
  split
  next hv => exact .ok (by rw [hv]; rfl)
  · exact .err _

theorem BindResult.ends_fromU8 (v : BitVec 8) :
    Ends (fromU8 v) fun b => b.toI64.toInt = v.toNat := by
  unfold fromU8
  split
  next hv => exact .ok (by rw [hv]; rfl)
  split
  next hv => exact .ok (by rw [hv]; rfl)
  split
  next hv => exact .ok (by rw [hv]; rfl)
  split
  next hv => exact .ok (by rw [hv]; rfl)
  · exact .err _

theorem RequestedFrameQuality.ends_fromI64 (v : I64) :
    Ends (fromI64 v) fun q => q.toI64 = v := by
  unfold fromI64
  split
  next hv => exact .ok hv.symm
  split
  next hv => exact .ok hv.symm
  split
  next hv => exact .ok hv.symm
  · exact .err _

theorem CltuStatus.ends_fromI64 (v : I64) : Ends (fromI64 v) fun s => s.toI64 = v := by
  unfold fromI64
  split
  next hv => exact .ok hv.symm
  split
  next hv => exact .ok hv.symm
  split
  next hv => exact .ok hv.symm
  split
  next hv => exact .ok hv.symm
  · exact .err _

theorem Time.ends_decode (bytes : Bytes) : Ends (Time.decode bytes) fun _ => True := by
  unfold Time.decode
  split
  · exact .err _
  · exact .ok trivial

theorem ends_readTime {r : BerReader} {bytes : Bytes} (h : r.At bytes) :
    Ends (readTime r) fun found =>
      ∃ rest, scanField bytes = some (timeField found.1, rest) ∧ found.2.At rest := by
  refine h.ends_peekTag.bind ?_
  rintro tag ⟨octet, tail, hbytes, htag⟩
  show Ends (if tag.tag = Tags.null then _ else _) _
  by_cases hnull : tag.tag = Tags.null
  · rw [if_pos hnull]
    refine h.ends_readNull.bind ?_
    rintro r' ⟨rest, hscan, hat⟩
    exact .ok ⟨rest, hscan, hat⟩
  · rw [if_neg hnull]
    refine h.ends_readOctetString.bind ?_
    rintro ⟨data, r'⟩ ⟨rest, hscan, hat⟩
    refine (Time.ends_decode data).bind fun t _ => ?_
    exact .ok ⟨rest, hscan, hat⟩

/-! ## Operations -/

theorem ends_exactly (n : Nat) (bytes : Bytes) : Ends (exactly n bytes) fun _ => True := by
  unfold exactly
  split
  · exact .ok trivial
  · exact .err _

theorem ends_atLeast (n : Nat) (bytes : Bytes) : Ends (atLeast n bytes) fun _ => True := by
  unfold atLeast
  split
  · exact .ok trivial
  · exact .err _

theorem scanFields_cons {bytes mid rest : Bytes} {field : Field} {fields : List Field} {k : Nat}
    (h : scanField bytes = some (field, mid)) (hs : scanFields k mid = some (fields, rest)) :
    scanFields (k + 1) bytes = some (field :: fields, rest) := by
  simp only [scanFields, h, hs, Option.bind_eq_bind, Option.bind_some]
  rfl

theorem ends_readCredentials {array : (n : Nat) → Bytes → Result (Octets n)}
    (harray : ∀ n bytes, Ends (array n bytes) fun _ => True) {r : BerReader} {bytes : Bytes}
    (h : r.At bytes) : Ends (readCredentials array r) fun found => ∃ random rest,
      scanCredentials bytes = some (random, rest) ∧ found.2.At rest ∧
      (credentialsNumber found.1 = random ↔ random.all (inRange 0 4294967296) = true) := by
  refine h.ends_peekTag.bind ?_
  rintro tag ⟨octet, tail, hbytes, htag⟩
  show Ends (if isUniversal Tags.null tag then _ else _) _
  by_cases hnull : isUniversal Tags.null tag = true
  · rw [if_pos hnull]
    refine h.ends_readNull.bind ?_
    rintro r' ⟨rest, hscan, hat⟩
    refine .ok ⟨none, rest, ?_, hat, iff_of_true rfl rfl⟩
    obtain ⟨tag', n, content, hheader, htag', -, -⟩ := splits_wrapper.1 (scanField_eq_some.1 hscan)
    have hwanted : isUniversal Tags.null tag' = true := htag'
    simp only [scanCredentials, hheader, Option.bind_eq_bind, Option.bind_some, hwanted, if_true,
      hscan]
    rfl
  · rw [if_neg hnull]
    refine h.ends_readSequence.bind ?_
    rintro ⟨n, r₁⟩ ⟨tag', content, hheader, hseq, hat⟩
    refine hat.ends_readOctetString.bind ?_
    rintro ⟨timeBytes, r₂⟩ ⟨rest₂, htime, hat⟩
    refine hat.ends_readInteger.bind ?_
    rintro ⟨value, r₃⟩ ⟨rest₃, hvalue, hat⟩
    refine hat.ends_readOctetString.bind ?_
    rintro ⟨hashBytes, r₄⟩ ⟨rest₄, hhash, hat⟩
    refine (harray 8 timeBytes).bind fun time _ => ?_
    refine (harray 20 hashBytes).bind fun hash _ => ?_
    refine .ok ⟨some value.toInt, rest₄, ?_, hat, ?_⟩
    · have hscan : scanFields 3 content = _ :=
        scanFields_cons htime (scanFields_cons hvalue (scanFields_cons hhash rfl))
      have hwanted : isUniversal Tags.null tag' = false := by
        simp only [isSequence, Bool.and_eq_true, isUniversal_iff] at hseq
        rw [isUniversal, hseq.1.1]
        rfl
      simp only [scanCredentials, hheader, Option.bind_eq_bind, Option.bind_some, hwanted, hseq,
        if_true, hscan, Bool.false_eq_true, if_false]
    · show some ((value.setWidth 32).toNat : Int) = some value.toInt ↔
        inRange 0 4294967296 value.toInt = true
      rw [Option.some.injEq]
      exact toNat_setWidth_iff rfl value

/-- The fields of an operation begin here, on the scan of the input. -/
def FieldsAt (op : UInt8) (buf : Bytes) (random : Option Int) (fieldBytes : Bytes) : Prop :=
  ∃ tag n inner tag' n' content, header buf = some (tag, n, inner) ∧ isOperation op tag = true ∧
    header inner = some (tag', n', content) ∧ isSequence tag' = true ∧
    scanCredentials content = some (random, fieldBytes)

theorem ends_operation {α : Type} {array : (n : Nat) → Bytes → Result (Octets n)}
    (harray : ∀ n bytes, Ends (array n bytes) fun _ => True) (op : UInt8) (buf : Bytes)
    {f : Option Credentials × BerReader → Result α} {post : α → Prop}
    (hf : ∀ cred r random fieldBytes, FieldsAt op buf random fieldBytes → r.At fieldBytes →
      (credentialsNumber cred = random ↔ random.all (inRange 0 4294967296) = true) →
      Ends (f (cred, r)) post) :
    Ends (readOperation op buf >>= fun r => readCredentials array r >>= f) post := by
  have hop : Ends (readOperation op buf) fun r => ∃ tag n inner tag' n' content,
      header buf = some (tag, n, inner) ∧ isOperation op tag = true ∧
      header inner = some (tag', n', content) ∧ isSequence tag' = true ∧ r.At content := by
    refine (at_new buf).ends_readContextTag.bind ?_
    rintro ⟨⟨number, n⟩, r⟩ ⟨tag, inner, hheader, hcls, hnumber, hat⟩
    obtain rfl : tag.tag = number := hnumber
    show Ends (if tag.tag ≠ op then _ else _) _
    by_cases hwanted : tag.tag = op
    · rw [if_neg (fun hne => hne hwanted)]
      refine hat.ends_readSequence.bind ?_
      rintro ⟨n', r'⟩ ⟨tag', content, hheader', hseq, hat'⟩
      refine .ok ⟨tag, n, inner, tag', n', content, hheader, ?_, hheader', hseq, hat'⟩
      rw [isOperation, hcls, hwanted, beq_self_eq_true, beq_self_eq_true, Bool.and_self]
    · rw [if_pos hwanted]
      exact .err _
  refine hop.bind ?_
  rintro r ⟨tag, n, inner, tag', n', content, hheader, htag, hheader', htag', hat⟩
  refine (ends_readCredentials harray hat).bind ?_
  rintro ⟨cred, r'⟩ ⟨random, fieldBytes, hscan, hat', hrandom⟩
  exact hf cred r' random fieldBytes
    ⟨tag, n, inner, tag', n', content, hheader, htag, hheader', htag', hscan⟩ hat' hrandom

theorem begins_operation_iff {op : UInt8} {buf fieldBytes rest : Bytes} {random : Option Int}
    {cred : Option Credentials} {fields found : List Field} {k : Nat}
    {ranges : List (Int × Int)} (hfront : FieldsAt op buf random fieldBytes)
    (hscan : scanFields k fieldBytes = some (found, rest)) (hk : fields.length = k)
    (hrandom : credentialsNumber cred = random ↔ random.all (inRange 0 4294967296) = true)
    (hfields : fields = found ↔ inRanges ranges found = true) :
    Begins (operationLang op (credentialsNumber cred) fields) buf ↔
      strictOperation op k ranges buf = true := by
  obtain ⟨tag, n, inner, tag', n', content, hheader, htag, hheader', htag', hcred⟩ := hfront
  have hs : scanOperation op k buf =
      some ⟨inner, content, random, fieldBytes, found, rest⟩ := by
    simp only [scanOperation, hheader, hheader', Option.bind_eq_bind, Option.bind_some, htag,
      htag', Bool.and_self, if_true, hcred, hscan]
    rfl
  rw [strictOperation, hs]
  simp only [Bool.and_eq_true]
  rw [← hrandom, ← hfields]
  constructor
  · rintro ⟨rest', hsplits⟩
    obtain ⟨s, hs', hagrees, hr, hf, -⟩ := splits_operation.1 hsplits
    rw [hk, hs] at hs'
    obtain rfl := Option.some.inj hs'
    exact ⟨⟨hagrees, hr.symm⟩, hf.symm⟩
  · rintro ⟨⟨hagrees, hr⟩, hf⟩
    refine ⟨rest, splits_operation.2 ⟨_, ?_, hagrees, hr.symm, hf.symm, rfl⟩⟩
    rw [hk]
    exact hs

theorem begins_sequence_iff {buf content rest : Bytes} {tag : TagOctet} {n k : Nat}
    {fields found : List Field} {ranges : List (Int × Int)}
    (hheader : header buf = some (tag, n, content)) (htag : isSequence tag = true)
    (hscan : scanFields k content = some (found, rest)) (hk : fields.length = k)
    (hfields : fields = found ↔ inRanges ranges found = true) :
    Begins (element isSequence (fieldsLang fields)) buf ↔ strictSequence k ranges buf = true := by
  rw [strictSequence, hheader]
  simp only [hscan, htag, Bool.true_and, Bool.and_eq_true]
  rw [← hfields]
  constructor
  · rintro ⟨rest', hsplits⟩
    obtain ⟨tag', n', content', hheader', -, hinner, hends⟩ := splits_wrapper.1 hsplits
    rw [hheader] at hheader'
    obtain ⟨rfl, rfl, rfl⟩ := by simpa using hheader'
    have hscan' := scanFields_eq_some.2 hinner
    rw [hk, hscan] at hscan'
    obtain ⟨rfl, rfl⟩ := Prod.mk.inj (Option.some.inj hscan')
    exact ⟨hends, rfl⟩
  · rintro ⟨hends, rfl⟩
    subst hk
    exact ⟨rest, splits_wrapper.2 ⟨tag, n, content, hheader, htag, scanFields_eq_some.1 hscan,
      hends⟩⟩

/-! ## The PDUs -/

theorem cons_number_iff {enumerated : Bool} {x y : Int} {fields found : List Field}
    {lo hi : Int} {ranges : List (Int × Int)} (hx : x = y ↔ inRange lo hi y = true)
    (hfields : fields = found ↔ inRanges ranges found = true) :
    Field.number enumerated x :: fields = .number enumerated y :: found ↔
      inRanges ((lo, hi) :: ranges) (.number enumerated y :: found) = true := by
  rw [inRanges, Bool.and_eq_true, ← hx, ← hfields, List.cons.injEq, Field.number.injEq]
  simp only [true_and]

theorem nil_iff (ranges : List (Int × Int)) :
    ([] : List Field) = [] ↔ inRanges ranges [] = true := by
  cases ranges <;> simp [inRanges]

theorem cons_octets_iff {fields found : List Field} {ranges : List (Int × Int)}
    (hfields : fields = found ↔ inRanges ranges found = true) :
    Field.octets :: fields = .octets :: found ↔ inRanges ranges (.octets :: found) = true := by
  have hskip : inRanges ranges (.octets :: found) = inRanges ranges found := by
    cases ranges <;> rfl
  rw [hskip, ← hfields, List.cons.injEq]
  simp only [true_and]

theorem inRanges_nil (fields : List Field) : inRanges [] fields = true := by
  induction fields with
  | nil => rfl
  | cons field fields ih => cases field <;> exact ih

variable (buf : Bytes)

namespace RafBindInvocation

theorem ends_new (initiator responder : Bytes) (service : ServiceType) (version : BitVec 16)
    (credentials : Option Credentials) :
    Ends (new initiator responder service version credentials) fun p =>
      p.serviceType = service ∧ p.version = version ∧ p.credentials = credentials := by
  unfold new
  split
  · exact .ok ⟨rfl, rfl, rfl⟩
  · exact .err _

theorem ends_decode : Ends (decode buf) fun p => Begins p.lang buf ↔ strict buf = true := by
  refine ends_operation ends_exactly RafOp.bind buf ?_
  intro cred r random fieldBytes hfront hat hrandom
  refine hat.ends_readOctetString.bind ?_
  rintro ⟨initiator, r₁⟩ ⟨rest₁, h₁, hat⟩
  refine hat.ends_readOctetString.bind ?_
  rintro ⟨responder, r₂⟩ ⟨rest₂, h₂, hat⟩
  refine hat.ends_readEnum.bind ?_
  rintro ⟨service, r₃⟩ ⟨rest₃, h₃, hat⟩
  refine (ServiceType.ends_fromU8 _).bind fun serviceType hservice => ?_
  refine hat.ends_readInteger.bind ?_
  rintro ⟨version, r₄⟩ ⟨rest₄, h₄, -⟩
  refine (ends_new _ _ _ _ _).mono ?_
  rintro p ⟨rfl, hversion, rfl⟩
  refine begins_operation_iff hfront
    (scanFields_cons h₁ (scanFields_cons h₂ (scanFields_cons h₃ (scanFields_cons h₄ rfl)))) rfl
    hrandom ?_
  refine cons_octets_iff (cons_octets_iff (cons_number_iff ?_ (cons_number_iff ?_ (nil_iff _))))
  · rw [hservice]
    exact toNat_setWidth_iff rfl service
  · rw [hversion]
    exact toNat_setWidth_iff rfl version

end RafBindInvocation

namespace CltuBindInvocation

theorem ends_new (initiator responder : Bytes) (version : BitVec 16)
    (credentials : Option Credentials) :
    Ends (new initiator responder version credentials) fun p =>
      p.serviceType = .fCltu ∧ p.version = version ∧ p.credentials = credentials := by
  unfold new
  split
  · exact .ok ⟨rfl, rfl, rfl⟩
  · exact .err _

theorem ends_decode : Ends (decode buf) fun p => Begins p.lang buf ↔ strict buf = true := by
  refine ends_operation ends_atLeast CltuOp.bind buf ?_
  intro cred r random fieldBytes hfront hat hrandom
  refine hat.ends_readOctetString.bind ?_
  rintro ⟨initiator, r₁⟩ ⟨rest₁, h₁, hat⟩
  refine hat.ends_readOctetString.bind ?_
  rintro ⟨responder, r₂⟩ ⟨rest₂, h₂, hat⟩
  refine hat.ends_readEnum.bind ?_
  rintro ⟨service, r₃⟩ ⟨rest₃, h₃, hat⟩
  refine (ServiceType.ends_fromU8 _).bind fun _ _ => ?_
  refine hat.ends_readInteger.bind ?_
  rintro ⟨version, r₄⟩ ⟨rest₄, h₄, -⟩
  refine (ends_new _ _ _ _).mono ?_
  rintro p ⟨hservice, hversion, rfl⟩
  refine begins_operation_iff hfront
    (scanFields_cons h₁ (scanFields_cons h₂ (scanFields_cons h₃ (scanFields_cons h₄ rfl)))) rfl
    hrandom ?_
  refine cons_octets_iff (cons_octets_iff (cons_number_iff ?_ (cons_number_iff ?_ (nil_iff _))))
  · rw [hservice, inRange_iff]
    show (2 : Int) = service.toInt ↔ 2 ≤ service.toInt ∧ service.toInt < 3
    omega
  · rw [hversion]
    exact toNat_setWidth_iff rfl version

end CltuBindInvocation

theorem RafBindReturn.ends_decode : Ends (RafBindReturn.decode buf) fun p =>
    Begins p.lang buf ↔ RafBindReturn.strict buf = true := by
  refine ends_operation ends_atLeast RafOp.bindReturn buf ?_
  intro cred r random fieldBytes hfront hat hrandom
  refine hat.ends_readEnum.bind ?_
  rintro ⟨value, r₁⟩ ⟨rest₁, h₁, -⟩
  refine (BindResult.ends_fromU8 _).bind fun result hresult => ?_
  refine .ok (begins_operation_iff hfront (scanFields_cons h₁ rfl) rfl hrandom ?_)
  refine cons_number_iff ?_ (nil_iff _)
  rw [hresult]
  exact toNat_setWidth_iff rfl value

theorem RafStartInvocation.ends_decode : Ends (RafStartInvocation.decode buf) fun p =>
    Begins p.lang buf ↔ RafStartInvocation.strict buf = true := by
  refine ends_operation ends_atLeast RafOp.start buf ?_
  intro cred r random fieldBytes hfront hat hrandom
  refine (ends_readTime hat).bind ?_
  rintro ⟨startTime, r₁⟩ ⟨rest₁, h₁, hat⟩
  refine (ends_readTime hat).bind ?_
  rintro ⟨stopTime, r₂⟩ ⟨rest₂, h₂, hat⟩
  refine hat.ends_readEnum.bind ?_
  rintro ⟨value, r₃⟩ ⟨rest₃, h₃, -⟩
  refine (RequestedFrameQuality.ends_fromI64 _).bind ?_
  rintro quality rfl
  exact .ok (begins_operation_iff hfront
    (scanFields_cons h₁ (scanFields_cons h₂ (scanFields_cons h₃ rfl))) rfl hrandom
    (iff_of_true rfl (inRanges_nil _)))

theorem CltuStartInvocation.ends_decode : Ends (CltuStartInvocation.decode buf) fun p =>
    Begins p.lang buf ↔ CltuStartInvocation.strict buf = true := by
  refine ends_operation ends_atLeast CltuOp.start buf ?_
  intro cred r random fieldBytes hfront hat hrandom
  refine hat.ends_readInteger.bind ?_
  rintro ⟨invokeId, r₁⟩ ⟨rest₁, h₁, hat⟩
  refine hat.ends_readInteger.bind ?_
  rintro ⟨firstCltuId, r₂⟩ ⟨rest₂, h₂, -⟩
  refine .ok (begins_operation_iff hfront (scanFields_cons h₁ (scanFields_cons h₂ rfl)) rfl
    hrandom ?_)
  exact cons_number_iff (toNat_setWidth_iff rfl invokeId)
    (cons_number_iff (toNat_setWidth_iff rfl firstCltuId) (nil_iff _))

theorem CltuTransferDataInvocation.ends_decode :
    Ends (CltuTransferDataInvocation.decode buf) fun p =>
      Begins p.lang buf ↔ CltuTransferDataInvocation.strict buf = true := by
  refine ends_operation ends_atLeast CltuOp.transferData buf ?_
  intro cred r random fieldBytes hfront hat hrandom
  refine hat.ends_readInteger.bind ?_
  rintro ⟨cltuId, r₁⟩ ⟨rest₁, h₁, hat⟩
  refine hat.ends_readOctetString.bind ?_
  rintro ⟨data, r₂⟩ ⟨rest₂, h₂, -⟩
  show Ends (new (cltuId.setWidth 32) data cred) _
  unfold new
  split
  · refine .ok (begins_operation_iff hfront (scanFields_cons h₁ (scanFields_cons h₂ rfl)) rfl
      hrandom ?_)
    exact cons_number_iff (toNat_setWidth_iff rfl cltuId) (cons_octets_iff (nil_iff _))
  · exact .err _

theorem CltuTransferDataReturn.ends_decode : Ends (CltuTransferDataReturn.decode buf) fun p =>
    Begins p.lang buf ↔ CltuTransferDataReturn.strict buf = true := by
  refine ends_operation ends_atLeast CltuOp.transferDataReturn buf ?_
  intro cred r random fieldBytes hfront hat hrandom
  refine hat.ends_readInteger.bind ?_
  rintro ⟨cltuId, r₁⟩ ⟨rest₁, h₁, hat⟩
  refine hat.ends_readEnum.bind ?_
  rintro ⟨value, r₂⟩ ⟨rest₂, h₂, -⟩
  refine (CltuStatus.ends_fromI64 _).bind ?_
  rintro status rfl
  refine .ok (begins_operation_iff hfront (scanFields_cons h₁ (scanFields_cons h₂ rfl)) rfl
    hrandom ?_)
  exact cons_number_iff (toNat_setWidth_iff rfl cltuId) (iff_of_true rfl (inRanges_nil _))

theorem RafTransferDataInvocation.ends_decode :
    Ends (RafTransferDataInvocation.decode buf) fun p =>
      Begins p.lang buf ↔ RafTransferDataInvocation.strict buf = true := by
  refine (at_new buf).ends_readSequence.bind ?_
  rintro ⟨n, r⟩ ⟨tag, content, hheader, htag, hat⟩
  refine hat.ends_readOctetString.bind ?_
  rintro ⟨timeBytes, r₁⟩ ⟨rest₁, h₁, hat⟩
  refine (Time.ends_decode timeBytes).bind fun ert _ => ?_
  refine hat.ends_readInteger.bind ?_
  rintro ⟨continuity, r₂⟩ ⟨rest₂, h₂, hat⟩
  refine hat.ends_readOctetString.bind ?_
  rintro ⟨frameData, r₃⟩ ⟨rest₃, h₃, -⟩
  show Ends (new ert (continuity.setWidth 16) frameData) _
  unfold new
  split
  · refine .ok (begins_sequence_iff hheader htag
      (scanFields_cons h₁ (scanFields_cons h₂ (scanFields_cons h₃ rfl))) rfl ?_)
    exact cons_octets_iff (cons_number_iff (toInt_setWidth_iff continuity)
      (cons_octets_iff (nil_iff _)))
  · exact .err _

theorem RafTransferBuffer.decodeHeader_ne_panic :
    RafTransferBuffer.decodeHeader buf ≠ .error .panic := by
  have hends : Ends (decodeHeader buf) fun _ => True := by
    refine (at_new buf).ends_peekTag.bind ?_
    rintro tag ⟨octet, tail, hbytes, htag⟩
    show Ends (if tag.tag ≠ RafOp.transferBuffer then _ else _) _
    by_cases hwanted : tag.tag = RafOp.transferBuffer
    · rw [if_neg (fun hne => hne hwanted)]
      refine (at_new buf).ends_readTag.bind ?_
      rintro ⟨tag', r⟩ ⟨octet', rest, -, -, hat⟩
      refine hat.ends_readLength.bind ?_
      intro found hfound
      exact .ok trivial
    · rw [if_pos hwanted]
      exact .err _
  exact hends.no_panic

/-! ## Safety and strictness -/

/-- No call of the reader panics, that of a BOOLEAN apart. -/
structure ReaderSafe (r : BerReader) : Prop where
  remaining : r.remaining ≠ .error .panic
  peekTag : r.peekTag ≠ .error .panic
  readTag : r.readTag ≠ .error .panic
  readLength : r.readLength ≠ .error .panic
  readRaw : ∀ len, r.readRaw len ≠ .error .panic
  readInteger : r.readInteger ≠ .error .panic
  readOctetString : r.readOctetString ≠ .error .panic
  readEnum : r.readEnum ≠ .error .panic
  readNull : r.readNull ≠ .error .panic
  readSequence : r.readSequence ≠ .error .panic
  readContextTag : r.readContextTag ≠ .error .panic
  subReader : ∀ len, r.subReader len ≠ .error .panic

/-- The decoder does not panic, and what it decodes is spelled at the front of the input
exactly when the scan is strict. -/
def StrictWhen {α : Type} (decode : Bytes → Result α) (lang : α → Language UInt8)
    (strict : Bytes → Bool) (buf : Bytes) : Prop :=
  decode buf ≠ .error .panic ∧ ∀ p, decode buf = .ok p → (Begins (lang p) buf ↔ strict buf = true)

theorem readerSafe {r : BerReader} {bytes : Bytes} (h : r.At bytes) : ReaderSafe r where
  remaining := by
    rw [h.remaining]
    exact fun hpanic => by cases hpanic
  peekTag := h.ends_peekTag.no_panic
  readTag := h.ends_readTag.no_panic
  readLength := h.ends_readLength.no_panic
  readRaw len := (h.ends_readRaw len).no_panic
  readInteger := h.ends_readInteger.no_panic
  readOctetString := h.ends_readOctetString.no_panic
  readEnum := h.ends_readEnum.no_panic
  readNull := h.ends_readNull.no_panic
  readSequence := h.ends_readSequence.no_panic
  readContextTag := h.ends_readContextTag.no_panic
  subReader len := (h.ends_subReader len).no_panic

theorem strictWhen {α : Type} {decode : Bytes → Result α} {lang : α → Language UInt8}
    {strict : Bytes → Bool} {buf : Bytes}
    (h : Ends (decode buf) fun p => Begins (lang p) buf ↔ strict buf = true) :
    StrictWhen decode lang strict buf :=
  ⟨h.no_panic, fun _ hp => h.of_ok hp⟩

/-- Wherever a reader stands in the input, its calls do not panic, but for a BOOLEAN whose
value is missing at the end.  No PDU decoder panics, and what it decodes is what the input
spells exactly when the lengths of the wrappers agree with their elements and the numbers
have room in their fields (for a CLTU bind: the service type is the one of the CLTU
service). -/
theorem safe_and_strict_iff (buf : Bytes) :
    (∀ pos, pos ≤ buf.length → ReaderSafe ⟨buf, pos⟩ ∧
      (BerReader.readBool ⟨buf, pos⟩ ≠ .error .panic ↔ boolAtEnd (buf.drop pos) = false)) ∧
    RafTransferBuffer.decodeHeader buf ≠ .error .panic ∧
    StrictWhen RafBindInvocation.decode RafBindInvocation.lang RafBindInvocation.strict buf ∧
    StrictWhen RafBindReturn.decode RafBindReturn.lang RafBindReturn.strict buf ∧
    StrictWhen RafStartInvocation.decode RafStartInvocation.lang RafStartInvocation.strict buf ∧
    StrictWhen RafTransferDataInvocation.decode RafTransferDataInvocation.lang
      RafTransferDataInvocation.strict buf ∧
    StrictWhen CltuBindInvocation.decode CltuBindInvocation.lang CltuBindInvocation.strict buf ∧
    StrictWhen CltuStartInvocation.decode CltuStartInvocation.lang CltuStartInvocation.strict
      buf ∧
    StrictWhen CltuTransferDataInvocation.decode CltuTransferDataInvocation.lang
      CltuTransferDataInvocation.strict buf ∧
    StrictWhen CltuTransferDataReturn.decode CltuTransferDataReturn.lang
      CltuTransferDataReturn.strict buf := by
  refine ⟨?_, RafTransferBuffer.decodeHeader_ne_panic buf,
    strictWhen (RafBindInvocation.ends_decode buf), strictWhen (RafBindReturn.ends_decode buf),
    strictWhen (RafStartInvocation.ends_decode buf),
    strictWhen (RafTransferDataInvocation.ends_decode buf),
    strictWhen (CltuBindInvocation.ends_decode buf),
    strictWhen (CltuStartInvocation.ends_decode buf),
    strictWhen (CltuTransferDataInvocation.ends_decode buf),
    strictWhen (CltuTransferDataReturn.ends_decode buf)⟩
  intro pos hpos
  have hat : BerReader.At ⟨buf, pos⟩ (buf.drop pos) := ⟨hpos, rfl⟩
  refine ⟨readerSafe hat, ?_⟩
  constructor
  · intro hsafe
    refine Bool.eq_false_iff.2 fun hend => hsafe (hat.readBool_panics hend)
  · intro hend
    exact (hat.ends_readBool hend).no_panic

/-- A return for the CLTU 7, radiated. -/
theorem safe_and_strict_return :
    ∃ p, CltuTransferDataReturn.decode
        [0xA9, 0x0A, 0x30, 0x08, 0x05, 0x00, 0x02, 0x01, 0x07, 0x0A, 0x01, 0x00] = .ok p ∧
      Begins p.lang
        [0xA9, 0x0A, 0x30, 0x08, 0x05, 0x00, 0x02, 0x01, 0x07, 0x0A, 0x01, 0x00] := by
  obtain ⟨-, -, -, -, -, -, -, -, -, hreturn⟩ := safe_and_strict_iff
    [0xA9, 0x0A, 0x30, 0x08, 0x05, 0x00, 0x02, 0x01, 0x07, 0x0A, 0x01, 0x00]
  exact ⟨_, rfl, (hreturn.2 _ rfl).2 (by decide)⟩

/-- A BOOLEAN without its value panics, and a return for the CLTU 4294967303 is decoded as
one for the CLTU 7, with lengths that are off as well. -/
theorem short_bool_and_wide_id :
    BerReader.readBool (.new [0x01, 0x01]) = .error .panic ∧
    ∃ p, CltuTransferDataReturn.decode [0xA9, 0x00, 0x30, 0x7F, 0x05, 0x00, 0x02, 0x05, 0x01,
        0x00, 0x00, 0x00, 0x07, 0x0A, 0x01, 0x00] = .ok p ∧ p.cltuId = 7 ∧
      ¬ Begins p.lang [0xA9, 0x00, 0x30, 0x7F, 0x05, 0x00, 0x02, 0x05, 0x01, 0x00, 0x00, 0x00,
        0x07, 0x0A, 0x01, 0x00] := by
  refine ⟨rfl, _, rfl, rfl, fun hbegins => ?_⟩
  have hstrict := ((CltuTransferDataReturn.ends_decode _).of_ok rfl).1 hbegins
  exact absurd hstrict (by decide)

end Sle
end Leodos
