/-
Keys delivered over the air, `datalink/security/sdls/key.rs`.

A key block is a sequence of records, and `otar` loads each record as soon as it has read it.
So a record that cannot be loaded leaves the ones in front of it in the ring, and octets that
are no whole record end the loop without an error.
-/
import Leodos.Datalink.Sdls
import Mathlib.Data.List.Nodup

namespace Leodos
namespace Datalink
namespace Sdls

open Bits Memory Spp

def MAX_KEY_LEN : Nat := 32

def MAX_KEYS : Nat := 128

inductive KeyState where
  | preactive
  | active
  | deactivated
  | destroyed
  deriving DecidableEq, Repr

/-- The errors of key management.  The source has one enumeration for these and the errors of
frame security. -/
inductive KeyError where
  | sdls (e : Error)
  | unknownKeyId (keyId : BitVec 16)
  | duplicateKeyId
  | keyRingFull
  | invalidKeyLength
  | invalidKeyState
  deriving DecidableEq, Repr

structure ManagedKey where
  keyId : BitVec 16
  state : KeyState
  material : Bytes
  keyLen : UInt8
  length_material : material.length = MAX_KEY_LEN
  keyLen_le : keyLen.toNat ≤ MAX_KEY_LEN
  deriving DecidableEq

namespace ManagedKey

def preactive (keyId : BitVec 16) (material : Bytes)
    (h : 1 ≤ material.length ∧ material.length ≤ MAX_KEY_LEN) : ManagedKey where
  keyId := keyId
  state := .preactive
  material := write (List.replicate MAX_KEY_LEN 0) 0 material
  keyLen := .ofNat material.length
  length_material := by rw [write_length, List.length_replicate]
  keyLen_le := by
    rw [UInt8.toNat_ofNat']
    exact Nat.le_trans (Nat.mod_le _ _) h.2

def new (keyId : BitVec 16) (material : Bytes) : Except KeyError ManagedKey :=
  if h : 1 ≤ material.length ∧ material.length ≤ MAX_KEY_LEN then
    .ok (preactive keyId material h)
  else .error .invalidKeyLength

def activate (key : ManagedKey) : Except KeyError ManagedKey :=
  if key.state = .preactive then .ok { key with state := .active } else .error .invalidKeyState

def deactivate (key : ManagedKey) : Except KeyError ManagedKey :=
  if key.state = .active then .ok { key with state := .deactivated }
  else .error .invalidKeyState

def destroy (key : ManagedKey) : ManagedKey where
  keyId := key.keyId
  state := .destroyed
  material := List.replicate MAX_KEY_LEN 0
  keyLen := 0
  length_material := List.length_replicate
  keyLen_le := Nat.zero_le _

/-- The octets of the key, `material()`. -/
def octets (key : ManagedKey) : Bytes := key.material.take key.keyLen.toNat

theorem keyId_of_activate {key key' : ManagedKey} (h : key.activate = .ok key') :
    key'.keyId = key.keyId := by
  rw [activate] at h
  by_cases hstate : key.state = .preactive
  · rw [if_pos hstate] at h
    cases h
    rfl
  · rw [if_neg hstate] at h
    cases h

theorem keyId_of_deactivate {key key' : ManagedKey} (h : key.deactivate = .ok key') :
    key'.keyId = key.keyId := by
  rw [deactivate] at h
  by_cases hstate : key.state = .active
  · rw [if_pos hstate] at h
    cases h
    rfl
  · rw [if_neg hstate] at h
    cases h

theorem octets_preactive {keyId : BitVec 16} {material : Bytes}
    (h : 1 ≤ material.length ∧ material.length ≤ MAX_KEY_LEN) :
    (preactive keyId material h).octets = material := by
  have hlen : (UInt8.ofNat material.length).toNat = material.length := by
    have : MAX_KEY_LEN = 32 := rfl
    rw [UInt8.toNat_ofNat']
    exact Nat.mod_eq_of_lt (by omega)
  show (write _ 0 material).take (UInt8.ofNat material.length).toNat = material
  rw [write_zero (by simpa using h.2), hlen, List.take_left' rfl]

end ManagedKey

structure KeyRing where
  keys : List ManagedKey
  fits : keys.length ≤ MAX_KEYS
  distinct : (keys.map ManagedKey.keyId).Nodup
  deriving DecidableEq

namespace KeyRing

def new : KeyRing := ⟨[], Nat.zero_le _, List.nodup_nil⟩

def find (ring : KeyRing) (keyId : BitVec 16) : Option ManagedKey :=
  ring.keys.find? fun key => key.keyId = keyId

theorem find_eq_none_iff {ring : KeyRing} {keyId : BitVec 16} :
    ring.find keyId = none ↔ keyId ∉ ring.keys.map ManagedKey.keyId := by
  simp [find]

/-- A failed load leaves the ring alone. -/
def load (ring : KeyRing) (keyId : BitVec 16) (material : Bytes) : Except KeyError KeyRing :=
  match hfind : ring.find keyId with
  | some _ => .error .duplicateKeyId
  | none =>
    if hlen : 1 ≤ material.length ∧ material.length ≤ MAX_KEY_LEN then
      if hroom : ring.keys.length < MAX_KEYS then
        .ok {
          keys := ring.keys ++ [.preactive keyId material hlen]
          fits := by
            rw [List.length_append]
            exact hroom
          distinct := by
            rw [List.map_append, List.map_singleton]
            exact List.Nodup.append ring.distinct (List.nodup_singleton _)
              (List.disjoint_singleton.2 (find_eq_none_iff.1 hfind)) }
      else .error .keyRingFull
    else .error .invalidKeyLength

/-- Change the key with this number, if there is one and the change succeeds. -/
def update (ring : KeyRing) (keyId : BitVec 16) (f : ManagedKey → Except KeyError ManagedKey)
    (hf : ∀ key key', f key = .ok key' → key'.keyId = key.keyId) : Except KeyError KeyRing :=
  match hfind : ring.find keyId with
  | none => .error (.unknownKeyId keyId)
  | some key =>
    match hchange : f key with
    | .error e => .error e
    | .ok key' =>
      .ok {
        keys := ring.keys.map fun k => if k.keyId = keyId then key' else k
        fits := by
          rw [List.length_map]
          exact ring.fits
        distinct := by
          have hid : key'.keyId = keyId := by
            rw [hf key key' hchange]
            simpa using List.find?_some hfind
          have hmap : (ManagedKey.keyId ∘ fun k => if k.keyId = keyId then key' else k) =
              ManagedKey.keyId := by
            funext k
            by_cases hk : k.keyId = keyId <;> simp [hk, hid]
          rw [List.map_map, hmap]
          exact ring.distinct }

def activate (ring : KeyRing) (keyId : BitVec 16) : Except KeyError KeyRing :=
  ring.update keyId ManagedKey.activate fun _ _ => ManagedKey.keyId_of_activate

def deactivate (ring : KeyRing) (keyId : BitVec 16) : Except KeyError KeyRing :=
  ring.update keyId ManagedKey.deactivate fun _ _ => ManagedKey.keyId_of_deactivate

def destroy (ring : KeyRing) (keyId : BitVec 16) : Except KeyError KeyRing :=
  ring.update keyId (fun key => .ok key.destroy) fun _ _ h => by
    cases h
    rfl

/-- The loop of `otar` over the decrypted block, from `pos` on. -/
def otarLoop (block : Bytes) (pos count : Nat) (ring : KeyRing) : Except KeyError Nat × KeyRing :=
  if pos + 4 ≤ block.length then
    let keyId := ofBytes (block.getD pos 0) (block.getD (pos + 1) 0)
    let keyLen := (ofBytes (block.getD (pos + 2) 0) (block.getD (pos + 3) 0)).toNat
    if block.length < pos + 4 + keyLen then (.ok count, ring)
    else
      match ring.load keyId (slice block (pos + 4) keyLen) with
      | .error e => (.error e, ring)
      | .ok ring => otarLoop block (pos + 4 + keyLen) (count + 1) ring
  else (.ok count, ring)
termination_by block.length - pos

/-- The block is decrypted in place, so only the ring and the result are looked at. -/
def otar (ring : KeyRing) (masterKeyId : BitVec 16) (iv encryptedBlock tag : Bytes)
    (crypto : CryptoProvider) (sa : SecurityAssociation) : Except KeyError Nat × KeyRing :=
  match ring.find masterKeyId with
  | none => (.error (.unknownKeyId masterKeyId), ring)
  | some master =>
    if master.state ≠ .active then (.error .invalidKeyState, ring)
    else
      match crypto.decrypt sa iv [] encryptedBlock tag with
      | (.error e, _) => (.error (.sdls e), ring)
      | (.ok _, block) => otarLoop block 0 0 ring

end KeyRing

/-! ## Records of a block -/

structure KeyRecord where
  keyId : BitVec 16
  material : Bytes
  deriving DecidableEq

namespace KeyRecord

def encode (r : KeyRecord) : Bytes :=
  [highByte r.keyId, lowByte r.keyId, highByte (BitVec.ofNat 16 r.material.length),
    lowByte (BitVec.ofNat 16 r.material.length)] ++ r.material

def Sized (r : KeyRecord) : Prop := 1 ≤ r.material.length ∧ r.material.length ≤ MAX_KEY_LEN

structure Makes (r : KeyRecord) (key : ManagedKey) : Prop where
  keyId : key.keyId = r.keyId
  state : key.state = .preactive
  octets : key.octets = r.material

theorem length_encode (r : KeyRecord) : r.encode.length = 4 + r.material.length := by
  rw [encode, List.length_append]
  rfl

end KeyRecord

/-- The length that the record at the front of a block announces. -/
def announced (block : Bytes) : Nat := (ofBytes (block.getD 2 0) (block.getD 3 0)).toNat

/-- The whole records at the front of a block, and what is left of it. -/
def splitRecords (block : Bytes) : List KeyRecord × Bytes :=
  if 4 + announced block ≤ block.length then
    let (records, rest) := splitRecords (block.drop (4 + announced block))
    (⟨ofBytes (block.getD 0 0) (block.getD 1 0), slice block 4 (announced block)⟩ :: records, rest)
  else ([], block)
termination_by block.length
decreasing_by
  rw [List.length_drop]
  omega

theorem announced_encode {r : KeyRecord} (hlen : r.material.length < 2 ^ 16) (block : Bytes) :
    announced (r.encode ++ block) = r.material.length := by
  show (ofBytes (highByte _) (lowByte _)).toNat = _
  rw [ofBytes_bytes, BitVec.toNat_ofNat, Nat.mod_eq_of_lt hlen]

theorem splitRecords_encode {r : KeyRecord} (hlen : r.material.length < 2 ^ 16) (block : Bytes) :
    splitRecords (r.encode ++ block) = (r :: (splitRecords block).1, (splitRecords block).2) := by
  have hann := announced_encode hlen block
  have hslice : slice (r.encode ++ block) 4 r.material.length = r.material := by
    show (r.material ++ block).take r.material.length = _
    rw [List.take_left' rfl]
  have hdrop : (r.encode ++ block).drop (4 + r.material.length) = block :=
    List.drop_left' r.length_encode
  have hid : ofBytes ((r.encode ++ block).getD 0 0) ((r.encode ++ block).getD 1 0) = r.keyId :=
    ofBytes_bytes r.keyId
  rw [splitRecords, hann, hslice, hdrop, hid, if_pos]
  rw [List.length_append, r.length_encode]
  omega

theorem splitRecords_flatMap (records : List KeyRecord)
    (hlen : ∀ r ∈ records, r.material.length < 2 ^ 16) :
    splitRecords (records.flatMap KeyRecord.encode) = (records, []) := by
  induction records with
  | nil =>
    rw [splitRecords, if_neg]
    · rfl
    · rw [List.flatMap_nil, List.length_nil]
      omega
  | cons r records ih =>
    rw [List.flatMap_cons, splitRecords_encode (hlen r List.mem_cons_self),
      ih fun r' h => hlen r' (List.mem_cons_of_mem r h)]

theorem encode_front {block : Bytes} (h : 4 + announced block ≤ block.length) :
    KeyRecord.encode ⟨ofBytes (block.getD 0 0) (block.getD 1 0), slice block 4 (announced block)⟩ ++
      block.drop (4 + announced block) = block := by
  have hlen : BitVec.ofNat 16 (slice block 4 (announced block)).length =
      ofBytes (block.getD 2 0) (block.getD 3 0) := by
    rw [slice_length h, announced, BitVec.ofNat_toNat, BitVec.setWidth_eq]
  rw [KeyRecord.encode]
  dsimp only
  rw [hlen, highByte_ofBytes, lowByte_ofBytes, highByte_ofBytes, lowByte_ofBytes, List.append_assoc,
    ← List.drop_drop, slice, List.take_append_drop]
  rcases block with _ | ⟨b0, _ | ⟨b1, _ | ⟨b2, _ | ⟨b3, block⟩⟩⟩⟩
  case cons.cons.cons.cons => rfl
  all_goals
    simp only [List.length_nil, List.length_cons] at h
    omega

theorem flatMap_splitRecords (block : Bytes) :
    (splitRecords block).1.flatMap KeyRecord.encode ++ (splitRecords block).2 = block := by
  induction block using splitRecords.induct with
  | case1 block h records rest hsplit ih =>
    rw [hsplit] at ih
    rw [splitRecords, if_pos h, hsplit]
    show (KeyRecord.encode _ ++ records.flatMap KeyRecord.encode) ++ rest = block
    rw [List.append_assoc, ih, encode_front h]
  | case2 block h =>
    rw [splitRecords, if_neg h]
    rfl

/-! ## Loading the records -/

/-- The records can be loaded behind these keys, one after the other. -/
structure Loadable (keys : List ManagedKey) (records : List KeyRecord) : Prop where
  sized : ∀ r ∈ records, r.Sized
  room : keys.length + records.length ≤ MAX_KEYS
  fresh : (keys.map ManagedKey.keyId ++ records.map KeyRecord.keyId).Nodup

theorem Loadable.head {keys : List ManagedKey} {r : KeyRecord} {records : List KeyRecord}
    (h : Loadable keys (r :: records)) : Loadable keys [r] where
  sized := List.forall_mem_singleton.2 (h.sized r List.mem_cons_self)
  room := Nat.le_trans (Nat.add_le_add_left (Nat.succ_le_succ (Nat.zero_le _)) _) h.room
  fresh := h.fresh.sublist (List.Sublist.append_left (by simp) _)

theorem KeyRing.loadable_nil (ring : KeyRing) : Loadable ring.keys [] where
  sized := fun _ hr => absurd hr List.not_mem_nil
  room := ring.fits
  fresh := (List.append_nil (ring.keys.map ManagedKey.keyId)).symm ▸ ring.distinct

/-- The keys that the records make come behind the keys of the ring. -/
def Gains (ring : KeyRing) (records : List KeyRecord) (ring' : KeyRing) : Prop :=
  ∃ gained, ring'.keys = ring.keys ++ gained ∧ List.Forall₂ KeyRecord.Makes records gained

theorem Gains.refl (ring : KeyRing) : Gains ring [] ring :=
  ⟨[], (List.append_nil _).symm, .nil⟩

theorem Gains.cons {ring ring' ring'' : KeyRing} {r : KeyRecord} {records : List KeyRecord}
    (h : Gains ring [r] ring') (h' : Gains ring' records ring'') :
    Gains ring (r :: records) ring'' := by
  obtain ⟨gained, hkeys, hmakes⟩ := h
  obtain ⟨gained', hkeys', hmakes'⟩ := h'
  refine ⟨gained ++ gained', ?_, List.rel_append hmakes hmakes'⟩
  rw [hkeys', hkeys, List.append_assoc]

theorem Gains.keyIds {ring ring' : KeyRing} {records : List KeyRecord}
    (h : Gains ring records ring') : ring'.keys.map ManagedKey.keyId =
      ring.keys.map ManagedKey.keyId ++ records.map KeyRecord.keyId := by
  obtain ⟨gained, hkeys, hmakes⟩ := h
  have hids : gained.map ManagedKey.keyId = records.map KeyRecord.keyId := by
    clear hkeys
    induction hmakes with
    | nil => rfl
    | cons hmake _ ih => rw [List.map_cons, List.map_cons, hmake.keyId, ih]
  rw [hkeys, List.map_append, hids]

theorem Gains.length {ring ring' : KeyRing} {records : List KeyRecord}
    (h : Gains ring records ring') : ring'.keys.length = ring.keys.length + records.length := by
  obtain ⟨gained, hkeys, hmakes⟩ := h
  rw [hkeys, List.length_append, hmakes.length_eq]

/-- Behind keys gained for `r`, the other records can be loaded just when all can be. -/
theorem Gains.loadable_iff {ring ring' : KeyRing} {r : KeyRecord} {records : List KeyRecord}
    (h : Gains ring [r] ring') (hsized : r.Sized) :
    Loadable ring'.keys records ↔ Loadable ring.keys (r :: records) := by
  have hids : ring'.keys.map ManagedKey.keyId ++ records.map KeyRecord.keyId =
      ring.keys.map ManagedKey.keyId ++ (r :: records).map KeyRecord.keyId := by
    rw [h.keyIds, List.append_assoc]
    rfl
  have hroom : ring'.keys.length + records.length =
      ring.keys.length + (r :: records).length := by
    have hlen : ring'.keys.length = ring.keys.length + 1 := h.length
    rw [hlen, List.length_cons]
    omega
  constructor
  · intro h'
    exact ⟨List.forall_mem_cons.2 ⟨hsized, h'.sized⟩, hroom ▸ h'.room, hids ▸ h'.fresh⟩
  · intro h'
    exact ⟨(List.forall_mem_cons.1 h'.sized).2, hroom ▸ h'.room, hids ▸ h'.fresh⟩

namespace KeyRing

theorem load_of_loadable {ring : KeyRing} {r : KeyRecord} (h : Loadable ring.keys [r]) :
    ∃ ring', ring.load r.keyId r.material = .ok ring' ∧ Gains ring [r] ring' := by
  have hsized : 1 ≤ r.material.length ∧ r.material.length ≤ MAX_KEY_LEN :=
    h.sized r List.mem_cons_self
  have hroom : ring.keys.length < MAX_KEYS := h.room
  have hfind : ring.find r.keyId = none := by
    rw [find_eq_none_iff]
    exact fun hmem => (List.nodup_append.1 h.fresh).2.2 _ hmem _ List.mem_cons_self rfl
  unfold load
  split
  · next key hkey =>
    rw [hfind] at hkey
    cases hkey
  · rw [dif_pos hsized, dif_pos hroom]
    exact ⟨_, rfl, _, rfl, .cons ⟨rfl, rfl, ManagedKey.octets_preactive hsized⟩ .nil⟩

theorem loadable_of_load {ring ring' : KeyRing} {r : KeyRecord}
    (h : ring.load r.keyId r.material = .ok ring') : Loadable ring.keys [r] := by
  unfold load at h
  split at h
  · cases h
  · next hfind =>
    by_cases hsized : 1 ≤ r.material.length ∧ r.material.length ≤ MAX_KEY_LEN
    · rw [dif_pos hsized] at h
      by_cases hroom : ring.keys.length < MAX_KEYS
      · refine ⟨List.forall_mem_singleton.2 hsized, hroom, ?_⟩
        exact List.Nodup.append ring.distinct (List.nodup_singleton _)
          (List.disjoint_singleton.2 (find_eq_none_iff.1 hfind))
      · rw [dif_neg hroom] at h
        cases h
    · rw [dif_neg hsized] at h
      cases h

/-- The records one after the other, up to the first that cannot be loaded. -/
def loadAll : List KeyRecord → Nat → KeyRing → Except KeyError Nat × KeyRing
  | [], count, ring => (.ok count, ring)
  | r :: records, count, ring =>
    match ring.load r.keyId r.material with
    | .error e => (.error e, ring)
    | .ok ring => loadAll records (count + 1) ring

theorem announced_drop (block : Bytes) (pos : Nat) : announced (block.drop pos) =
    (ofBytes (block.getD (pos + 2) 0) (block.getD (pos + 3) 0)).toNat := by
  simp only [announced, List.getD_eq_getElem?_getD, List.getElem?_drop]

theorem splitRecords_drop {block : Bytes} {pos keyLen : Nat}
    (hlen : announced (block.drop pos) = keyLen) (hroom : pos + 4 + keyLen ≤ block.length) :
    (splitRecords (block.drop pos)).1 =
      ⟨ofBytes (block.getD pos 0) (block.getD (pos + 1) 0), slice block (pos + 4) keyLen⟩ ::
        (splitRecords (block.drop (pos + 4 + keyLen))).1 := by
  have hfits : 4 + announced (block.drop pos) ≤ (block.drop pos).length := by
    rw [hlen, List.length_drop]
    omega
  rw [splitRecords, if_pos hfits, hlen, slice_drop, List.drop_drop, ← Nat.add_assoc]
  simp only [List.getD_eq_getElem?_getD, List.getElem?_drop, Nat.add_zero]

theorem otarLoop_eq (block : Bytes) (pos count : Nat) (ring : KeyRing) :
    otarLoop block pos count ring = loadAll (splitRecords (block.drop pos)).1 count ring := by
  induction pos, count, ring using otarLoop.induct block with
  | case1 pos count ring hroom keyLen hshort =>
    have hlen : announced (block.drop pos) = keyLen := announced_drop block pos
    rw [otarLoop, if_pos hroom]
    dsimp only
    rw [if_pos hshort, splitRecords, if_neg]
    · rfl
    · rw [hlen, List.length_drop]
      omega
  | case2 pos count ring hroom keyId keyLen hlong e hload =>
    have hlen : announced (block.drop pos) = keyLen := announced_drop block pos
    rw [otarLoop, if_pos hroom, splitRecords_drop hlen (Nat.le_of_not_lt hlong), loadAll]
    dsimp only
    rw [if_neg hlong, hload]
  | case3 pos count ring hroom keyId keyLen hlong ring' hload ih =>
    have hlen : announced (block.drop pos) = keyLen := announced_drop block pos
    rw [otarLoop, if_pos hroom, splitRecords_drop hlen (Nat.le_of_not_lt hlong), loadAll]
    dsimp only
    rw [if_neg hlong, hload]
    exact ih
  | case4 pos count ring hroom =>
    rw [otarLoop, if_neg hroom, splitRecords, if_neg]
    · rfl
    · rw [List.length_drop]
      omega

theorem loadAll_of_loadable {records : List KeyRecord} {ring : KeyRing}
    (h : Loadable ring.keys records) (count : Nat) :
    ∃ ring', loadAll records count ring = (.ok (count + records.length), ring') ∧
      Gains ring records ring' := by
  induction records generalizing ring count with
  | nil => exact ⟨ring, rfl, .refl ring⟩
  | cons r records ih =>
    obtain ⟨ring₁, hload, hgains⟩ := load_of_loadable h.head
    obtain ⟨ring', hall, hgains'⟩ :=
      ih ((hgains.loadable_iff (h.sized r List.mem_cons_self)).2 h) (count + 1)
    refine ⟨ring', ?_, hgains.cons hgains'⟩
    rw [loadAll, hload]
    dsimp only
    rw [hall, List.length_cons, Nat.add_assoc, Nat.add_comm 1]

theorem loadAll_of_not_loadable {records : List KeyRecord} {ring : KeyRing}
    (h : ¬ Loadable ring.keys records) (count : Nat) :
    ∃ e ring' loaded r rest, loadAll records count ring = (.error e, ring') ∧
      records = loaded ++ r :: rest ∧ Loadable ring.keys loaded ∧ Gains ring loaded ring' ∧
      ¬ Loadable ring'.keys [r] := by
  induction records generalizing ring count with
  | nil => exact absurd ring.loadable_nil h
  | cons r records ih =>
    rw [loadAll]
    cases hload : ring.load r.keyId r.material with
    | error e =>
      refine ⟨e, ring, [], r, records, rfl, rfl, ring.loadable_nil, .refl ring, fun hok => ?_⟩
      obtain ⟨ring', hload', -⟩ := load_of_loadable hok
      rw [hload] at hload'
      cases hload'
    | ok ring₁ =>
      have hfirst := loadable_of_load hload
      have hsized : r.Sized := hfirst.sized r List.mem_cons_self
      obtain ⟨ring₁', hload', hgains⟩ := load_of_loadable hfirst
      rw [hload] at hload'
      cases hload'
      have hrest : ¬ Loadable ring₁.keys records := fun hok =>
        h ((hgains.loadable_iff hsized).1 hok)
      obtain ⟨e, ring', loaded, r', rest, hall, hsplit, hloaded, hgains', hbad⟩ :=
        ih hrest (count + 1)
      exact ⟨e, ring', r :: loaded, r', rest, hall, by rw [hsplit]; rfl,
        (hgains.loadable_iff hsized).1 hloaded, hgains.cons hgains', hbad⟩

/-- A failed delivery leaves the keys alone.  One that succeeds was nothing but so many whole
records, and the keys they make have come behind the others. -/
def AllOrNothing (ring : KeyRing) (block : Bytes) : Except KeyError Nat × KeyRing → Prop
  | (.error _, ring') => ring'.keys = ring.keys
  | (.ok n, ring') =>
    ∃ records, records.length = n ∧ (∀ r ∈ records, r.Sized) ∧
      block = records.flatMap KeyRecord.encode ∧ Gains ring records ring' ∧
      (ring'.keys.map ManagedKey.keyId).Nodup

/-- The master key is active and the block opens under it. -/
def Opens (ring : KeyRing) (masterKeyId : BitVec 16) (iv encryptedBlock tag : Bytes)
    (crypto : CryptoProvider) (sa : SecurityAssociation) : Prop :=
  (∃ master, ring.find masterKeyId = some master ∧ master.state = .active) ∧
    ∃ padding, (crypto.decrypt sa iv [] encryptedBlock tag).1 = .ok padding

/-- Nothing is left behind the whole records of a block that can all be loaded, or the first
of them cannot be loaded. -/
def Wholesale (ring : KeyRing) (block : Bytes) : Prop :=
  (splitRecords block).2 = [] ∧ Loadable ring.keys (splitRecords block).1 ∨
    ∃ r rest, (splitRecords block).1 = r :: rest ∧ ¬ Loadable ring.keys [r]

theorem otar_of_not_opens {ring : KeyRing} {masterKeyId : BitVec 16}
    {iv encryptedBlock tag : Bytes} {crypto : CryptoProvider} {sa : SecurityAssociation}
    (h : ¬ ring.Opens masterKeyId iv encryptedBlock tag crypto sa) :
    ∃ e, ring.otar masterKeyId iv encryptedBlock tag crypto sa = (.error e, ring) := by
  unfold otar
  cases hfind : ring.find masterKeyId with
  | none => exact ⟨_, rfl⟩
  | some master =>
    dsimp only
    by_cases hstate : master.state = .active
    · rw [if_neg (not_not_intro hstate)]
      cases hdecrypt : crypto.decrypt sa iv [] encryptedBlock tag with
      | mk result block =>
        cases result with
        | error e => exact ⟨_, rfl⟩
        | ok padding =>
          exact absurd ⟨⟨master, hfind, hstate⟩, padding, congrArg Prod.fst hdecrypt⟩ h
    · exact ⟨_, if_pos hstate⟩

theorem otar_of_opens {ring : KeyRing} {masterKeyId : BitVec 16} {iv encryptedBlock tag : Bytes}
    {crypto : CryptoProvider} {sa : SecurityAssociation}
    (h : ring.Opens masterKeyId iv encryptedBlock tag crypto sa) :
    ring.otar masterKeyId iv encryptedBlock tag crypto sa =
      loadAll (splitRecords (crypto.decrypt sa iv [] encryptedBlock tag).2).1 0 ring := by
  obtain ⟨⟨master, hfind, hstate⟩, padding, hpadding⟩ := h
  unfold otar
  rw [hfind]
  dsimp only
  rw [if_neg (not_not_intro hstate)]
  cases hdecrypt : crypto.decrypt sa iv [] encryptedBlock tag with
  | mk result block =>
    rw [hdecrypt] at hpadding
    cases hpadding
    exact otarLoop_eq block 0 0 ring

theorem allOrNothing_loadAll_iff {ring : KeyRing} {block : Bytes} :
    AllOrNothing ring block (loadAll (splitRecords block).1 0 ring) ↔ ring.Wholesale block := by
  by_cases hload : Loadable ring.keys (splitRecords block).1
  · obtain ⟨ring', hall, hgains⟩ := loadAll_of_loadable hload 0
    rw [hall]
    constructor
    · intro ⟨records, _, hsized, hblock, _⟩
      have hlen : ∀ r ∈ records, r.material.length < 2 ^ 16 := fun r hr =>
        Nat.lt_of_le_of_lt (hsized r hr).2 (by decide)
      exact Or.inl ⟨by rw [hblock, splitRecords_flatMap records hlen], hload⟩
    · intro h
      have hrest : (splitRecords block).2 = [] := by
        rcases h with ⟨hrest, -⟩ | ⟨r, rest, hsplit, hbad⟩
        · exact hrest
        · rw [hsplit] at hload
          exact absurd hload.head hbad
      have hblock := flatMap_splitRecords block
      rw [hrest, List.append_nil] at hblock
      exact ⟨_, (Nat.zero_add _).symm, hload.sized, hblock.symm, hgains, ring'.distinct⟩
  · obtain ⟨e, ring', loaded, r, rest, hall, hsplit, hloaded, hgains, hbad⟩ :=
      loadAll_of_not_loadable hload 0
    rw [hall]
    constructor
    · intro h
      have hsame : ring'.keys = ring.keys := h
      have hlen := hgains.length
      rw [hsame] at hlen hbad
      have hnone : loaded = [] := List.eq_nil_of_length_eq_zero (by omega)
      rw [hnone] at hsplit
      exact Or.inr ⟨r, rest, hsplit, hbad⟩
    · intro h
      rcases h with ⟨-, hok⟩ | ⟨r', rest', hsplit', hbad'⟩
      · exact absurd hok hload
      · cases loaded with
        | nil =>
          obtain ⟨gained, hkeys, hmakes⟩ := hgains
          cases hmakes
          exact hkeys.trans (List.append_nil _)
        | cons r₁ loaded =>
          rw [hsplit, List.cons_append] at hsplit'
          cases hsplit'
          exact absurd hloaded.head hbad'

/-- A delivery that gets as far as the loop is all or nothing just when the block is taken whole
or refused at its first record. -/
theorem otar_all_or_nothing_iff (ring : KeyRing) (masterKeyId : BitVec 16)
    (iv encryptedBlock tag : Bytes) (crypto : CryptoProvider) (sa : SecurityAssociation) :
    AllOrNothing ring (crypto.decrypt sa iv [] encryptedBlock tag).2
        (ring.otar masterKeyId iv encryptedBlock tag crypto sa) ↔
      (ring.Opens masterKeyId iv encryptedBlock tag crypto sa →
        ring.Wholesale (crypto.decrypt sa iv [] encryptedBlock tag).2) := by
  by_cases hopens : ring.Opens masterKeyId iv encryptedBlock tag crypto sa
  · rw [otar_of_opens hopens, allOrNothing_loadAll_iff]
    exact ⟨fun h _ => h, fun h => h hopens⟩
  · obtain ⟨e, hotar⟩ := otar_of_not_opens hopens
    rw [hotar]
    exact iff_of_true rfl fun h => absurd h hopens

def withMaster : KeyRing where
  keys := [{ ManagedKey.preactive 1 (List.replicate 32 0x42) ⟨by decide, by decide⟩ with
    state := .active }]
  fits := by decide
  distinct := by decide

def clearAssociation : SecurityAssociation :=
  ⟨1, .encryption, 0, 0, 0, 0, 0, 0, [], Nat.zero_le _⟩

theorem opens_withMaster (block : Bytes) :
    withMaster.Opens 1 [] block [] ClearModeCrypto clearAssociation :=
  ⟨⟨_, rfl, rfl⟩, 0, rfl⟩

/-- Key 7 stays in the ring although the second record is refused, and a record that is cut
short is dropped without an error. -/
theorem otar_keeps_first_of_two :
    ¬ AllOrNothing withMaster [0, 7, 0, 1, 0xaa, 0, 7, 0, 1, 0xbb]
        (withMaster.otar 1 [] [0, 7, 0, 1, 0xaa, 0, 7, 0, 1, 0xbb] [] ClearModeCrypto
          clearAssociation) ∧
      ¬ AllOrNothing withMaster [0, 7, 0, 2, 0xaa]
        (withMaster.otar 1 [] [0, 7, 0, 2, 0xaa] [] ClearModeCrypto clearAssociation) := by
  constructor
  · have hsplit : splitRecords [0, 7, 0, 1, 0xaa, 0, 7, 0, 1, 0xbb] =
        ([⟨7, [0xaa]⟩, ⟨7, [0xbb]⟩], []) :=
      splitRecords_flatMap [⟨7, [0xaa]⟩, ⟨7, [0xbb]⟩] (by simp)
    have hfirst : Loadable withMaster.keys [⟨7, [0xaa]⟩] :=
      ⟨List.forall_mem_singleton.2 ⟨by decide, by decide⟩, by decide, by decide⟩
    rw [otar_of_opens (opens_withMaster _)]
    intro h
    rcases allOrNothing_loadAll_iff.1 h with ⟨-, hload⟩ | ⟨r, rest, hr, hbad⟩
    · rw [hsplit] at hload
      exact absurd hload.fresh (by decide)
    · rw [hsplit] at hr
      cases hr
      exact hbad hfirst
  · have hsplit : splitRecords [0, 7, 0, 2, 0xaa] = ([], [0, 7, 0, 2, 0xaa]) := by
      rw [splitRecords, if_neg (by decide)]
    rw [otar_of_opens (opens_withMaster _)]
    intro h
    rcases allOrNothing_loadAll_iff.1 h with ⟨hrest, -⟩ | ⟨r, rest, hr, -⟩
    · rw [hsplit] at hrest
      cases hrest
    · rw [hsplit] at hr
      cases hr

end KeyRing

/-! ## The life of a key -/

def KeyState.rank : KeyState → Nat
  | .preactive => 0
  | .active => 1
  | .deactivated => 2
  | .destroyed => 3

namespace ManagedKey

/-- Nothing is left of a destroyed key but its number. -/
def Wiped (key : ManagedKey) : Prop := key.state = .destroyed → key = key.destroy

/-- What may become of a key: it is destroyed, or its state alone goes forward. -/
def Advances (key key' : ManagedKey) : Prop :=
  key' = key.destroy ∨ key.state.rank ≤ key'.state.rank ∧ key'.state ≠ .destroyed ∧
    key' = { key with state := key'.state }

theorem Wiped.advances {key : ManagedKey} (h : key.Wiped) : key.Advances key := by
  by_cases hstate : key.state = .destroyed
  · exact Or.inl (h hstate)
  · exact Or.inr ⟨Nat.le_refl _, hstate, rfl⟩

theorem Advances.wiped {key key' : ManagedKey} (h : key.Advances key') : key'.Wiped := by
  intro hstate
  rcases h with rfl | ⟨-, hother, -⟩
  · rfl
  · exact absurd hstate hother

theorem Advances.trans {key key' key'' : ManagedKey} (h : key.Advances key')
    (h' : key'.Advances key'') : key.Advances key'' := by
  rcases h' with rfl | ⟨hrank', hother', hsame'⟩
  · left
    rcases h with rfl | ⟨-, -, hsame⟩
    · rfl
    · rw [hsame]
      rfl
  · rcases h with rfl | ⟨hrank, -, hsame⟩
    · -- no state comes after `destroyed`
      have hlast : KeyState.destroyed.rank ≤ key''.state.rank := hrank'
      cases hstate : key''.state <;> rw [hstate] at hlast hother'
      case destroyed => exact absurd rfl hother'
      all_goals exact absurd hlast (by decide)
    · right
      refine ⟨Nat.le_trans hrank hrank', hother', ?_⟩
      rw [hsame', hsame]

theorem advances_of_step {key key' : ManagedKey} {before after : KeyState}
    (hrank : before.rank ≤ after.rank) (hother : after ≠ .destroyed)
    (h : (if key.state = before then .ok { key with state := after }
      else .error .invalidKeyState : Except KeyError ManagedKey) = .ok key') :
    key.Advances key' := by
  split at h
  · next hstate =>
    cases h
    exact Or.inr ⟨hstate ▸ hrank, hother, rfl⟩
  · cases h

end ManagedKey

/-- The calls that change a ring. -/
inductive KeyCall where
  | load (keyId : BitVec 16) (material : Bytes)
  | activate (keyId : BitVec 16)
  | deactivate (keyId : BitVec 16)
  | destroy (keyId : BitVec 16)
  | otar (masterKeyId : BitVec 16) (iv encryptedBlock tag : Bytes) (crypto : CryptoProvider)
      (sa : SecurityAssociation)

/-- The ring after a call.  One that fails leaves it alone, other than `otar`. -/
def KeyCall.apply (ring : KeyRing) : KeyCall → KeyRing
  | .load keyId material => (ring.load keyId material).toOption.getD ring
  | .activate keyId => (ring.activate keyId).toOption.getD ring
  | .deactivate keyId => (ring.deactivate keyId).toOption.getD ring
  | .destroy keyId => (ring.destroy keyId).toOption.getD ring
  | .otar masterKeyId iv encryptedBlock tag crypto sa =>
    (ring.otar masterKeyId iv encryptedBlock tag crypto sa).2

namespace KeyRing

def Wiped (ring : KeyRing) : Prop := ∀ key ∈ ring.keys, key.Wiped

/-- No key of the ring is lost, and each goes forward. -/
def Advances (ring ring' : KeyRing) : Prop :=
  ∀ keyId key, ring.find keyId = some key →
    ∃ key', ring'.find keyId = some key' ∧ key.Advances key'

theorem Wiped.of_gains {ring ring' : KeyRing} {records : List KeyRecord} (hwiped : ring.Wiped)
    (h : Gains ring records ring') : ring'.Wiped ∧ ring.Advances ring' := by
  obtain ⟨gained, hkeys, hmakes⟩ := h
  constructor
  · intro key hkey
    rw [hkeys] at hkey
    rcases List.mem_append.1 hkey with hold | hnew
    · exact hwiped key hold
    · clear hkeys hkey
      induction hmakes with
      | nil => cases hnew
      | cons hmake _ ih =>
        rcases List.mem_cons.1 hnew with rfl | hnew
        · exact fun hstate => absurd (hmake.state.symm.trans hstate) nofun
        · exact ih hnew
  · intro keyId key hfind
    refine ⟨key, ?_, (hwiped key (List.mem_of_find?_eq_some hfind)).advances⟩
    rw [find, hkeys, List.find?_append]
    exact congrArg (Option.or · _) hfind

theorem Wiped.of_update {ring ring' : KeyRing} {keyId : BitVec 16}
    {f : ManagedKey → Except KeyError ManagedKey}
    {hf : ∀ key key', f key = .ok key' → key'.keyId = key.keyId}
    (hf' : ∀ key key', f key = .ok key' → key.Advances key') (hwiped : ring.Wiped)
    (h : ring.update keyId f hf = .ok ring') : ring'.Wiped ∧ ring.Advances ring' := by
  unfold update at h
  split at h
  · cases h
  · next key hfind =>
    split at h
    · cases h
    · next key' hchange =>
      cases h
      have hid : key'.keyId = keyId := by
        rw [hf key key' hchange]
        simpa using List.find?_some hfind
      constructor
      · intro k hk
        obtain ⟨k', hk', rfl⟩ := List.mem_map.1 hk
        split
        · exact (hf' key key' hchange).wiped
        · exact hwiped k' hk'
      · intro keyId' k hk
        refine ⟨if k.keyId = keyId then key' else k, ?_, ?_⟩
        · -- the change keeps the numbers, so the same place is found
          rw [find, List.find?_map]
          rw [show ((fun key : ManagedKey => decide (key.keyId = keyId')) ∘ fun k =>
            if k.keyId = keyId then key' else k) = fun key => decide (key.keyId = keyId') by
              funext k
              by_cases hk : k.keyId = keyId <;> simp [hk, hid]]
          exact congrArg (Option.map _) hk
        · have hk' : k.keyId = keyId' := by simpa using List.find?_some hk
          split
          · next hsame =>
            rw [← hk', hsame, hfind] at hk
            cases hk
            exact hf' key key' hchange
          · exact (hwiped k (List.mem_of_find?_eq_some hk)).advances

theorem Wiped.getD {ring : KeyRing} {result : Except KeyError KeyRing} (hwiped : ring.Wiped)
    (h : ∀ ring', result = .ok ring' → ring'.Wiped ∧ ring.Advances ring') :
    (result.toOption.getD ring).Wiped ∧ ring.Advances (result.toOption.getD ring) := by
  cases result with
  | error e =>
    exact ⟨hwiped, fun _ key hkey =>
      ⟨key, hkey, (hwiped key (List.mem_of_find?_eq_some hkey)).advances⟩⟩
  | ok ring' => exact h ring' rfl

theorem Wiped.apply {ring : KeyRing} (hwiped : ring.Wiped) (call : KeyCall) :
    (call.apply ring).Wiped ∧ ring.Advances (call.apply ring) := by
  cases call with
  | load keyId material =>
    refine hwiped.getD fun ring' h => ?_
    obtain ⟨ring₁, hload, hgains⟩ := load_of_loadable (loadable_of_load (r := ⟨keyId, material⟩) h)
    rw [h] at hload
    cases hload
    exact hwiped.of_gains hgains
  | activate keyId =>
    exact hwiped.getD fun _ => hwiped.of_update fun _ _ =>
      ManagedKey.advances_of_step (by decide) nofun
  | deactivate keyId =>
    exact hwiped.getD fun _ => hwiped.of_update fun _ _ =>
      ManagedKey.advances_of_step (by decide) nofun
  | destroy keyId =>
    refine hwiped.getD fun _ => hwiped.of_update fun key key' h => ?_
    cases h
    exact Or.inl rfl
  | otar masterKeyId iv encryptedBlock tag crypto sa =>
    rw [KeyCall.apply]
    by_cases hopens : ring.Opens masterKeyId iv encryptedBlock tag crypto sa
    · rw [otar_of_opens hopens]
      by_cases hload :
          Loadable ring.keys (splitRecords (crypto.decrypt sa iv [] encryptedBlock tag).2).1
      · obtain ⟨ring', hall, hgains⟩ := loadAll_of_loadable hload 0
        rw [hall]
        exact hwiped.of_gains hgains
      · obtain ⟨e, ring', loaded, r, rest, hall, -, -, hgains, -⟩ :=
          loadAll_of_not_loadable hload 0
        rw [hall]
        exact hwiped.of_gains hgains
    · obtain ⟨e, hotar⟩ := otar_of_not_opens hopens
      rw [hotar]
      exact hwiped.of_gains (.refl ring)

theorem Wiped.run {ring : KeyRing} (hwiped : ring.Wiped) (calls : List KeyCall) :
    (calls.foldl KeyCall.apply ring).Wiped ∧ ring.Advances (calls.foldl KeyCall.apply ring) := by
  induction calls generalizing ring with
  | nil => exact hwiped.of_gains (.refl ring)
  | cons call calls ih =>
    obtain ⟨hnext, hfirst⟩ := hwiped.apply call
    obtain ⟨hlast, hrest⟩ := ih hnext
    refine ⟨hlast, fun keyId key hfind => ?_⟩
    obtain ⟨key₁, hfind₁, h₁⟩ := hfirst keyId key hfind
    obtain ⟨key', hfind', h'⟩ := hrest keyId key₁ hfind₁
    exact ⟨key', hfind', h₁.trans h'⟩

/-- In every run a key stays in the ring and only goes forward, with its material until it is
destroyed and with none afterwards.  So its number is never free again. -/
theorem keys_only_advance (before after : List KeyCall) (keyId : BitVec 16) (key : ManagedKey)
    (hfind : (before.foldl KeyCall.apply new).find keyId = some key) :
    ((before ++ after).foldl KeyCall.apply new).Wiped ∧
      (∃ key', ((before ++ after).foldl KeyCall.apply new).find keyId = some key' ∧
        key.Advances key') ∧
      ∀ material, ((before ++ after).foldl KeyCall.apply new).load keyId material =
        .error .duplicateKeyId := by
  have hnew : new.Wiped := fun _ hkey => absurd hkey List.not_mem_nil
  rw [List.foldl_append]
  obtain ⟨hwiped, hadvances⟩ := (hnew.run before).1.run after
  obtain ⟨key', hfind', hkey⟩ := hadvances keyId key hfind
  refine ⟨hwiped, ⟨key', hfind', hkey⟩, fun material => ?_⟩
  unfold load
  split
  · rfl
  · next hnone =>
    rw [hfind'] at hnone
    cases hnone

theorem keys_only_advance_loaded :
    (([KeyCall.load 7 [1]] ++ [KeyCall.destroy 7]).foldl KeyCall.apply new).load 7 [2] =
      .error .duplicateKeyId :=
  (keys_only_advance [.load 7 [1]] [.destroy 7] 7
    (.preactive 7 [1] ⟨by decide, by decide⟩) rfl).2.2 [2]

end KeyRing

end Sdls
end Datalink
end Leodos
