/-
Metadata PDUs and the entries that they make.

The entry is registered before the filestore requests of the PDU are read.  A PDU whose requests
cannot be read, or has more than four of them, is rejected and leaves an entry for which no timer
runs.  Every other PDU that is rejected leaves the entries as they are, and what is accepted has
the requests and the fault handlers of the PDU.
-/
import Leodos.Cfdp.Options
import Leodos.Cfdp.Receiver.Effect

namespace Leodos
namespace Cfdp
namespace Receiver

open Spp Container
open Emission (ok_bind bind_ok)

/-! ## Filestore requests -/

def Describes (store : FileStore) (tlv : Tlv) (request : FilestoreRequest) : Prop :=
  ∃ (packed : UInt8) (names first rest : Bytes), tlv.value = packed :: names ∧
    Named names first rest ∧
    FilestoreAction.tryFrom (getBitsU8 packed 0b11110000) = .ok request.action ∧
    store.intern first = .ok request.firstFileName ∧
    if TlvFilestoreRequest.hasSecond request.action then
      ∃ second tail id, Named rest second tail ∧ store.intern second = .ok id ∧
        request.secondFileName = some id
    else request.secondFileName = none

theorem fromTlv_eq_ok_iff {tlv : Tlv} {req : TlvFilestoreRequest} :
    TlvFilestoreRequest.fromTlv tlv = .ok req ↔ tlv.value = req.actionCodeAndSpare :: req.rest := by
  unfold TlvFilestoreRequest.fromTlv
  cases tlv.value with
  | nil => exact iff_of_false (fun h => by cases h) (fun h => by cases h)
  | cons packed rest =>
    constructor
    · intro h
      cases h
      rfl
    · intro h
      obtain ⟨rfl, rfl⟩ := List.cons.inj h
      rfl

theorem firstFileName_eq_ok_iff {req : TlvFilestoreRequest} {name : Bytes} :
    req.firstFileName = .ok name ↔ ∃ rest, Named req.rest name rest := by
  unfold TlvFilestoreRequest.firstFileName
  constructor
  · intro h
    obtain ⟨split, hsplit, hname⟩ := bind_ok h
    obtain ⟨first, rest⟩ := split
    cases hname
    exact ⟨rest, splitLv_eq_ok_iff.1 hsplit⟩
  · intro h
    obtain ⟨rest, hnamed⟩ := h
    rw [splitLv_eq_ok_iff.2 hnamed]
    rfl

theorem secondFileName_eq_ok_iff {req : TlvFilestoreRequest} {action : FilestoreAction}
    (haction : req.action = .ok action) {first rest : Bytes} (hfirst : Named req.rest first rest)
    {name : Option Bytes} :
    req.secondFileName = .ok name ↔
      if TlvFilestoreRequest.hasSecond action then ∃ second tail, Named rest second tail ∧
        name = some second
      else name = none := by
  unfold TlvFilestoreRequest.secondFileName
  rw [haction]
  simp only [ok_bind]
  by_cases hsecond : TlvFilestoreRequest.hasSecond action = true
  · rw [if_pos hsecond, if_pos hsecond, splitLv_eq_ok_iff.2 hfirst]
    simp only [ok_bind]
    constructor
    · intro h
      obtain ⟨split, hsplit, hname⟩ := bind_ok h
      obtain ⟨second, tail⟩ := split
      cases hname
      exact ⟨second, tail, splitLv_eq_ok_iff.1 hsplit, rfl⟩
    · intro h
      obtain ⟨second, tail, hnamed, hname⟩ := h
      rw [splitLv_eq_ok_iff.2 hnamed, hname]
      rfl
  · rw [if_neg hsecond, if_neg hsecond]
    constructor
    · intro h
      cases h
      rfl
    · intro h
      rw [h]
      rfl

namespace ReceiverMachine

theorem readRequest_eq_ok_iff {store : FileStore} {tlv : Tlv} {request : FilestoreRequest} :
    readRequest store tlv = .ok request ↔ Describes store tlv request := by
  unfold readRequest Describes
  constructor
  · intro h
    obtain ⟨req, hreq, h⟩ := bind_ok h
    obtain ⟨first, hfirst, h⟩ := bind_ok h
    obtain ⟨id1, hid1, h⟩ := bind_ok h
    obtain ⟨name, hname, h⟩ := bind_ok h
    obtain ⟨action, haction, h⟩ := bind_ok h
    obtain ⟨rest, hnamed⟩ := firstFileName_eq_ok_iff.1 hfirst
    have hsecond := (secondFileName_eq_ok_iff haction hnamed).1 hname
    refine ⟨req.actionCodeAndSpare, req.rest, first, rest, fromTlv_eq_ok_iff.1 hreq, hnamed, ?_⟩
    cases name with
    | none =>
      cases h
      refine ⟨haction, hid1, ?_⟩
      by_cases hhas : TlvFilestoreRequest.hasSecond action = true
      · rw [if_pos hhas] at hsecond
        obtain ⟨second, tail, -, hsome⟩ := hsecond
        cases hsome
      · rw [if_neg hhas]
    | some second =>
      obtain ⟨id2, hid2, h⟩ := bind_ok h
      cases h
      refine ⟨haction, hid1, ?_⟩
      by_cases hhas : TlvFilestoreRequest.hasSecond action = true
      · rw [if_pos hhas] at hsecond
        obtain ⟨second', tail, hnamed', hsome⟩ := hsecond
        cases hsome
        rw [if_pos hhas]
        exact ⟨second, tail, id2, hnamed', hid2, rfl⟩
      · rw [if_neg hhas] at hsecond
        cases hsecond
  · intro h
    obtain ⟨packed, names, first, rest, hvalue, hnamed, haction, hid1, hsecond⟩ := h
    have hreq : TlvFilestoreRequest.fromTlv tlv = .ok ⟨packed, names⟩ := fromTlv_eq_ok_iff.2 hvalue
    have haction : TlvFilestoreRequest.action ⟨packed, names⟩ = .ok request.action := haction
    have hfirst : TlvFilestoreRequest.firstFileName ⟨packed, names⟩ = .ok first :=
      firstFileName_eq_ok_iff.2 ⟨rest, hnamed⟩
    obtain ⟨action, firstFileName, secondFileName⟩ := request
    by_cases hhas : TlvFilestoreRequest.hasSecond action = true
    · rw [if_pos hhas] at hsecond
      obtain ⟨second, tail, id2, hnamed', hid2, hsome⟩ := hsecond
      have hname : TlvFilestoreRequest.secondFileName ⟨packed, names⟩ = .ok (some second) :=
        (secondFileName_eq_ok_iff haction hnamed).2
          (by rw [if_pos hhas]; exact ⟨second, tail, hnamed', rfl⟩)
      have hsome : secondFileName = some id2 := hsome
      simp only [hreq, hfirst, hid1, hname, haction, hid2, ok_bind, Option.map_some, hsome]
      rfl
    · rw [if_neg hhas] at hsecond
      have hname : TlvFilestoreRequest.secondFileName ⟨packed, names⟩ = .ok none :=
        (secondFileName_eq_ok_iff haction hnamed).2 (by rw [if_neg hhas])
      have hnone : secondFileName = none := hsecond
      simp only [hreq, hfirst, hid1, hname, haction, ok_bind, Option.map_none, hnone]
      rfl

theorem foldlM_pushRequest {store : FileStore} {records : List Tlv}
    {before after : List FilestoreRequest} (hroom : before.length ≤ 4) :
    records.foldlM (pushRequest store) before = .ok after ↔
      ∃ requests, List.Forall₂ (Describes store) records requests ∧ after = before ++ requests ∧
        after.length ≤ 4 := by
  induction records generalizing before with
  | nil =>
    constructor
    · intro h
      cases h
      exact ⟨[], .nil, (List.append_nil _).symm, hroom⟩
    · intro h
      obtain ⟨requests, hall, hafter, -⟩ := h
      cases hall
      rw [hafter, List.append_nil]
      rfl
  | cons tlv records ih =>
    rw [List.foldlM_cons]
    constructor
    · intro h
      obtain ⟨next, hpush, h⟩ := bind_ok h
      obtain ⟨request, hread, hpush⟩ := bind_ok hpush
      by_cases hfull : before.length < 4
      · rw [if_pos hfull] at hpush
        cases hpush
        have hnext : (before ++ [request]).length ≤ 4 := by
          rw [List.length_append, List.length_singleton]
          omega
        obtain ⟨requests, hall, hafter, hle⟩ := (ih hnext).1 h
        refine ⟨request :: requests, .cons (readRequest_eq_ok_iff.1 hread) hall, ?_, hle⟩
        rw [hafter, List.append_assoc]
        rfl
      · rw [if_neg hfull] at hpush
        cases hpush
    · intro h
      obtain ⟨requests, hall, hafter, hle⟩ := h
      cases hall with
      | @cons _ request _ requests hdescribes hall =>
        rw [hafter, List.length_append, List.length_cons] at hle
        have hfull : before.length < 4 := by omega
        have hnext : (before ++ [request]).length ≤ 4 := by
          rw [List.length_append, List.length_singleton]
          omega
        have hpush : pushRequest store before tlv = .ok (before ++ [request]) := by
          rw [pushRequest, readRequest_eq_ok_iff.2 hdescribes, ok_bind, if_pos hfull]
          rfl
        rw [hpush, ok_bind, ih hnext]
        refine ⟨requests, hall, ?_, ?_⟩
        · rw [hafter, List.append_assoc]
          rfl
        · rw [hafter, List.length_append, List.length_cons]
          exact hle

/-- The requests of these records, in their order, which must be at most four. -/
def Asks (store : FileStore) (options : List Tlv) (requests : List FilestoreRequest) : Prop :=
  List.Forall₂ (Describes store) (options.filter Tlv.isRequest) requests ∧ requests.length ≤ 4

theorem readRequests_eq_ok_iff {store : FileStore} {pdu : MetadataPdu} {largeFileFlag : Bool}
    {source dest : Bytes} {options : List Tlv} {requests : List FilestoreRequest}
    (hfields : pdu.Fields largeFileFlag source dest options) :
    readRequests store pdu largeFileFlag = .ok requests ↔ Asks store options requests := by
  have hoptions : pdu.filestoreRequests largeFileFlag = .ok (options.filter Tlv.isRequest) := by
    unfold MetadataPdu.filestoreRequests MetadataPdu.options
    rw [MetadataPdu.variableFields_eq_ok_iff.2 hfields]
    rfl
  unfold readRequests Asks
  have hempty : ([] : List FilestoreRequest).length ≤ 4 := Nat.zero_le 4
  rw [hoptions, ok_bind, foldlM_pushRequest hempty]
  constructor
  · intro h
    obtain ⟨read, hall, hread, hle⟩ := h
    rw [List.nil_append] at hread
    exact ⟨hread ▸ hall, hle⟩
  · intro h
    exact ⟨requests, h.1, rfl, h.2⟩

/-! ## Registration -/

section

variable {m : ReceiverMachine} {store : FileStore} {t : TransactionId}

/-- What is checked before the entry is made. -/
structure Registers (m : ReceiverMachine) (store : FileStore) (pdu : MetadataPdu)
    (largeFileFlag : Bool) (source dest : Bytes) (options : List Tlv) : Prop where
  fields : pdu.Fields largeFileFlag source dest options
  checksumType : ∃ checksumType, pdu.checksumType = .ok checksumType
  faultHandlers : ∃ handlers, pdu.faultHandlerOverrides largeFileFlag = .ok handlers
  source : ∃ id, store.intern source = .ok id
  dest : ∃ id, store.intern dest = .ok id
  room : m.transactions.entries.length < MAX_CONCURRENT_TRANSACTIONS

structure Entered (pdu : MetadataPdu) (largeFileFlag : Bool) (t : TransactionId)
    (tr : Transaction) : Prop where
  transactionId : tr.config.transactionId = t
  state : tr.state = .receivingFileData
  suspended : tr.suspended = false
  faultHandlers : pdu.faultHandlerOverrides largeFileFlag = .ok tr.config.faultHandlers

theorem fileSize_of_fields {pdu : MetadataPdu} {largeFileFlag : Bool} {source dest : Bytes}
    {options : List Tlv} (h : pdu.Fields largeFileFlag source dest options) :
    ∃ size, pdu.fileSize largeFileFlag = .ok size := by
  obtain ⟨size, afterSize, -, -, hrest, hlen, -⟩ := h
  unfold MetadataPdu.fileSize readFss
  refine ⟨_, if_pos ?_⟩
  rw [hrest, List.length_append]
  omega

/-- A PDU for a new transaction is rejected at once, or an entry is registered and the requests
are read then. -/
theorem handleMetadata_cases (hnew : m.transactions.get t = none) (pdu : MetadataPdu)
    (largeFileFlag : Bool) :
    ((∃ e, m.handleMetadata store t pdu largeFileFlag = ⟨m, [], .error e⟩) ∧
      ∀ source dest options, ¬ Registers m store pdu largeFileFlag source dest options) ∨
    ∃ source dest options tr, Registers m store pdu largeFileFlag source dest options ∧
      Entered pdu largeFileFlag t tr ∧
      m.handleMetadata store t pdu largeFileFlag =
        .attempt (m.register t tr) [] (readRequests store pdu largeFileFlag) fun requests =>
          .ok ((m.register t tr).update t fun tr => { tr with filestoreRequests := requests })
            (startKeepAlive t tr ++ [.startTimer t 30 .inactivity]) := by
  have hkey : ¬ m.transactions.containsKey t = true := by
    rw [LinearMap.containsKey, hnew]
    exact Bool.false_ne_true
  unfold handleMetadata
  rw [if_neg hkey]
  cases hnames : pdu.variableFields largeFileFlag with
  | error e =>
    refine Or.inl ⟨⟨e, rfl⟩, fun source dest options h => ?_⟩
    rw [MetadataPdu.variableFields_eq_ok_iff.2 h.fields] at hnames
    cases hnames
  | ok names =>
    obtain ⟨source, dest, options⟩ := names
    have hfields := MetadataPdu.variableFields_eq_ok_iff.1 hnames
    have hsame : ∀ {source' dest' options'},
        Registers m store pdu largeFileFlag source' dest' options' →
        Registers m store pdu largeFileFlag source dest options := by
      intro source' dest' options' h
      have hother := MetadataPdu.variableFields_eq_ok_iff.2 h.fields
      rw [hnames] at hother
      cases hother
      exact h
    obtain ⟨size, hsize⟩ := fileSize_of_fields hfields
    rw [hsize]
    cases htype : pdu.checksumType with
    | error e =>
      refine Or.inl ⟨⟨e, rfl⟩, fun source dest options h => ?_⟩
      obtain ⟨checksumType, hok⟩ := h.checksumType
      rw [htype] at hok
      cases hok
    | ok checksumType =>
      cases hhandlers : pdu.faultHandlerOverrides largeFileFlag with
      | error e =>
        refine Or.inl ⟨⟨e, rfl⟩, fun source dest options h => ?_⟩
        obtain ⟨handlers, hok⟩ := h.faultHandlers
        rw [hhandlers] at hok
        cases hok
      | ok handlers =>
        cases hcreate : m.createTransaction store t source dest size checksumType handlers with
        | error e =>
          refine Or.inl ⟨⟨e, by simp only [Outcome.attempt, hcreate]⟩,
            fun source' dest' options' h => ?_⟩
          have h := hsame h
          obtain ⟨sourceId, hsource⟩ := h.source
          obtain ⟨destId, hdest⟩ := h.dest
          have hok := (@createTransaction_eq_ok_iff m t store hnew source dest size checksumType
            handlers _).2 ⟨sourceId, destId, hsource, hdest, h.room, rfl⟩
          rw [hcreate] at hok
          cases hok
        | ok m' =>
          obtain ⟨sourceId, destId, hsource, hdest, hroom, hm'⟩ :=
            (createTransaction_eq_ok_iff hnew).1 hcreate
          refine Or.inr ⟨source, dest, options,
            m.fresh t sourceId destId size checksumType handlers,
            ⟨hfields, ⟨_, htype⟩, ⟨_, hhandlers⟩, ⟨_, hsource⟩, ⟨_, hdest⟩, hroom⟩,
            ⟨rfl, rfl, rfl, hhandlers⟩, ?_⟩
          simp only [Outcome.attempt, hcreate]
          rw [hm', get_register_self hroom]

end

/-! ## What a Metadata PDU leaves behind -/

def Carries (store : FileStore) (pdu : MetadataPdu) (largeFileFlag : Bool) (tr : Transaction) :
    Prop :=
  ∃ source dest options, pdu.Fields largeFileFlag source dest options ∧
    List.Forall₂ (Describes store) (options.filter Tlv.isRequest) tr.filestoreRequests ∧
    ∀ condition, tr.config.faultHandlers.getHandler condition =
      overridden condition .cancel (options.filterMap Tlv.override)

structure Settles (m : ReceiverMachine) (store : FileStore) (t : TransactionId) (pdu : MetadataPdu)
    (largeFileFlag : Bool) (o : Step) : Prop where
  rejected : ∀ e, o.result = .error e →
    ∀ t', o.machine.transactions.get t' = m.transactions.get t'
  accepted : o.result = .ok () → m.transactions.get t = none →
    ∃ tr, o.machine.transactions.get t = some tr ∧ Carries store pdu largeFileFlag tr

/-- The requests that are read after the entry is registered can be read. -/
def ReadsRequests (m : ReceiverMachine) (store : FileStore) (pdu : MetadataPdu)
    (largeFileFlag : Bool) : Prop :=
  ∀ source dest options, Registers m store pdu largeFileFlag source dest options →
    ∃ requests, Asks store options requests

section

variable {m : ReceiverMachine} {store : FileStore} {t : TransactionId}

theorem readsRequests_iff {pdu : MetadataPdu} {largeFileFlag : Bool} {source dest : Bytes}
    {options : List Tlv} (h : Registers m store pdu largeFileFlag source dest options) :
    ReadsRequests m store pdu largeFileFlag ↔
      ∃ requests, readRequests store pdu largeFileFlag = .ok requests := by
  simp only [readRequests_eq_ok_iff h.fields]
  constructor
  · intro hreads
    exact hreads source dest options h
  · intro hasks source' dest' options' h'
    have hsame := MetadataPdu.variableFields_eq_ok_iff.2 h.fields
    rw [MetadataPdu.variableFields_eq_ok_iff.2 h'.fields] at hsame
    cases hsame
    exact hasks

theorem handleMetadata_settles_iff (hnew : m.transactions.get t = none) (pdu : MetadataPdu)
    (largeFileFlag : Bool) :
    Settles m store t pdu largeFileFlag (m.handleMetadata store t pdu largeFileFlag) ↔
      ReadsRequests m store pdu largeFileFlag := by
  rcases @handleMetadata_cases m store t hnew pdu largeFileFlag with
    ⟨⟨e, houtcome⟩, hnot⟩ | ⟨source, dest, options, tr, hregisters, hentered, houtcome⟩
  · rw [houtcome]
    refine iff_of_true ⟨fun _ _ _ => rfl, fun hok => ?_⟩
      (fun source dest options h => absurd h (hnot source dest options))
    cases hok
  · have hself := @get_register_self m t tr hregisters.room
    rw [houtcome, readsRequests_iff hregisters]
    cases hrequests : readRequests store pdu largeFileFlag with
    | error e =>
      refine iff_of_false (fun h => ?_) (fun h => ?_)
      · have hkept := h.rejected e rfl t
        rw [hnew] at hkept
        rw [Outcome.attempt, hself] at hkept
        cases hkept
      · obtain ⟨requests, hok⟩ := h
        cases hok
    | ok requests =>
      refine iff_of_true ⟨fun e herror => ?_, fun _ _ => ?_⟩ ⟨requests, rfl⟩
      · cases herror
      · refine ⟨{ tr with filestoreRequests := requests }, ?_, source, dest, options,
          hregisters.fields, ?_, ?_⟩
        · rw [Outcome.attempt, Outcome.ok_machine, get_update_self, hself]
          rfl
        · exact ((readRequests_eq_ok_iff hregisters.fields).1 hrequests).1
        · intro condition
          exact MetadataPdu.getHandler_faultHandlerOverrides hregisters.fields
            hentered.faultHandlers condition

end

/-- A Metadata PDU settles exactly when it is not of a new transaction, or is rejected before the
entry is registered, or has at most four requests, all of which can be read. -/
theorem metadata_settles_iff (m : ReceiverMachine) (store : FileStore) (t : TransactionId)
    (pdu : MetadataPdu) (largeFileFlag : Bool) (source : Except CfdpError EntityId) :
    Settles m store t pdu largeFileFlag
        (m.handle store (.pduReceived t ⟨largeFileFlag, source, .ok (.metadata pdu)⟩)) ↔
      (m.transactions.get t = none → ReadsRequests m store pdu largeFileFlag) := by
  show Settles m store t pdu largeFileFlag (m.handlePduReceived store t _) ↔ _
  unfold handlePduReceived
  cases hget : m.transactions.get t with
  | none =>
    rw [imp_iff_right rfl]
    exact handleMetadata_settles_iff hget pdu largeFileFlag
  | some tr =>
    refine iff_of_true ⟨fun _ _ _ => rfl, fun _ hnone => ?_⟩ (fun hnone => by cases hnone)
    rw [hget] at hnone
    cases hnone

/-- A record without an action is rejected when the transaction is registered already. -/
theorem empty_request_leaves_entry :
    ¬ Settles (new 7) ⟨fun _ => .ok ⟨0⟩⟩ ⟨1, 1⟩ ⟨0, [0, 0, 0, 9, 1, 97, 1, 98, 0, 0]⟩ false
        ((new 7).handle ⟨fun _ => .ok ⟨0⟩⟩ (.pduReceived ⟨1, 1⟩
          ⟨false, .ok 1, .ok (.metadata ⟨0, [0, 0, 0, 9, 1, 97, 1, 98, 0, 0]⟩)⟩)) := by
  intro h
  have hkept := h.rejected (.custom "Filestore Request TLV too short") (by decide) ⟨1, 1⟩
  revert hkept
  decide

end ReceiverMachine

end Receiver
end Cfdp
end Leodos
