/-
The sending machine with its driver.

The driver keeps the reads and checksums that it still owes an answer, and the timers
that are armed.  Each answer and each expiry is given once.  A read is answered with
the bytes of its range that the file has.

`View` is what the driver and the machine hold of one transaction.  Every step changes
one view, and `Change` says how.
-/
import Leodos.Cfdp.Sender.Change
import Leodos.Transition.System
import Mathlib.Data.List.Basic

namespace Leodos
namespace Cfdp
namespace Sender

open Spp Container Transition

inductive Request where
  | read (transactionId : TransactionId) (startOffset endOffset : Nat)
  /-- One segment of a batch. -/
  | segment (transactionId : TransactionId) (startOffset endOffset : Nat)
  | checksum (transactionId : TransactionId)
  deriving DecidableEq, Repr

def Request.transactionId : Request → TransactionId
  | read t _ _ | segment t _ _ | checksum t => t

def Action.requests : Action → List Request
  | .readDataSegment t startOffset endOffset => [.read t startOffset endOffset]
  | .readDataSegmentBatch t segments => segments.map fun s => .segment t s.startOffset s.endOffset
  | .calculateChecksum t _ => [.checksum t]
  | _ => []

def Action.setTimer (timers : List (TransactionId × TimerType)) :
    Action → List (TransactionId × TimerType)
  | .startTimer t ty _ => (t, ty) :: timers
  | .stopTimer t none => timers.filter fun x => x.1 ≠ t
  | .stopTimer t (some ty) => timers.filter fun x => x ≠ (t, ty)
  | _ => timers

structure Driver where
  machine : SenderMachine
  unanswered : List Request
  timers : List (TransactionId × TimerType)

inductive Move where
  | call (e : Event)
  | answer (r : Request) (e : Event)
  | expire (t : TransactionId) (ty : TimerType)

/-- The events that are neither answers nor expiries. -/
def Event.external : Event → Bool
  | .putRequest .. | .promptRequest .. | .suspendRequest .. | .resumeRequest ..
  | .pduReceived .. => true
  | .timerExpired .. | .dataSegmentReady .. | .checksumReady .. => false

namespace Driver

def perform (d : Driver) (e : Event) : Driver where
  machine := (d.machine.handle e).machine
  unanswered := d.unanswered ++ (d.machine.handle e).delivered.flatMap Action.requests
  timers := (d.machine.handle e).delivered.foldl Action.setTimer d.timers

/-- The bytes from `startOffset` to `endOffset` that the file of `t` has. -/
def Reads (d : Driver) (t : TransactionId) (startOffset endOffset : Nat) (data : Bytes) : Prop :=
  ∀ tr, d.machine.transactions.get t = some tr →
    data.length = min endOffset tr.config.fileSize - startOffset

inductive Answers (d : Driver) : Request → Event → Prop where
  | read {t : TransactionId} {startOffset endOffset : Nat} {data : Bytes} :
      d.Reads t startOffset endOffset data →
      Answers d (.read t startOffset endOffset) (.dataSegmentReady t data startOffset)
  | segment {t : TransactionId} {startOffset endOffset : Nat} {data : Bytes} :
      d.Reads t startOffset endOffset data →
      Answers d (.segment t startOffset endOffset) (.dataSegmentReady t data startOffset)
  | checksum {t : TransactionId} (c : UInt32) : Answers d (.checksum t) (.checksumReady t c)

inductive Step : Driver → Move → Driver → Prop where
  | call {d : Driver} {e : Event} : e.external = true → Step d (.call e) (d.perform e)
  | answer {d : Driver} {r : Request} {e : Event} : r ∈ d.unanswered → d.Answers r e →
      Step d (.answer r e) ({ d with unanswered := d.unanswered.erase r }.perform e)
  | expire {d : Driver} {t : TransactionId} {ty : TimerType} : (t, ty) ∈ d.timers →
      Step d (.expire t ty)
        ({ d with timers := d.timers.filter fun x => x ≠ (t, ty) }.perform (.timerExpired t ty))

def initial (id : EntityId) (ackTimeoutSecs keepAliveLimit : Nat) : Driver :=
  ⟨.new id ackTimeoutSecs keepAliveLimit, [], []⟩

/-- The driven machine from its creation on. -/
def system : System Driver Move where
  init d := ∃ id ackTimeoutSecs keepAliveLimit, d = initial id ackTimeoutSecs keepAliveLimit
  step := Step

end Driver

/-! ## Views -/

structure View where
  entry : Option Transaction
  unanswered : List Request
  armed : List TimerType

def Action.setArmed (armed : List TimerType) : Action → List TimerType
  | .startTimer _ ty _ => ty :: armed
  | .stopTimer _ none => []
  | .stopTimer _ (some ty) => armed.filter fun x => x ≠ ty
  | _ => armed

namespace View

/-- Execute `actions` and leave `entry`. -/
def execute (v : View) (entry : Option Transaction) (actions : List Action) : View where
  entry := entry
  unanswered := v.unanswered ++ actions.flatMap Action.requests
  armed := actions.foldl Action.setArmed v.armed

@[simp] theorem execute_entry (v : View) (o : Option Transaction) (l : List Action) :
    (v.execute o l).entry = o := rfl

@[simp] theorem execute_unanswered (v : View) (o : Option Transaction) (l : List Action) :
    (v.execute o l).unanswered = v.unanswered ++ l.flatMap Action.requests := rfl

@[simp] theorem execute_armed (v : View) (o : Option Transaction) (l : List Action) :
    (v.execute o l).armed = l.foldl Action.setArmed v.armed := rfl

/-- The request `r` is answered. -/
def take (v : View) (r : Request) : View := { v with unanswered := v.unanswered.erase r }

/-- The timer `ty` has expired. -/
def fire (v : View) (ty : TimerType) : View := { v with armed := v.armed.filter fun x => x ≠ ty }

end View

/-- The armed timers of `t`. -/
def armedOf (t : TransactionId) (timers : List (TransactionId × TimerType)) : List TimerType :=
  (timers.filter fun x => x.1 = t).map Prod.snd

theorem mem_armedOf {t : TransactionId} {timers : List (TransactionId × TimerType)}
    {ty : TimerType} : ty ∈ armedOf t timers ↔ (t, ty) ∈ timers := by
  simp only [armedOf, List.mem_map, List.mem_filter, decide_eq_true_eq]
  constructor
  · rintro ⟨⟨t', ty'⟩, ⟨hmem, rfl⟩, rfl⟩
    exact hmem
  · exact fun h => ⟨(t, ty), ⟨h, rfl⟩, rfl⟩

theorem armedOf_filter_self (t : TransactionId) (ty : TimerType)
    (timers : List (TransactionId × TimerType)) :
    armedOf t (timers.filter fun x => x ≠ (t, ty)) =
      (armedOf t timers).filter fun x => x ≠ ty := by
  induction timers with
  | nil => rfl
  | cons x timers ih =>
    unfold armedOf at ih ⊢
    by_cases ht : x.1 = t
    · by_cases hty : x.2 = ty
      · have hx : x = (t, ty) := Prod.ext ht hty
        simpa [hx] using ih
      · have hx : x ≠ (t, ty) := fun h => hty (congrArg Prod.snd h)
        simpa [hx, ht, hty] using ih
    · have hx : x ≠ (t, ty) := fun h => ht (congrArg Prod.fst h)
      simpa [hx, ht] using ih

theorem armedOf_filter_of_ne {t t' : TransactionId} (hne : t ≠ t') (ty : TimerType)
    (timers : List (TransactionId × TimerType)) :
    armedOf t (timers.filter fun x => x ≠ (t', ty)) = armedOf t timers := by
  unfold armedOf
  rw [List.filter_filter]
  congr 1
  refine List.filter_congr fun x _ => ?_
  by_cases ht : x.1 = t
  · have hx : x ≠ (t', ty) := fun h => hne (ht.symm.trans (congrArg Prod.fst h))
    simp [ht, hx]
  · simp [ht]

theorem armedOf_setTimer_self {t : TransactionId} {a : Action} (ha : a.transactionId = t)
    (timers : List (TransactionId × TimerType)) :
    armedOf t (a.setTimer timers) = a.setArmed (armedOf t timers) := by
  subst ha
  cases a with
  | startTimer t ty seconds =>
    simp [Action.setTimer, Action.setArmed, armedOf, Action.transactionId]
  | stopTimer t ty =>
    cases ty with
    | none =>
      unfold armedOf Action.setTimer Action.setArmed
      rw [List.filter_filter, List.map_eq_nil_iff, List.filter_eq_nil_iff]
      intro x _ hx
      rw [Bool.and_eq_true, decide_eq_true_eq, decide_eq_true_eq] at hx
      exact hx.2 hx.1
    | some ty => exact armedOf_filter_self t ty timers
  | _ => rfl

theorem armedOf_setTimer_of_ne {t : TransactionId} {a : Action} (ha : a.transactionId ≠ t)
    (timers : List (TransactionId × TimerType)) :
    armedOf t (a.setTimer timers) = armedOf t timers := by
  cases a with
  | startTimer t' ty seconds =>
    have hne : ¬ t' = t := ha
    simp [Action.setTimer, armedOf, hne]
  | stopTimer t' ty =>
    have hne : t' ≠ t := ha
    cases ty with
    | none =>
      unfold armedOf Action.setTimer
      rw [List.filter_filter]
      congr 1
      refine List.filter_congr fun x _ => ?_
      by_cases ht : x.1 = t
      · simp [ht, hne.symm]
      · simp [ht]
    | some ty => exact armedOf_filter_of_ne hne.symm ty timers
  | _ => rfl

theorem armedOf_foldl_self {t : TransactionId} {l : List Action}
    (hl : ∀ a ∈ l, a.transactionId = t) (timers : List (TransactionId × TimerType)) :
    armedOf t (l.foldl Action.setTimer timers) = l.foldl Action.setArmed (armedOf t timers) := by
  induction l generalizing timers with
  | nil => rfl
  | cons a l ih =>
    rw [List.foldl_cons, List.foldl_cons, ih fun b hb => hl b (List.mem_cons_of_mem a hb),
      armedOf_setTimer_self (hl a List.mem_cons_self)]

theorem armedOf_foldl_of_ne {t : TransactionId} {l : List Action}
    (hl : ∀ a ∈ l, a.transactionId ≠ t) (timers : List (TransactionId × TimerType)) :
    armedOf t (l.foldl Action.setTimer timers) = armedOf t timers := by
  induction l generalizing timers with
  | nil => rfl
  | cons a l ih =>
    rw [List.foldl_cons, ih fun b hb => hl b (List.mem_cons_of_mem a hb),
      armedOf_setTimer_of_ne (hl a List.mem_cons_self)]

/-! ## Requests of one transaction -/

theorem transactionId_of_requests {a : Action} {r : Request} (h : r ∈ a.requests) :
    r.transactionId = a.transactionId := by
  cases a with
  | readDataSegment t startOffset endOffset =>
    rw [List.mem_singleton.1 h]
    rfl
  | readDataSegmentBatch t segments =>
    obtain ⟨s, -, rfl⟩ := List.mem_map.1 h
    rfl
  | calculateChecksum t checksumType =>
    rw [List.mem_singleton.1 h]
    rfl
  | _ => cases h

/-- The unanswered requests of `t`. -/
def requestsOf (t : TransactionId) (l : List Request) : List Request :=
  l.filter fun r => r.transactionId = t

theorem requestsOf_append (t : TransactionId) (l l' : List Request) :
    requestsOf t (l ++ l') = requestsOf t l ++ requestsOf t l' := by
  unfold requestsOf
  rw [List.filter_append]

theorem requestsOf_flatMap_self {t : TransactionId} {l : List Action}
    (hl : ∀ a ∈ l, a.transactionId = t) :
    requestsOf t (l.flatMap Action.requests) = l.flatMap Action.requests := by
  unfold requestsOf
  rw [List.filter_eq_self]
  intro r hr
  obtain ⟨a, ha, hra⟩ := List.mem_flatMap.1 hr
  exact decide_eq_true ((transactionId_of_requests hra).trans (hl a ha))

theorem requestsOf_flatMap_of_ne {t : TransactionId} {l : List Action}
    (hl : ∀ a ∈ l, a.transactionId ≠ t) : requestsOf t (l.flatMap Action.requests) = [] := by
  unfold requestsOf
  rw [List.filter_eq_nil_iff]
  intro r hr
  obtain ⟨a, ha, hra⟩ := List.mem_flatMap.1 hr
  rw [transactionId_of_requests hra, decide_eq_true_eq]
  exact hl a ha

theorem requestsOf_erase (t : TransactionId) (r : Request) (l : List Request) :
    requestsOf t (l.erase r) = (requestsOf t l).erase r :=
  List.erase_filter.symm

theorem requestsOf_erase_of_ne {t : TransactionId} {r : Request} (hr : r.transactionId ≠ t)
    (l : List Request) : requestsOf t (l.erase r) = requestsOf t l := by
  rw [requestsOf_erase, List.erase_of_not_mem]
  intro h
  exact hr (of_decide_eq_true (List.mem_filter.1 h).2)

theorem requests_data (t : TransactionId) (destination : EntityId) (offset : Nat) (data : Bytes)
    (config : TransactionConfig) (p : Nat) :
    [Action.sendFileData t destination offset data, continueAt t config p].flatMap
        Action.requests =
      if p ≥ config.fileSize then [.checksum t]
      else [.read t p (wrappingAdd p FILE_DATA_CHUNK_SIZE)] := by
  rw [List.flatMap_cons, List.flatMap_singleton, continueAt]
  split_ifs <;> rfl

theorem setArmed_continueAt (t : TransactionId) (config : TransactionConfig) (p : Nat)
    (armed : List TimerType) : (continueAt t config p).setArmed armed = armed := by
  unfold continueAt
  split_ifs <;> rfl

/-! ## The view of a step -/

namespace Driver

def view (d : Driver) (t : TransactionId) : View where
  entry := d.machine.transactions.get t
  unanswered := requestsOf t d.unanswered
  armed := armedOf t d.timers

variable {d : Driver} {t : TransactionId} {e : Event}

theorem view_perform_of_ne (hp : d.machine.Proper) (hne : t ≠ d.machine.target e) :
    (d.perform e).view t = d.view t := by
  have hother : ∀ a ∈ (d.machine.handle e).delivered, a.transactionId ≠ t := by
    intro a ha h
    exact hne (h.symm.trans (SenderMachine.handle_about hp e a ha))
  have hreq := requestsOf_flatMap_of_ne hother
  have harm := armedOf_foldl_of_ne hother d.timers
  have hget := SenderMachine.handle_others hp e hne
  unfold view perform
  rw [hget, requestsOf_append, hreq, List.append_nil, harm]

theorem view_perform_self (hp : d.machine.Proper) (ht : d.machine.target e = t) :
    (d.perform e).view t = (d.view t).execute
      ((d.machine.handle e).machine.transactions.get t) (d.machine.handle e).delivered := by
  have habout : ∀ a ∈ (d.machine.handle e).delivered, a.transactionId = t := fun a ha =>
    (SenderMachine.handle_about hp e a ha).trans ht
  have hreq := requestsOf_flatMap_self habout
  have harm := armedOf_foldl_self habout d.timers
  unfold view perform View.execute
  rw [requestsOf_append, hreq, harm]

theorem view_perform_absent (hget : d.machine.transactions.get t = none)
    (he : e.transactionId? = some t) : d.perform e = d := by
  unfold perform
  rw [SenderMachine.handle_absent hget he]
  simp

theorem view_perform_change (hp : d.machine.Proper) {tr : Transaction}
    (hget : (d.view t).entry = some tr) (he : e.transactionId? = some t) :
    ∃ o l, Change t tr e o l ∧ (d.perform e).view t = (d.view t).execute o l := by
  have ht : d.machine.target e = t := by rw [SenderMachine.target, he, Option.getD_some]
  exact ⟨_, _, (SenderMachine.effect_handle hp hget he).change, view_perform_self hp ht⟩

/-- The entry that a `PutRequest` registers. -/
def created (d : Driver) (source destination : FileId) (destinationId : EntityId)
    (fileSize : UInt64) (checksumType : ChecksumType) : Transaction :=
  d.machine.newTransaction destinationId source destination fileSize checksumType

theorem view_perform_put (hp : d.machine.Proper) (source destination : FileId)
    (destinationId : EntityId) (fileSize : UInt64) (checksumType : ChecksumType) :
    (d.perform (.putRequest source destination destinationId fileSize checksumType)).view t =
        d.view t ∨
      t = d.machine.nextId ∧
        (d.perform (.putRequest source destination destinationId fileSize checksumType)).view t =
          (d.view t).execute
            (some (d.created source destination destinationId fileSize checksumType))
            [.sendMetadata t destinationId 0 source destination checksumType,
              .readDataSegment t 0 FILE_DATA_CHUNK_SIZE] := by
  by_cases hne : t ≠ d.machine.nextId
  · exact Or.inl (view_perform_of_ne hp hne)
  · have ht := not_not.1 hne
    subst ht
    have htarget : d.machine.target (.putRequest source destination destinationId fileSize
        checksumType) = d.machine.nextId := rfl
    have hself := view_perform_self hp htarget
    rcases SenderMachine.putRequest_cases d.machine source destination destinationId fileSize
      checksumType with ⟨hall, hnil⟩ | ⟨hnew, -, hlist⟩
    · left
      rw [hself, SenderMachine.handle, hall, hnil]
      unfold View.execute
      rw [List.flatMap_nil, List.append_nil]
      rfl
    · right
      rw [hself, SenderMachine.handle, hnew, hlist]
      exact ⟨rfl, rfl⟩

theorem transactionId_of_answers {d : Driver} {r : Request} {e : Event} (h : d.Answers r e) :
    e.transactionId? = some r.transactionId := by
  cases h <;> rfl

theorem event_of_answers {d : Driver} {r : Request} {e : Event} (h : d.Answers r e) :
    (∃ data offset, e = .dataSegmentReady r.transactionId data offset) ∨
      ∃ c, e = .checksumReady r.transactionId c := by
  cases h with
  | read _ => exact Or.inl ⟨_, _, rfl⟩
  | segment _ => exact Or.inl ⟨_, _, rfl⟩
  | checksum c => exact Or.inr ⟨c, rfl⟩

/-! What the driver uses up before the machine acts. -/

theorem view_take_self (d : Driver) (t : TransactionId) (r : Request) :
    ({ d with unanswered := d.unanswered.erase r } : Driver).view t = (d.view t).take r := by
  unfold view View.take
  rw [requestsOf_erase]

theorem view_take_of_ne (d : Driver) {t : TransactionId} {r : Request} (hne : t ≠ r.transactionId) :
    ({ d with unanswered := d.unanswered.erase r } : Driver).view t = d.view t := by
  unfold view
  rw [requestsOf_erase_of_ne hne.symm]

theorem view_fire_self (d : Driver) (t : TransactionId) (ty : TimerType) :
    ({ d with timers := d.timers.filter fun x => x ≠ (t, ty) } : Driver).view t =
      (d.view t).fire ty := by
  unfold view View.fire
  rw [armedOf_filter_self]

theorem view_fire_of_ne (d : Driver) {t t' : TransactionId} (hne : t ≠ t') (ty : TimerType) :
    ({ d with timers := d.timers.filter fun x => x ≠ (t', ty) } : Driver).view t = d.view t := by
  unfold view
  rw [armedOf_filter_of_ne hne]

theorem target_of {m : SenderMachine} {e : Event} {t : TransactionId}
    (he : e.transactionId? = some t) : m.target e = t := by
  rw [SenderMachine.target, he, Option.getD_some]

theorem perform_proper (hp : d.machine.Proper) (e : Event) : (d.perform e).machine.Proper :=
  SenderMachine.handle_proper hp e

theorem entry_of_view {d : Driver} {t : TransactionId} {v : View} (h : d.view t = v)
    {tr : Transaction} (hget : d.machine.transactions.get t = some tr) : v.entry = some tr := by
  rw [← h]
  exact hget

/-! ## A file of three bytes -/

def threeBytes : TransactionId := ⟨1, 0⟩

/-- The states after the request, the only segment and the checksum. -/
def requested : Driver :=
  (initial 1 10 4096).perform (.putRequest ⟨0⟩ ⟨1⟩ 2 3 .modular)

def streamed : Driver :=
  perform { requested with unanswered := requested.unanswered.erase (.read threeBytes 0 2048) }
    (.dataSegmentReady threeBytes [7, 8, 9] 0)

def ended : Driver :=
  perform { streamed with unanswered := streamed.unanswered.erase (.checksum threeBytes) }
    (.checksumReady threeBytes 24)

theorem reads_threeBytes : requested.Reads threeBytes 0 2048 [7, 8, 9] := by
  intro tr htr
  have hsize : (requested.machine.transactions.get threeBytes).map (fun tr => tr.config.fileSize) =
      some 3 := by decide
  rw [htr, Option.map_some, Option.some.injEq] at hsize
  rw [hsize]
  rfl

end Driver

end Sender
end Cfdp
end Leodos
