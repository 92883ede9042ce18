/-
Runs of the receiving machine, and what they never emit.

A run is a list of events, each with the file store that is there when it is handled.
No run reaches `VerifyingChecksum`.  So a complete file is not recognised, whatever the
order in which its data and its EOF arrive, and the actions that complete a transaction
are not emitted at all.
-/
import Leodos.Cfdp.Receiver.Effect
import Leodos.Transition.System

namespace Leodos
namespace Cfdp
namespace Receiver

open Spp Container Transition

abbrev Input := FileStore × Event

def Action.completing : Action → Bool
  | .sendFinished .. | .notifyFileReceived .. | .verifyChecksum .. | .executeFilestoreRequests .. =>
      true
  | _ => false

namespace ReceiverMachine

def next (m : ReceiverMachine) (x : Input) : ReceiverMachine := (m.handle x.1 x.2).machine

def run (m : ReceiverMachine) (xs : List Input) : ReceiverMachine := xs.foldl next m

def emitted (m : ReceiverMachine) : List Input → List Action
  | [] => []
  | x :: xs => (m.handle x.1 x.2).actions ++ (m.next x).emitted xs

theorem wf_next {m : ReceiverMachine} (hwf : m.Wf) (x : Input) : (m.next x).Wf :=
  (effect_handle hwf x.1 x.2).wf

theorem wf_run {m : ReceiverMachine} (hwf : m.Wf) (xs : List Input) : (m.run xs).Wf := by
  induction xs generalizing m with
  | nil => exact hwf
  | cons x xs ih => exact ih (wf_next hwf x)

theorem Effect.not_completing {m : ReceiverMachine} {t : TransactionId} {o : Step}
    (h : Effect m t o) : ∀ a ∈ o.actions, a.completing = false := by
  have hplain : ∀ a, Plain t a → a.completing = false := by
    rintro a ⟨-, ha⟩
    cases a <;> first | rfl | cases ha
  intro a ha
  rcases h.closing with hall | ⟨-, pre, c, heq, hpre⟩
  · exact hplain a (hall a ha)
  · rw [heq] at ha
    rcases List.mem_append.1 ha with ha | ha
    · exact hplain a (hpre a ha)
    · rw [List.mem_singleton.1 ha]
      rfl

theorem emitted_not_completing {m : ReceiverMachine} (hwf : m.Wf) (xs : List Input) :
    ∀ a ∈ m.emitted xs, a.completing = false := by
  induction xs generalizing m with
  | nil => exact fun a ha => absurd ha List.not_mem_nil
  | cons x xs ih =>
    intro a ha
    rcases List.mem_append.1 ha with ha | ha
    · exact (effect_handle hwf x.1 x.2).not_completing a ha
    · exact ih (wf_next hwf x) a ha

/-! ## A transaction that is gone -/

/-- The entry of `t` is missing after every event of the run. -/
def AbsentThrough (t : TransactionId) : ReceiverMachine → List Input → Prop :=
  System.Meets next fun m x => (m.next x).transactions.get t = none

/-- An event that finds and leaves no entry of `t` emits nothing for `t` but answers to
EOF PDUs. -/
theorem silent_handle {m : ReceiverMachine} (hwf : m.Wf) {t : TransactionId} {x : Input}
    (hbefore : m.transactions.get t = none) (hafter : (m.next x).transactions.get t = none) :
    ∀ a ∈ (m.handle x.1 x.2).actions, a.transactionId = t → a.isEofAck = true := by
  intro a ha hkey
  have heff := effect_handle hwf x.1 x.2
  by_cases ht : x.2.transactionId = t
  · rw [ht] at heff
    exact heff.silent hbefore hafter a ha
  · rcases heff.closing with hall | ⟨-, pre, c, heq, hpre⟩
    · exact absurd ((hall a ha).1.symm.trans hkey) ht
    · rw [heq] at ha
      rcases List.mem_append.1 ha with ha | ha
      · exact absurd ((hpre a ha).1.symm.trans hkey) ht
      · rw [List.mem_singleton.1 ha] at hkey
        exact absurd hkey ht

theorem silent_emitted {m : ReceiverMachine} (hwf : m.Wf) {t : TransactionId}
    (hbefore : m.transactions.get t = none) {xs : List Input} (habs : AbsentThrough t m xs) :
    ∀ a ∈ m.emitted xs, a.transactionId = t → a.isEofAck = true := by
  induction xs generalizing m with
  | nil => exact fun a ha => absurd ha List.not_mem_nil
  | cons x xs ih =>
    obtain ⟨hafter, hrest⟩ := habs
    intro a ha
    rcases List.mem_append.1 ha with ha | ha
    · exact silent_handle hwf hbefore hafter a ha
    · exact ih (wf_next hwf x) hafter hrest a ha

theorem terminate_last {m : ReceiverMachine} (hwf : m.Wf) {t : TransactionId} {x : Input}
    {c : ConditionCode} {pre post : List Action}
    (h : (m.handle x.1 x.2).actions = pre ++ .terminateTransaction t c :: post) :
    post = [] ∧ (m.next x).transactions.get t = none := by
  have heff := effect_handle hwf x.1 x.2
  have hmem : Action.terminateTransaction t c ∈ (m.handle x.1 x.2).actions := by
    rw [h]
    exact List.mem_append_right _ List.mem_cons_self
  rcases heff.closing with hall | ⟨hnone, pre', c', heq, hpre⟩
  · exact absurd (hall _ hmem).2 Bool.false_ne_true
  · have hnot : Action.terminateTransaction t c ∉ pre' := fun hin =>
      absurd (hpre _ hin).2 Bool.false_ne_true
    rw [heq] at h hmem
    have htc := List.mem_singleton.1 ((List.mem_append.1 hmem).resolve_left hnot)
    injection htc with ht _
    refine ⟨?_, ht ▸ hnone⟩
    -- the termination cannot stand inside `pre'`, so it is the last entry
    rcases List.eq_nil_or_concat post with hnil | ⟨front, last, hlast⟩
    · exact hnil
    · rw [List.concat_eq_append] at hlast
      rw [hlast, ← List.cons_append, ← List.append_assoc] at h
      have hfront := (List.append_inj' h rfl).1
      refine absurd ?_ hnot
      rw [hfront]
      exact List.mem_append_right _ List.mem_cons_self

/-! ## One act at most -/

/-- The entry of `t` is there whenever an event of the run is handled. -/
def HeldThrough (t : TransactionId) : ReceiverMachine → List Input → Prop :=
  System.Meets next fun m _ => m.transactions.get t ≠ none

def executes (t : TransactionId) : Action → Bool
  | .executeFilestoreRequests _ t' => t' = t
  | _ => false

def notifies (t : TransactionId) : Action → Bool
  | .notifyFileReceived t' _ _ => t' = t
  | _ => false

def finishes (t : TransactionId) : Action → Bool
  | .sendFinished _ t' _ _ => t' = t
  | _ => false

/-- What the life of an entry of `t` emits, from the event `x` that creates it on. -/
structure ActsOnce (t : TransactionId) (m : ReceiverMachine) (xs : List Input) : Prop where
  executed : (m.emitted xs).countP (executes t) ≤ 1
  notified : (m.emitted xs).countP (notifies t) ≤ 1
  finished : (m.emitted xs).countP (finishes t) ≤ 1
  /-- The file is reported only after its checksum was found valid. -/
  verified : ∀ pre x post, xs = pre ++ x :: post →
    (∃ a ∈ ((m.run pre).handle x.1 x.2).actions, notifies t a = true) →
    ∃ y ∈ pre ++ [x], y.2 = .checksumVerified t true

theorem countP_eq_zero {m : ReceiverMachine} (hwf : m.Wf) (xs : List Input) {p : Action → Bool}
    (hp : ∀ a, p a = true → a.completing = true) : (m.emitted xs).countP p = 0 := by
  rw [List.countP_eq_zero]
  intro a ha hpa
  have hnot := emitted_not_completing hwf xs a ha
  rw [hp a hpa] at hnot
  cases hnot

theorem completing_of_notifies {t : TransactionId} {a : Action} (h : notifies t a = true) :
    a.completing = true := by
  cases a <;> first | rfl | cases h

theorem actsOnce {m : ReceiverMachine} (hwf : m.Wf) (t : TransactionId) (xs : List Input) :
    ActsOnce t m xs where
  executed := by
    rw [countP_eq_zero hwf xs fun a h => by cases a <;> first | rfl | cases h]
    exact Nat.zero_le 1
  notified := by
    rw [countP_eq_zero hwf xs fun a h => completing_of_notifies h]
    exact Nat.zero_le 1
  finished := by
    rw [countP_eq_zero hwf xs fun a h => by cases a <;> first | rfl | cases h]
    exact Nat.zero_le 1
  verified := by
    rintro pre x post - ⟨a, ha, hnot⟩
    have hquiet := (effect_handle (wf_run hwf pre) x.1 x.2).not_completing a ha
    rw [completing_of_notifies hnot] at hquiet
    cases hquiet

/-- After any history: from the event that creates an entry of `t` to its removal the
machine acts at most once, and after a termination it only acknowledges EOF PDUs until
the entry is created again. -/
theorem receiver_acts_at_most_once (id : EntityId) (history : List Input) (t : TransactionId) :
    (∀ x xs, ((new id).run history).transactions.get t = none →
      HeldThrough t (((new id).run history).next x) xs →
        ActsOnce t ((new id).run history) (x :: xs)) ∧
    (∀ x c pre post,
      (((new id).run history).handle x.1 x.2).actions =
          pre ++ .terminateTransaction t c :: post →
        (((new id).run history).next x).transactions.get t = none ∧
        ∀ ys, AbsentThrough t (((new id).run history).next x) ys →
          ∀ a ∈ post ++ (((new id).run history).next x).emitted ys,
            a.transactionId = t → a.isEofAck = true) := by
  have hwf := wf_run (wf_new id) history
  refine ⟨fun x xs _ _ => actsOnce hwf t (x :: xs), fun x c pre post h => ?_⟩
  obtain ⟨rfl, hnone⟩ := terminate_last hwf h
  exact ⟨hnone, fun ys habs => silent_emitted (wf_next hwf x) hnone habs⟩

/-! ## A complete file -/

/-- An EOF PDU for `t` without an error, carrying `checksum`. -/
def EofArrival (t : TransactionId) (checksum : UInt32) (x : Input) : Prop :=
  ∃ pdu eof, x.2 = .pduReceived t pdu ∧ pdu.variant = .ok (.eof eof) ∧
    eof.conditionCode = .ok .noError ∧ eof.fileChecksum = checksum

/-- A Metadata PDU creates `t`, and after it come data and EOF PDUs of `t` only, in any
order, which cover the file. -/
structure Delivery (t : TransactionId) (m : ReceiverMachine) (x : Input) (xs : List Input) :
    Prop where
  fresh : m.transactions.get t = none
  created : ∃ pdu metadata, x.2 = .pduReceived t pdu ∧ pdu.variant = .ok (.metadata metadata) ∧
    (m.handle x.1 x.2).result = .ok ()
  only : ∀ y ∈ xs, (∃ offset len, y.2 = .fileDataWritten t offset len) ∨
    ∃ checksum, EofArrival t checksum y
  covered : ∀ tr, (m.next x).transactions.get t = some tr → ∀ b, b < tr.config.fileSize →
    ∃ y ∈ xs, ∃ offset len, y.2 = .fileDataWritten t offset len ∧ offset ≤ b ∧ b < offset + len
  ended : ∃ y ∈ xs, ∃ checksum, EofArrival t checksum y

/-- The machine has asked for the checksum of an EOF to be verified, and waits for it. -/
def Completes (t : TransactionId) (m : ReceiverMachine) (xs : List Input) : Prop :=
  (∃ y ∈ xs, ∃ checksum checksumType, EofArrival t checksum y ∧
    .verifyChecksum t checksum checksumType ∈ m.emitted xs) ∧
  ∃ tr, (m.run xs).transactions.get t = some tr ∧ tr.state = .verifyingChecksum

/-- No order of arrival completes a transaction, and no run asks for a checksum to be
verified. -/
theorem delivery_never_completes (id : EntityId) (history : List Input) (t : TransactionId)
    (x : Input) (xs : List Input) (_ : Delivery t ((new id).run history) x xs) :
    ¬ Completes t ((new id).run history) (x :: xs) ∧
      ∀ a ∈ ((new id).run history).emitted (x :: xs), ∀ checksum checksumType,
        a ≠ .verifyChecksum t checksum checksumType := by
  have hwf := wf_run (wf_new id) history
  have hnever : ∀ a ∈ ((new id).run history).emitted (x :: xs), ∀ checksum checksumType,
      a ≠ .verifyChecksum t checksum checksumType := by
    rintro a ha checksum checksumType rfl
    cases emitted_not_completing hwf (x :: xs) _ ha
  refine ⟨?_, hnever⟩
  rintro ⟨⟨_, _, checksum, checksumType, _, hmem⟩, -⟩
  exact hnever _ hmem checksum checksumType rfl

/-! ## A file of four bytes -/

section

def lengthStore : FileStore := ⟨fun path => .ok ⟨UInt8.ofNat path.length⟩⟩

def fourBytes : TransactionId := ⟨1, 0⟩

def fourBytesMetadata : Input :=
  (lengthStore, .pduReceived fourBytes
    ⟨false, .ok 1, .ok (.metadata ⟨0, [0, 0, 0, 4, 1, 97, 1, 98]⟩)⟩)

def fourBytesWritten : Input := (lengthStore, .fileDataWritten fourBytes 0 4)

def fourBytesEof : Input :=
  (lengthStore, .pduReceived fourBytes ⟨false, .ok 1, .ok (.eof ⟨0, 99⟩)⟩)

theorem fourBytes_delivery :
    Delivery fourBytes ((new 2).run []) fourBytesMetadata [fourBytesWritten, fourBytesEof] where
  fresh := by decide
  created := ⟨_, _, rfl, rfl, rfl⟩
  only := by
    intro y hy
    rcases List.mem_cons.1 hy with rfl | hy
    · exact Or.inl ⟨0, 4, rfl⟩
    · rw [List.mem_singleton.1 hy]
      exact Or.inr ⟨99, _, _, rfl, rfl, rfl, rfl⟩
  covered := by
    intro tr htr b hb
    have hsize : tr.config.fileSize = 4 := by
      have h : ((((new 2).run []).next fourBytesMetadata).transactions.get fourBytes).map
          (fun tr => tr.config.fileSize) = some 4 := by decide
      rw [htr] at h
      exact Option.some.inj h
    exact ⟨_, List.mem_cons_self, 0, 4, rfl, Nat.zero_le b, by omega⟩
  ended := ⟨_, List.mem_cons_of_mem _ List.mem_cons_self, 99, _, _, rfl, rfl, rfl, rfl⟩

/-- The whole file and its EOF lead to a NAK instead. -/
theorem four_bytes_not_recognised :
    ¬ ∀ (id : EntityId) (history : List Input) (t : TransactionId) (x : Input) (xs : List Input),
      Delivery t ((new id).run history) x xs → Completes t ((new id).run history) (x :: xs) := by
  intro h
  obtain ⟨-, tr, htr, hstate⟩ := h 2 [] _ _ _ fourBytes_delivery
  have hnak : ((((new 2).run []).run [fourBytesMetadata, fourBytesWritten,
      fourBytesEof]).transactions.get fourBytes).map (fun tr => tr.state) =
      some .waitingForNakData := by decide
  rw [htr, Option.map_some, hstate] at hnak
  cases hnak

theorem delivery_never_completes_four_bytes :
    ¬ Completes fourBytes ((new 2).run [])
      [fourBytesMetadata, fourBytesWritten, fourBytesEof] :=
  (delivery_never_completes 2 [] fourBytes fourBytesMetadata [fourBytesWritten, fourBytesEof]
    fourBytes_delivery).1

/-- The NAK timer ends the transaction, and a late EOF is still answered. -/
theorem receiver_acts_at_most_once_four_bytes :
    ActsOnce fourBytes ((new 2).run []) [fourBytesMetadata, fourBytesWritten, fourBytesEof] ∧
    ∀ a ∈ [] ++ (((new 2).run [fourBytesMetadata, fourBytesWritten, fourBytesEof]).next
        (lengthStore, .timerExpired fourBytes .nak)).emitted [fourBytesEof],
      a.transactionId = fourBytes → a.isEofAck = true := by
  constructor
  · exact (receiver_acts_at_most_once 2 [] fourBytes).1 fourBytesMetadata
      [fourBytesWritten, fourBytesEof] (by decide) ⟨by decide, by decide, trivial⟩
  · exact ((receiver_acts_at_most_once 2 [fourBytesMetadata, fourBytesWritten, fourBytesEof]
      fourBytes).2 (lengthStore, .timerExpired fourBytes .nak) .nakLimitReached [] []
      (by decide)).2 [fourBytesEof] ⟨by decide, trivial⟩

end

end ReceiverMachine

end Receiver
end Cfdp
end Leodos
