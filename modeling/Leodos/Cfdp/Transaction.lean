/-
What the two CFDP machines share: `class2/machine/transaction.rs`, the timers and the
file store.

An event handler pushes actions into a buffer and may then fail.  Its outcome keeps
the machine, the actions pushed so far, and the result, so that what a failed call
leaves behind can be stated.  The buffer holds `MAX_ACTIONS_PER_EVENT` actions; no event
of either machine pushes more, so a push is not modelled as failing.
-/
import Leodos.Cfdp.Pdu
import Leodos.Container.LinearMap

namespace Leodos
namespace Cfdp

open Spp

structure TransactionId where
  sourceId : EntityId
  seqNum : TransactionSeqNum
  deriving DecidableEq, Repr

inductive TimerType where
  | ack
  | nak
  | inactivity
  | keepAlive
  deriving DecidableEq, Repr

inductive PromptType where
  | nak
  | keepAlive
  deriving DecidableEq, Repr

/-- The number of an interned path. -/
structure FileId where
  index : UInt8
  deriving DecidableEq, Repr

structure FileStore where
  intern : Bytes → Except CfdpError FileId

structure TransactionConfig where
  transactionId : TransactionId
  destinationId : EntityId
  fileSize : Nat
  faultHandlers : FaultHandlerSet
  inactivityTimeoutSecs : Nat
  checksumType : ChecksumType
  sourceFileId : FileId
  destinationFileId : FileId
  deriving DecidableEq

/-! ## Outcomes -/

structure Outcome (σ α : Type) where
  machine : σ
  actions : List α
  result : Except CfdpError Unit

namespace Outcome

variable {σ α β : Type}

def ok (machine : σ) (actions : List α) : Outcome σ α := ⟨machine, actions, .ok ()⟩

/-- A call made after `pushed`. -/
def after (pushed : List α) (o : Outcome σ α) : Outcome σ α :=
  { o with actions := pushed ++ o.actions }

/-- Go on with the value of `r`, or fail with what was pushed so far. -/
def attempt (machine : σ) (pushed : List α) (r : Except CfdpError β)
    (next : β → Outcome σ α) : Outcome σ α :=
  match r with
  | .error e => ⟨machine, pushed, .error e⟩
  | .ok b => next b

@[simp] theorem ok_machine (m : σ) (l : List α) : (ok m l).machine = m := rfl
@[simp] theorem ok_actions (m : σ) (l : List α) : (ok m l).actions = l := rfl
@[simp] theorem ok_result (m : σ) (l : List α) : (ok m l).result = .ok () := rfl

@[simp] theorem after_machine (l : List α) (o : Outcome σ α) :
    (o.after l).machine = o.machine := rfl
@[simp] theorem after_actions (l : List α) (o : Outcome σ α) :
    (o.after l).actions = l ++ o.actions := rfl
@[simp] theorem after_result (l : List α) (o : Outcome σ α) : (o.after l).result = o.result := rfl

theorem attempt_rule {P : Outcome σ α → Prop} {m : σ} {l : List α} {r : Except CfdpError β}
    {next : β → Outcome σ α} (hfail : ∀ e, P ⟨m, l, .error e⟩)
    (hnext : ∀ b, r = .ok b → P (next b)) : P (attempt m l r next) := by
  cases r with
  | error e => exact hfail e
  | ok b => exact hnext b rfl

/-- What the driver gets to execute: the actions of a failed call are discarded. -/
def delivered (o : Outcome σ α) : List α :=
  match o.result with
  | .ok _ => o.actions
  | .error _ => []

@[simp] theorem delivered_ok (m : σ) (l : List α) : (ok m l).delivered = l := rfl

@[simp] theorem delivered_error (m : σ) (l : List α) (e : CfdpError) :
    (⟨m, l, .error e⟩ : Outcome σ α).delivered = [] := rfl

theorem mem_actions_of_delivered {o : Outcome σ α} {a : α} (h : a ∈ o.delivered) :
    a ∈ o.actions := by
  unfold delivered at h
  cases hr : o.result with
  | ok _ => rwa [hr] at h
  | error _ => rw [hr] at h; exact absurd h List.not_mem_nil

/-! ## The buffer of actions -/

/-- At most `n` actions were pushed. -/
def Short (n : Nat) (o : Outcome σ α) : Prop := o.actions.length ≤ n

theorem Short.mono {n k : Nat} {o : Outcome σ α} (h : o.Short n) (hnk : n ≤ k) : o.Short k :=
  Nat.le_trans h hnk

theorem short_ok {n : Nat} {m : σ} {l : List α} (h : l.length ≤ n) : (ok m l).Short n := h

theorem Short.after {n k : Nat} {o : Outcome σ α} (h : o.Short n) {l : List α}
    (hk : l.length + n ≤ k) : (o.after l).Short k := by
  unfold Short at h ⊢
  rw [after_actions, List.length_append]
  omega

theorem short_attempt {n : Nat} {m : σ} {l : List α} {r : Except CfdpError β}
    {next : β → Outcome σ α} (hl : l.length ≤ n) (hnext : ∀ b, (next b).Short n) :
    (attempt m l r next).Short n :=
  attempt_rule (fun _ => hl) fun b _ => hnext b

end Outcome

end Cfdp
end Leodos
