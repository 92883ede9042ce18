/-
The reassembly buffer that the Fast and Packed backends share.

Segments are appended in order to one buffer; a completed message stays at its
start until it is taken or the next message overwrites it.  The two facts every
reader of the buffer relies on, that lengths stay inside it and that no
completed message coexists with an open reassembly, are fields of the structure.
-/
import Leodos.Memory.Cells
import Leodos.Spp.Sequence

namespace Leodos
namespace Srspp

open Memory Spp

inductive ReceiverError where
  | bufferFull
  | messageTooLarge
  | reassemblyError
  deriving DecidableEq, Repr

structure Reassembly (REASM : Nat) where
  buf : Bytes
  len : Nat
  inProgress : Bool
  completeMessageLen : Option Nat
  buf_length : buf.length = REASM
  len_le : len ≤ REASM
  complete_le : ∀ n, completeMessageLen = some n → n ≤ REASM
  exclusive : inProgress = true → completeMessageLen = none

namespace Reassembly

variable {REASM : Nat}

def new (REASM : Nat) : Reassembly REASM where
  buf := List.replicate REASM 0
  len := 0
  inProgress := false
  completeMessageLen := none
  buf_length := List.length_replicate ..
  len_le := Nat.zero_le _
  complete_le := by simp
  exclusive := by simp

/-- Append or complete a packet according to its sequence flag. -/
def deliverPacket (r : Reassembly REASM) (flags : SequenceFlag) (payload : Bytes) :
    Except ReceiverError (Reassembly REASM) :=
  match flags with
  | .unsegmented =>
      if h : payload.length > REASM then .error .messageTooLarge
      else .ok
        { r with
          buf := write r.buf 0 payload
          completeMessageLen := some payload.length
          inProgress := false
          buf_length := by simp [r.buf_length]
          complete_le := by simpa using h
          exclusive := by simp }
  | .first =>
      if h : payload.length > REASM then .error .messageTooLarge
      else .ok
        { buf := write r.buf 0 payload
          len := payload.length
          inProgress := true
          completeMessageLen := none
          buf_length := by simp [r.buf_length]
          len_le := Nat.le_of_not_lt h
          complete_le := by simp
          exclusive := by simp }
  | .continuation | .last =>
      if hp : r.inProgress = false then .error .reassemblyError
      else if h : r.len + payload.length > REASM then .error .messageTooLarge
      else .ok
        { buf := write r.buf r.len payload
          len := r.len + payload.length
          inProgress := flags != .last
          completeMessageLen :=
            if flags = .last then some (r.len + payload.length) else r.completeMessageLen
          buf_length := by simp [r.buf_length]
          len_le := Nat.le_of_not_lt h
          complete_le := by
            intro n hn
            split at hn
            · injection hn with hn
              omega
            · exact r.complete_le n hn
          exclusive := by
            intro hf
            rw [if_neg (by simpa using hf)]
            exact r.exclusive (by simpa using hp) }

/-- Hand a packet to the reassembly, unless it is an empty unsegmented packet
(an end-of-stream marker) and a message is still waiting. -/
def push (r : Reassembly REASM) (flags : SequenceFlag) (payload : Bytes) :
    Except ReceiverError (Reassembly REASM) :=
  let skipOverwrite :=
    payload.isEmpty && flags == .unsegmented && r.completeMessageLen.isSome
  if skipOverwrite then .ok r else r.deliverPacket flags payload

/-- Drop an open reassembly, as `skip_gap` does first. -/
def abandon (r : Reassembly REASM) : Reassembly REASM :=
  if r.inProgress then
    { r with
      len := 0
      inProgress := false
      len_le := Nat.zero_le _
      exclusive := by simp }
  else r

def takeMessage (r : Reassembly REASM) : Option Bytes × Reassembly REASM :=
  (r.completeMessageLen.map (slice r.buf 0),
    { r with completeMessageLen := none, complete_le := by simp, exclusive := by simp })

def message (r : Reassembly REASM) : Option Bytes :=
  r.completeMessageLen.map (slice r.buf 0)

def partialMessage (r : Reassembly REASM) : Option Bytes :=
  if r.inProgress then some (slice r.buf 0 r.len) else none

/-! ## What the operations do to the two views -/

@[simp] theorem message_new : (new REASM).message = none := rfl

@[simp] theorem partialMessage_new : (new REASM).partialMessage = none := rfl

theorem message_isSome (r : Reassembly REASM) :
    r.message.isSome = r.completeMessageLen.isSome := by
  simp [message]

theorem message_length (r : Reassembly REASM) :
    r.message.map List.length = r.completeMessageLen := by
  cases h : r.completeMessageLen with
  | none => simp [message, h]
  | some n =>
    have hn := r.complete_le n h
    have hlen : (slice r.buf 0 n).length = n := slice_length (by rw [r.buf_length]; omega)
    simp [message, h, hlen]

theorem message_eq_none_of_open {r : Reassembly REASM} {q : Bytes}
    (h : r.partialMessage = some q) : r.message = none := by
  have hp : r.inProgress = true := by
    unfold partialMessage at h
    split at h
    · assumption
    · cases h
  simp [message, r.exclusive hp]

theorem partialMessage_length {r : Reassembly REASM} {q : Bytes}
    (h : r.partialMessage = some q) : q.length = r.len := by
  unfold partialMessage at h
  split at h
  · injection h with h
    rw [← h]
    exact slice_length (by rw [r.buf_length]; simpa using r.len_le)
  · cases h

@[simp] theorem takeMessage_fst (r : Reassembly REASM) : r.takeMessage.1 = r.message := rfl

@[simp] theorem takeMessage_message (r : Reassembly REASM) :
    r.takeMessage.2.message = none := rfl

@[simp] theorem takeMessage_partialMessage (r : Reassembly REASM) :
    r.takeMessage.2.partialMessage = r.partialMessage := rfl

theorem deliverPacket_unsegmented {r : Reassembly REASM} {payload : Bytes}
    (h : payload.length ≤ REASM) :
    ∃ r', r.deliverPacket .unsegmented payload = .ok r' ∧
      r'.message = some payload ∧ r'.partialMessage = none := by
  have hs : slice (write r.buf 0 payload) 0 payload.length = payload :=
    slice_write_self (by rw [r.buf_length]; omega)
  refine ⟨_, dif_neg (Nat.not_lt.mpr h), ?_, rfl⟩
  simp [message, hs]

theorem deliverPacket_first {r : Reassembly REASM} {payload : Bytes}
    (h : payload.length ≤ REASM) :
    ∃ r', r.deliverPacket .first payload = .ok r' ∧
      r'.message = none ∧ r'.partialMessage = some payload := by
  have hs : slice (write r.buf 0 payload) 0 payload.length = payload :=
    slice_write_self (by rw [r.buf_length]; omega)
  refine ⟨_, dif_neg (Nat.not_lt.mpr h), rfl, ?_⟩
  simp [partialMessage, hs]

theorem slice_append {r : Reassembly REASM} {payload : Bytes}
    (h : r.len + payload.length ≤ REASM) :
    slice (write r.buf r.len payload) 0 (r.len + payload.length) =
      slice r.buf 0 r.len ++ payload :=
  slice_write_append (by rw [r.buf_length]; omega)

theorem of_partialMessage {r : Reassembly REASM} {q : Bytes} (hq : r.partialMessage = some q) :
    ¬ r.inProgress = false ∧ slice r.buf 0 r.len = q := by
  have hp : ¬ r.inProgress = false := by
    intro hf
    simp [partialMessage, hf] at hq
  exact ⟨hp, by simpa [partialMessage, hp] using hq⟩

theorem deliverPacket_continuation {r : Reassembly REASM} {q payload : Bytes}
    (hq : r.partialMessage = some q) (h : q.length + payload.length ≤ REASM) :
    ∃ r', r.deliverPacket .continuation payload = .ok r' ∧
      r'.message = none ∧ r'.partialMessage = some (q ++ payload) := by
  have hlen := partialMessage_length hq
  obtain ⟨hp, hq'⟩ := of_partialMessage hq
  have hs : slice (write r.buf r.len payload) 0 (r.len + payload.length) =
      slice r.buf 0 r.len ++ payload := slice_append (by omega)
  refine ⟨_, (dif_neg hp).trans (dif_neg (by omega)), ?_, ?_⟩
  · simp [message, r.exclusive (by simpa using hp)]
  · simp [partialMessage, hs, hq']

theorem deliverPacket_last {r : Reassembly REASM} {q payload : Bytes}
    (hq : r.partialMessage = some q) (h : q.length + payload.length ≤ REASM) :
    ∃ r', r.deliverPacket .last payload = .ok r' ∧
      r'.message = some (q ++ payload) ∧ r'.partialMessage = none := by
  have hlen := partialMessage_length hq
  obtain ⟨hp, hq'⟩ := of_partialMessage hq
  have hs : slice (write r.buf r.len payload) 0 (r.len + payload.length) =
      slice r.buf 0 r.len ++ payload := slice_append (by omega)
  refine ⟨_, (dif_neg hp).trans (dif_neg (by omega)), ?_, ?_⟩
  · simp [message, hs, hq']
  · simp [partialMessage]

end Reassembly

end Srspp
end Leodos
