/-
One file from a sending to a receiving machine, over links that lose nothing.

A driver on each side executes the delivered actions one by one, in the order in which
they were pushed.  A sending action puts a PDU on the link that reads back what the
action carries; any such PDU will do, and any interleaving of the two sides.  No timer
expires.
-/
import Leodos.Cfdp.Receiver.Completion
import Leodos.Cfdp.Sender.Machine

namespace Leodos
namespace Cfdp

open Spp Container Transition

namespace Exchange

/-- A PDU on a link, with the transaction that its header names. -/
abbrev Packet := TransactionId × Pdu

/-- The file to be sent, the two entities, and what the drivers rely on. -/
structure Setup where
  file : Bytes
  fits : file.length < UInt64.size
  senderId : EntityId
  receiverId : EntityId
  ackTimeoutSecs : Nat
  keepAliveLimit : Nat
  sourceFileName : FileId
  destinationFileName : FileId
  checksumType : ChecksumType
  /-- The paths behind the file numbers of the sender. -/
  path : FileId → Bytes
  /-- The file store of the receiver. -/
  store : FileStore
  execute : List Receiver.FilestoreRequest → List Receiver.FilestoreResponse
  checksum : ChecksumType → Bytes → UInt32

def Setup.transactionId (s : Setup) : TransactionId := ⟨s.senderId, 0⟩

/-! ## What the actions put on the links -/

def sends : Sender.Action → Bool
  | .sendMetadata .. | .sendFileData .. | .sendEof .. | .sendAck .. | .sendPrompt .. => true
  | _ => false

def replies : Receiver.Action → Bool
  | .sendAck .. | .sendFinished .. | .sendNak .. | .sendKeepAlive .. => true
  | _ => false

inductive Carries (s : Setup) : Sender.Action → Packet → Prop where
  | metadata {t : TransactionId} {dest : EntityId} {fileSize : Nat} {src dst : FileId}
      {checksumType : ChecksumType} {pdu : Pdu} {body : MetadataPdu} :
      pdu.sourceEntityId = .ok t.sourceId → pdu.variant = .ok (.metadata body) →
      body.fileSize pdu.largeFileFlag = .ok fileSize → body.checksumType = .ok checksumType →
      body.variableFields pdu.largeFileFlag = .ok (s.path src, s.path dst, []) →
      Carries s (.sendMetadata t dest fileSize src dst checksumType) (t, pdu)
  | fileData {t : TransactionId} {dest : EntityId} {offset : Nat} {data : Bytes} {pdu : Pdu}
      {body : FileDataPdu} :
      pdu.sourceEntityId = .ok t.sourceId → pdu.variant = .ok (.fileData body) →
      body.offset pdu.largeFileFlag = .ok offset → body.fileData pdu.largeFileFlag = .ok data →
      Carries s (.sendFileData t dest offset data) (t, pdu)
  | eof {t : TransactionId} {dest : EntityId} {c : ConditionCode} {fileSize : Nat}
      {checksum : UInt32} {pdu : Pdu} {body : EofPdu} :
      pdu.sourceEntityId = .ok t.sourceId → pdu.variant = .ok (.eof body) →
      body.conditionCode = .ok c → body.fileChecksum = checksum →
      Carries s (.sendEof t dest c fileSize checksum) (t, pdu)
  | ack {t : TransactionId} {dest : EntityId} {code : AckedDirectiveCode} {c : ConditionCode}
      {status : TransactionStatus} {pdu : Pdu} {body : AckPdu} :
      pdu.sourceEntityId = .ok t.sourceId → pdu.variant = .ok (.ack body) →
      body.ackedDirectiveCode = .ok code → Carries s (.sendAck t dest code c status) (t, pdu)
  | prompt {t : TransactionId} {dest : EntityId} {promptType : PromptType} {pdu : Pdu}
      {body : PromptPdu} :
      pdu.sourceEntityId = .ok t.sourceId → pdu.variant = .ok (.prompt body) →
      (body.promptResponse = .nak ↔ promptType = .nak) →
      Carries s (.sendPrompt t dest promptType) (t, pdu)

/-- The packets that an action of the receiver may become.  The action of a NAK names
no segments, so its driver may ask for any. -/
inductive Answers : Receiver.Action → Packet → Prop where
  | ack {t : TransactionId} {dest : EntityId} {c : ConditionCode} {status : TransactionStatus}
      {pdu : Pdu} {body : AckPdu} :
      pdu.sourceEntityId = .ok t.sourceId → pdu.variant = .ok (.ack body) →
      body.ackedDirectiveCode = .ok .eof → Answers (.sendAck t dest .eof c status) (t, pdu)
  | finished {t : TransactionId} {dest : EntityId} {responses : List Receiver.FilestoreResponse}
      {c : ConditionCode} {pdu : Pdu} {body : FinishedPdu} :
      pdu.sourceEntityId = .ok t.sourceId → pdu.variant = .ok (.finished body) →
      body.conditionCode = .ok c → Answers (.sendFinished responses t dest c) (t, pdu)
  | nak {t : TransactionId} {dest : EntityId} {startOfScope endOfScope : Nat} {pdu : Pdu}
      {body : NakPdu} :
      pdu.sourceEntityId = .ok t.sourceId → pdu.variant = .ok (.nak body) →
      Answers (.sendNak t dest startOfScope endOfScope) (t, pdu)
  | keepAlive {t : TransactionId} {dest : EntityId} {progress : Nat} {pdu : Pdu}
      {body : KeepAlivePdu} :
      pdu.sourceEntityId = .ok t.sourceId → pdu.variant = .ok (.keepAlive body) →
      body.progress = progress → Answers (.sendKeepAlive t dest progress) (t, pdu)

end Exchange

/-! ## The joined machines -/

structure Exchange where
  sender : Sender.SenderMachine
  receiver : Receiver.ReceiverMachine
  /-- The actions that still wait for their driver. -/
  outbox : List Sender.Action
  inbox : List Receiver.Action
  toReceiver : List Exchange.Packet
  toSender : List Exchange.Packet
  /-- The file at the receiver. -/
  written : Bytes
  /-- Every action delivered so far. -/
  bySender : List Sender.Action
  byReceiver : List Receiver.Action

namespace Exchange

/-- Which side goes on, and the packet it puts on its link. -/
inductive Move where
  | send (packet : Packet)
  | execute
  | answer (packet : Packet)
  | serve
  | arrive
  | comeBack

/-- Overwrite `contents` with `data` at `offset`; a hole is filled with zeros. -/
def writeAt (contents : Bytes) (offset : Nat) (data : Bytes) : Bytes :=
  contents.take offset ++ List.replicate (offset - contents.length) 0 ++ data ++
    contents.drop (offset + data.length)

def senderHandles (x : Exchange) (e : Sender.Event) : Exchange :=
  { x with
    sender := (x.sender.handle e).machine
    outbox := x.outbox ++ (x.sender.handle e).delivered
    bySender := x.bySender ++ (x.sender.handle e).delivered }

def receiverHandles (s : Setup) (x : Exchange) (e : Receiver.Event) : Exchange :=
  { x with
    receiver := (x.receiver.handle s.store e).machine
    inbox := x.inbox ++ (x.receiver.handle s.store e).delivered
    byReceiver := x.byReceiver ++ (x.receiver.handle s.store e).delivered }

def senderEvents (s : Setup) : Sender.Action → List Sender.Event
  | .readDataSegment t startOffset endOffset =>
      [.dataSegmentReady t ((s.file.take endOffset).drop startOffset) startOffset]
  | .readDataSegmentBatch t segments =>
      segments.map fun g =>
        .dataSegmentReady t ((s.file.take g.endOffset).drop g.startOffset) g.startOffset
  | .calculateChecksum t checksumType => [.checksumReady t (s.checksum checksumType s.file)]
  | _ => []

def serve (s : Setup) (x : Exchange) : Receiver.Action → Exchange
  | .writeFileData t data offset =>
      { x with written := writeAt x.written offset data }.receiverHandles s
        (.fileDataWritten t offset data.length)
  | .verifyChecksum t expected checksumType =>
      x.receiverHandles s (.checksumVerified t (s.checksum checksumType x.written == expected))
  | .executeFilestoreRequests requests t =>
      x.receiverHandles s (.filestoreResponsesReceived t (s.execute requests))
  | _ => x

def start (s : Setup) : Exchange :=
  senderHandles
    { sender := .new s.senderId s.ackTimeoutSecs s.keepAliveLimit
      receiver := .new s.receiverId
      outbox := [], inbox := [], toReceiver := [], toSender := [], written := []
      bySender := [], byReceiver := [] }
    (.putRequest s.sourceFileName s.destinationFileName s.receiverId
      (UInt64.ofNat s.file.length) s.checksumType)

/-- The side of `mv` has something to do that `mv` does. -/
def Enabled (s : Setup) (x : Exchange) : Move → Prop
  | .send packet => ∃ a ∈ x.outbox.head?, Carries s a packet
  | .execute => ∃ a ∈ x.outbox.head?, sends a = false
  | .answer packet => ∃ a ∈ x.inbox.head?, Answers a packet
  | .serve => ∃ a ∈ x.inbox.head?, replies a = false
  | .arrive => x.toReceiver ≠ []
  | .comeBack => x.toSender ≠ []

def next (s : Setup) (x : Exchange) : Move → Exchange
  | .send packet => { x with outbox := x.outbox.tail, toReceiver := x.toReceiver ++ [packet] }
  | .execute =>
      match x.outbox with
      | [] => x
      | a :: rest => (senderEvents s a).foldl senderHandles { x with outbox := rest }
  | .answer packet => { x with inbox := x.inbox.tail, toSender := x.toSender ++ [packet] }
  | .serve =>
      match x.inbox with
      | [] => x
      | a :: rest => { x with inbox := rest }.serve s a
  | .arrive =>
      match x.toReceiver with
      | [] => x
      | packet :: rest =>
          { x with toReceiver := rest }.receiverHandles s (.pduReceived packet.1 packet.2)
  | .comeBack =>
      match x.toSender with
      | [] => x
      | packet :: rest => { x with toSender := rest }.senderHandles (.pduReceived packet.1 packet.2)

def system (s : Setup) : System Exchange Move where
  init x := x = start s
  step x mv x' := Enabled s x mv ∧ x' = next s x mv

/-- The file has arrived, and neither machine holds the transaction. -/
structure Completed (s : Setup) (x : Exchange) : Prop where
  notified : ∃ name, .notifyFileReceived s.transactionId s.file.length name ∈ x.byReceiver
  written : x.written = s.file
  terminated : .terminateTransaction s.transactionId .noError ∈ x.bySender
  sent : x.sender.transactions.get s.transactionId = none
  received : x.receiver.transactions.get s.transactionId = none

/-- Some run completes. -/
def Transfers (s : Setup) : Prop := ∃ x, (system s).Reachable x ∧ Completed s x

/-! ## No run completes -/

/-- The receiver has emitted none of the actions that a complete file leads to. -/
def Unfinished (x : Exchange) : Prop :=
  x.receiver.Wf ∧ ∀ a ∈ x.byReceiver, a.completing = false

theorem unfinished_senderHandles {x : Exchange} (h : x.Unfinished) (e : Sender.Event) :
    (x.senderHandles e).Unfinished := h

theorem unfinished_foldl {x : Exchange} (h : x.Unfinished) (es : List Sender.Event) :
    (es.foldl senderHandles x).Unfinished := by
  induction es generalizing x with
  | nil => exact h
  | cons e es ih => exact ih (unfinished_senderHandles h e)

theorem unfinished_receiverHandles (s : Setup) {x : Exchange} (h : x.Unfinished)
    (e : Receiver.Event) : (x.receiverHandles s e).Unfinished := by
  have heff := Receiver.ReceiverMachine.effect_handle h.1 s.store e
  refine ⟨heff.wf, fun a ha => ?_⟩
  rcases List.mem_append.1 ha with hold | hnew
  · exact h.2 a hold
  · exact heff.not_completing a (Outcome.mem_actions_of_delivered hnew)

theorem unfinished_serve (s : Setup) {x : Exchange} (h : x.Unfinished) (a : Receiver.Action) :
    (x.serve s a).Unfinished := by
  cases a with
  | writeFileData t data offset => exact unfinished_receiverHandles s h _
  | verifyChecksum t expected checksumType => exact unfinished_receiverHandles s h _
  | executeFilestoreRequests requests t => exact unfinished_receiverHandles s h _
  | _ => exact h

theorem unfinished_next (s : Setup) {x : Exchange} (h : x.Unfinished) (mv : Move) :
    (x.next s mv).Unfinished := by
  cases mv with
  | send packet => exact h
  | answer packet => exact h
  | execute =>
    dsimp only [next]
    cases x.outbox with
    | nil => exact h
    | cons a rest =>
      refine unfinished_foldl ?_ _
      exact h
  | serve =>
    dsimp only [next]
    cases x.inbox with
    | nil => exact h
    | cons a rest =>
      refine unfinished_serve s ?_ a
      exact h
  | arrive =>
    dsimp only [next]
    cases x.toReceiver with
    | nil => exact h
    | cons packet rest => exact unfinished_receiverHandles s h _
  | comeBack =>
    dsimp only [next]
    cases x.toSender with
    | nil => exact h
    | cons packet rest => exact h

theorem unfinished_reachable {s : Setup} {x : Exchange} (h : (system s).Reachable x) :
    x.Unfinished := by
  refine h.invariant Unfinished ?_ ?_
  · rintro _ rfl
    exact ⟨Receiver.ReceiverMachine.wf_new _, fun a ha => absurd ha List.not_mem_nil⟩
  · rintro x mv _ hx - ⟨-, rfl⟩
    exact unfinished_next s hx mv

theorem not_completed {s : Setup} {x : Exchange} (h : (system s).Reachable x) :
    ¬ Completed s x := by
  intro hdone
  obtain ⟨name, hmem⟩ := hdone.notified
  cases (unfinished_reachable h).2 _ hmem

/-- No file, of whatever length, is transferred by any run. -/
theorem transfer_never_completes (s : Setup) : ¬ Transfers s :=
  fun ⟨_, hreach, hdone⟩ => not_completed hreach hdone

/-! ## A file of three bytes -/

section

/-- Paths have one letter, and the number of a path is its letter. -/
def threeBytes : Setup where
  file := [7, 8, 9]
  fits := by decide
  senderId := 1
  receiverId := 2
  ackTimeoutSecs := 10
  keepAliveLimit := 4096
  sourceFileName := ⟨97⟩
  destinationFileName := ⟨98⟩
  checksumType := .modular
  path id := [id.index]
  store := ⟨fun path => .ok ⟨path.headD 0⟩⟩
  execute _ := []
  checksum _ data := UInt32.ofNat (beNat data)

def threeBytesId : TransactionId := ⟨1, 0⟩

def metadataPacket : Packet :=
  (threeBytesId, ⟨false, .ok 1, .ok (.metadata ⟨0, [0, 0, 0, 0, 1, 97, 1, 98]⟩)⟩)

def dataPacket : Packet :=
  (threeBytesId, ⟨false, .ok 1, .ok (.fileData (.withoutMeta [0, 0, 0, 0, 7, 8, 9]))⟩)

def eofPacket : Packet := (threeBytesId, ⟨false, .ok 1, .ok (.eof ⟨0, 460809⟩)⟩)

def ackPacket : Packet := (threeBytesId, ⟨false, .ok 1, .ok (.ack ⟨0x40⟩)⟩)

def nakPacket : Packet := (threeBytesId, ⟨false, .ok 1, .ok (.nak (.small []))⟩)

/-- The sender goes first, then the receiver, then the sender takes its answers. -/
def threeBytesRun : List Move :=
  [.send metadataPacket, .execute, .send dataPacket, .execute, .send eofPacket, .execute,
    .arrive, .serve, .serve, .arrive, .serve, .serve, .serve,
    .arrive, .serve, .answer ackPacket, .answer nakPacket, .serve,
    .comeBack, .execute, .execute, .comeBack, .execute, .execute]

theorem threeBytes_enabled :
    System.Meets (next threeBytes) (Enabled threeBytes) (start threeBytes) threeBytesRun :=
  ⟨⟨_, rfl, .metadata rfl rfl rfl rfl rfl⟩, ⟨_, rfl, rfl⟩, ⟨_, rfl, .fileData rfl rfl rfl rfl⟩,
    ⟨_, rfl, rfl⟩, ⟨_, rfl, .eof rfl rfl rfl rfl⟩, ⟨_, rfl, rfl⟩,
    List.cons_ne_nil _ _, ⟨_, rfl, rfl⟩, ⟨_, rfl, rfl⟩, List.cons_ne_nil _ _, ⟨_, rfl, rfl⟩,
    ⟨_, rfl, rfl⟩, ⟨_, rfl, rfl⟩, List.cons_ne_nil _ _, ⟨_, rfl, rfl⟩, ⟨_, rfl, .ack rfl rfl rfl⟩,
    ⟨_, rfl, .nak rfl rfl⟩, ⟨_, rfl, rfl⟩, List.cons_ne_nil _ _, ⟨_, rfl, rfl⟩, ⟨_, rfl, rfl⟩,
    List.cons_ne_nil _ _, ⟨_, rfl, rfl⟩, ⟨_, rfl, rfl⟩, trivial⟩

/-- The whole file is written and its EOF acknowledged, nothing is left to do, and both
machines still hold the transaction. -/
theorem three_bytes_not_transferred :
    (¬ ∀ s, Transfers s) ∧
      ∃ x, (system threeBytes).Reachable x ∧ x.outbox = [] ∧ x.inbox = [] ∧ x.toReceiver = [] ∧
        x.toSender = [] ∧ x.written = threeBytes.file ∧
        (x.sender.transactions.get threeBytesId).map (fun tr => tr.state) =
          some .waitingForFinishedPdu ∧
        (x.receiver.transactions.get threeBytesId).map (fun tr => tr.state) =
          some .waitingForNakData := by
  refine ⟨fun h => ?_, threeBytesRun.foldl (next threeBytes) (start threeBytes), ?_, ?_⟩
  · obtain ⟨x, hreach, hdone⟩ := h threeBytes
    exact not_completed hreach hdone
  · refine System.Reaches.foldl (r := Enabled threeBytes) ?_ (.init rfl) threeBytes_enabled
    exact fun x mv henabled => ⟨trivial, henabled, rfl⟩
  · decide

end

end Exchange

end Cfdp
end Leodos
