/-
Secured links.

A secured link sends the frames of the plain one, secured in place, and its reader starts
at the end of the frame header as if there were no security.  So it carries packets exactly
where security happens to leave every frame as it is.
-/
import Leodos.Datalink.Disturbance
import Leodos.Datalink.Plain
import Leodos.Datalink.Protection
import Leodos.Datalink.Recovery

namespace Leodos
namespace Datalink

open Memory Packing Sdls Spp

/-- Where the frame header ends, for the formats that SDLS is made for. -/
def FrameConfig.headerEnd : FrameConfig → Option Nat
  | .tc _ => some 5
  | .tm _ => some 6
  | .aos _ => none
  | .proximity1 _ => none
  | .uslp _ => none

def plainFrames (F : WriterFormat) (bufLen : Nat) (ops : List (Op Bytes)) : List Bytes :=
  (DatalinkWriter.run (NoSecurity : SecurityProcessor Unit Empty) passWrite ops
    (.new (.new F bufLen) [] ())).2.codingWriter

/-- All calls of the writer succeed, and reads hand out the packets written before the last
flush in order, each once, and nothing else. -/
def Delivers {σ ε : Type} (F : WriterFormat) (R : ReaderFormat) (S : SecurityProcessor σ ε)
    (bufLen : Nat) (start : σ) (ops : List (Op Bytes)) : Prop :=
  ∃ sender : DatalinkWriter F σ (List Bytes),
    DatalinkWriter.run S passWrite (ops ++ [.flush]) (.new (.new F bufLen) [] start) =
        (.ok (), sender) ∧
      ∀ rooms : List Nat, (∀ p ∈ puts ops, ∀ room ∈ rooms, p.length ≤ room) →
        DatalinkReader.reads R S passRead rooms
            (.new (.new bufLen) sender.codingWriter start) =
          ((puts ops ++ List.replicate rooms.length []).take rooms.length).map .ok

/-- Security disturbs none of the frames, each secured with the count that the one before
left. -/
inductive Clear (R : ReaderFormat) (crypto : CryptoProvider) (headerEnd : Nat) :
    SecurityAssociation → SecurityAssociation → List Bytes → Prop
  | nil (sender receiver : SecurityAssociation) : Clear R crypto headerEnd sender receiver []
  | cons {sender receiver next : SecurityAssociation} {frame : Bytes} {frames : List Bytes}
      (undisturbed : Undisturbed R crypto headerEnd sender receiver frame next)
      (rest : Clear R crypto headerEnd (sender.setSequenceNumber (sender.sequenceNumber + 1)) next
        frames) :
      Clear R crypto headerEnd sender receiver (frame :: frames)

variable {F : WriterFormat} {R : ReaderFormat} {crypto : CryptoProvider}
  {sender receiver : SecurityAssociation} {frames : List Bytes} {batches : List (List Bytes)}
  {headerEnd : Nat}

theorem startsAfter (config : FrameConfig) (hformat : config.headerEnd = some headerEnd) :
    config.writer.dataOffset = headerEnd ∧ config.writer.trailerLen = 0 ∧
      DatalinkReader.StartsAfter config.writer config.framing.reader := by
  cases config with
  | tc config =>
    cases hformat
    refine ⟨rfl, rfl, fun frame dataStart dataEnd h => ?_⟩
    have h : Tc.TcFrameReader.layout frame = .ok (dataStart, dataEnd) := h
    rw [Tc.TcFrameReader.layout] at h
    split at h
    · cases h
    · cases h
      exact Nat.le_refl _
  | tm config =>
    cases hformat
    refine ⟨rfl, rfl, fun frame dataStart dataEnd h => ?_⟩
    have h : Tm.TmFrameReader.layout frame = .ok (dataStart, dataEnd) := h
    rw [Tm.TmFrameReader.layout] at h
    split at h
    · cases h
    · cases h
      exact Nat.le_refl _
  | aos config => cases hformat
  | proximity1 config => cases hformat
  | uslp config => cases hformat

theorem header_le (config : FrameConfig) (hformat : config.headerEnd = some headerEnd)
    (hb : sender.Bounded) : headerEnd + sender.headerSize ≤ MASKED_AAD_SIZE := by
  have hend : headerEnd ≤ 6 := by
    cases config with
    | tc config =>
      cases hformat
      decide
    | tm config =>
      cases hformat
      decide
    | aos config => cases hformat
    | proximity1 config => cases hformat
    | uslp config => cases hformat
  obtain ⟨hiv, hsn, hpl, -⟩ := hb
  rw [MAX_IV_SIZE] at hiv
  rw [MAX_SN_SIZE] at hsn
  rw [MAX_PL_SIZE] at hpl
  rw [SecurityAssociation.headerSize, MASKED_AAD_SIZE]
  omega

theorem Seals.sized {σ ε : Type} {S : SecurityProcessor σ ε} {s next : σ} {sent : List Bytes}
    (hS : ReturnsLength S) (htrailer : F.trailerLen = 0) (h : Seals S s frames next sent)
    (hcarries : List.Forall₂ (Carries F R) frames batches) :
    List.Forall₂ (DatalinkReader.Sized F) sent batches := by
  induction h generalizing batches with
  | nil s =>
    cases hcarries
    exact .nil
  | cons happly _ ih =>
    cases hcarries with
    | cons hframe hrest =>
      have hlength := (hS _ _ _ _ _ happly).2.trans hframe.length
      rw [htrailer, Nat.add_zero] at hlength
      exact .cons ⟨hlength, hframe.pos, hframe.fits⟩ (ih hrest)

theorem sealed_and_opened_iff (hoffset : F.dataOffset = headerEnd) (htrailer : F.trailerLen = 0)
    (hcrypto : crypto.Inverse sender) (hb : sender.Bounded)
    (hroom : headerEnd + sender.headerSize ≤ MASKED_AAD_SIZE) (hpaired : Paired sender receiver)
    (hcarries : List.Forall₂ (Carries F R) frames batches) :
    (∃ next sent, Seals (SdlsProcessor crypto headerEnd) sender frames next sent ∧
        DatalinkReader.Opens F R (SdlsProcessor crypto headerEnd) receiver sent batches) ↔
      Clear R crypto headerEnd sender receiver frames := by
  induction hcarries generalizing sender receiver with
  | nil => exact iff_of_true ⟨sender, [], .nil sender, .nil receiver⟩ (.nil sender receiver)
  | @cons frame batch frames batches hframe hrest ih =>
    have hlength := hframe.length
    rw [hoffset, htrailer, Nat.add_zero] at hlength
    have hb' : (sender.setSequenceNumber (sender.sequenceNumber + 1)).Bounded :=
      ⟨hb.iv, hb.sn, hb.pl, hb.mac⟩
    have hnow : crypto.Reverses sender := hcrypto sender.sequenceNumber
    have hcrypto' : crypto.Inverse (sender.setSequenceNumber (sender.sequenceNumber + 1)) :=
      fun count => hcrypto count
    have hdata : frame.drop headerEnd = batch.flatten := by
      rw [← hframe.data, slice, hoffset, List.take_of_length_le]
      rw [List.length_drop, hlength]
      omega
    constructor
    · intro h
      obtain ⟨next, sent, hseals, hopens⟩ := h
      cases hseals with
      | @cons _ mid _ _ sealed _ _ sents happly hlater =>
        cases hopens with
        | @cons _ after _ opened _ _ _ _ hprocess hopened hcarries hopens =>
          have hmid := ((apply_ok_iff hb).1 happly).2.1
          have hsealed := (apply_length happly).2
          have hthrough :
              ComesThrough R crypto headerEnd sender receiver frame sealed mid after := by
            refine ⟨_, _, opened, happly, hprocess, hopened.trans hsealed, ?_, ?_⟩
            · rw [hdata, ← hcarries.data, slice, hoffset, List.take_of_length_le]
              rw [List.length_drop, hopened, hsealed, hlength]
              omega
            · rw [hcarries.layout, hoffset, hlength]
          have hclear := (comesThrough_iff hnow hb hroom hpaired).1 ⟨sealed, mid, hthrough⟩
          rw [hmid] at hlater
          have hlast := (ih hcrypto' hb' hroom (hclear.paired hpaired)).1 ⟨_, _, hlater, hopens⟩
          exact .cons hclear hlast
    · intro h
      cases h with
      | cons hclear hlast =>
        obtain ⟨next, sents, hlater, hopens⟩ :=
          (ih hcrypto' hb' hroom (hclear.paired hpaired)).2 hlast
        obtain ⟨sealed, mid, n, m, opened, happly, hprocess, hopened, hdrop, hlayout⟩ :=
          (comesThrough_iff hnow hb hroom hpaired).2 hclear
        have hmid := ((apply_ok_iff hb).1 happly).2.1
        have hsealed := (apply_length happly).2
        rw [← hmid] at hlater
        refine ⟨next, sealed :: sents, .cons happly hlater,
          .cons hprocess (hopened.trans hsealed.symm) ⟨?_, ?_, ?_, hframe.pos, hframe.fits⟩ hopens⟩
        · rw [hopened, hframe.length]
        · rw [hlayout, hoffset, hlength]
        · rw [slice, hoffset, hdrop, hdata,
            List.take_of_length_le (Nat.le_of_eq (length_flatten batch))]

/-- A secured link carries its packets exactly when security disturbs none of the frames that
the link would send without it. -/
theorem secured_link_delivers_iff {config : FrameConfig}
    (hformat : config.headerEnd = some headerEnd) (hids : config.InRange)
    (hlimit : ∀ limit ∈ config.lengthLimit, config.maxFrameLen ≤ limit) {bufLen : Nat}
    (hbuf : config.maxFrameLen ≤ min bufLen SCRATCH_SIZE) {sa : SecurityAssociation}
    (hsa : sa.Bounded) (hcrypto : crypto.Inverse sa) {ops : List (Op Bytes)}
    (hops : ∀ p ∈ puts ops, SpacePacket.Valid p ∧ p.length ≤ config.writer.maxDataLen) :
    Delivers config.writer config.framing.reader (SdlsProcessor crypto headerEnd) bufLen sa ops ↔
      Clear config.framing.reader crypto headerEnd sa sa
        (plainFrames config.writer bufLen (ops ++ [.flush])) := by
  obtain ⟨hoffset, htrailer, hstarts⟩ := startsAfter config hformat
  have hagree := config.agrees hids hlimit
  have hroom : config.maxFrameLen ≤ bufLen := Nat.le_trans hbuf (Nat.min_le_left ..)
  have hscratch : config.maxFrameLen ≤ SCRATCH_SIZE := Nat.le_trans hbuf (Nat.min_le_right ..)
  have hsizes : ∀ p ∈ puts ops, 0 < p.length ∧ p.length ≤ config.writer.maxDataLen :=
    fun p hp => ⟨(hops p hp).1.pos, (hops p hp).2⟩
  have hS : ReturnsLength (SdlsProcessor crypto headerEnd) := fun _ _ _ _ _ h => apply_length h
  obtain ⟨plain, batches, hrun, hcarries, hbatches⟩ :=
    DatalinkWriter.run_flushed hagree hroom hscratch hsizes
  have hframes : plainFrames config.writer bufLen (ops ++ [.flush]) = plain.codingWriter := by
    rw [plainFrames, hrun]
  have hkeeps := (DatalinkWriter.follows_new (SdlsProcessor crypto headerEnd) sa
    (.new config.writer bufLen)).run hS hagree hroom hscratch
      (DatalinkWriter.collects_new config.writer config.framing.reader bufLen)
      (by rw [puts_append]; exact fun p hp => hsizes p ((List.append_nil (puts ops)).subst hp)) hrun
  have hreads : ∀ {next sent}, Seals (SdlsProcessor crypto headerEnd) sa plain.codingWriter next
      sent → _ := fun hseals => DatalinkReader.reads_iff (s := sa)
        (process_length crypto headerEnd) hstarts htrailer hroom
        (hseals.sized hS htrailer hcarries) (by rw [hbatches]; exact hops)
  have hpaired : Paired sa sa := ⟨sa.sequenceNumber, rfl⟩
  rw [hframes, ← sealed_and_opened_iff hoffset htrailer hcrypto hsa (header_le config hformat hsa)
    hpaired hcarries, Delivers, ← hbatches]
  constructor
  · intro h
    obtain ⟨sender, hsend, hread⟩ := h
    rcases hkeeps with hfollows | hfails
    · obtain ⟨next, hnext, hfollows⟩ := hfollows
      rw [hsend] at hnext
      cases hnext
      exact ⟨_, _, hfollows.sent, (hreads hfollows.sent).1 hread⟩
    · obtain ⟨⟨fault, next, hfail⟩, -⟩ := hfails
      rw [hsend] at hfail
      cases hfail
  · intro h
    obtain ⟨next, sent, hseals, hopens⟩ := h
    rcases hkeeps with hfollows | hfails
    · obtain ⟨sender, hsend, hfollows⟩ := hfollows
      rw [(hfollows.sent.unique hseals).2] at hopens
      exact ⟨sender, hsend, (hreads hfollows.sent).2 hopens⟩
    · exact absurd hseals (hfails.2 next sent)

/-- A packet whose first octets are the index of the association, as the security header is. -/
theorem secured_link_delivers_its_index :
    Delivers (FrameConfig.tc ⟨1, 2, .typeB, .typeD, 64⟩).writer Framing.tc.reader
      (SdlsProcessor ClearModeCrypto 5) 128 blankAssociation [.put [0, 1, 192, 0, 0, 0, 7]] := by
  have hbounded : blankAssociation.Bounded := ⟨by decide, by decide, by decide, by decide⟩
  have hids : (FrameConfig.tc ⟨1, 2, .typeB, .typeD, 64⟩).InRange :=
    ⟨by decide, by decide⟩
  refine (secured_link_delivers_iff rfl hids (by decide) (by decide) hbounded
    (clearMode_inverse _) ?_).2 ?_
  · intro p hp
    rcases List.mem_singleton.1 hp with rfl
    exact ⟨⟨_, rfl, rfl⟩, by decide⟩
  · have hframes : plainFrames (FrameConfig.tc ⟨1, 2, .typeB, .typeD, 64⟩).writer 128
        ([.put [0, 1, 192, 0, 0, 0, 7]] ++ [.flush]) =
          [[32, 1, 8, 11, 0, 0, 1, 192, 0, 0, 0, 7]] := by decide +kernel
    rw [hframes]
    refine .cons ⟨⟨by decide, by decide⟩, by decide, by decide, [], [], 0, ?_, ?_, ?_, ?_, ?_, ?_⟩
      (.nil _ blankAssociation)
    · rfl
    · decide
    · rfl
    · rfl
    · exact fun _ => rfl
    · rfl

/-- The security header replaces the first octets of the packet. -/
theorem secured_link_overwrites :
    ¬ Delivers (FrameConfig.tc ⟨1, 2, .typeB, .typeD, 64⟩).writer Framing.tc.reader
      (SdlsProcessor ClearModeCrypto 5) 128 blankAssociation [.put [0, 0, 192, 0, 0, 0, 7]] := by
  intro h
  obtain ⟨sender, hrun, hreads⟩ := h
  have hroom : ∀ p ∈ puts [(Op.put [0, 0, 192, 0, 0, 0, 7] : Op Bytes)], ∀ room ∈ [64],
      p.length ≤ room := by
    decide
  have hsent := congrArg (fun result => result.2.codingWriter) hrun
  dsimp only at hsent
  have hread := congrArg (List.map Except.toOption) (hreads [64] hroom)
  rw [← hsent] at hread
  exact absurd hread (by decide +kernel)

end Datalink
end Leodos
