/-
Plain links carry packets unchanged.

The writer of each format and its reader agree on where the data field is, so what the writer
collects in frames is what the reader takes out of them.  How the packets are split over the
frames does not matter.
-/
import Leodos.Datalink.Extraction
import Leodos.Datalink.Reception

namespace Leodos
namespace Datalink

open Packing Spp

/-- The writers of a link. -/
inductive FrameConfig where
  | tc (config : Tc.TcFrameWriterConfig)
  | tm (config : Tm.TmFrameWriterConfig)
  | aos (config : Aos.AosFrameWriterConfig)
  | proximity1 (config : Proximity1.Prox1FrameWriterConfig)
  | uslp (config : Uslp.UslpFrameWriterConfig)

namespace FrameConfig

def writer : FrameConfig → WriterFormat
  | tc config => Tc.TcFrameWriter.format config
  | tm config => Tm.TmFrameWriter.format config
  | aos config => Aos.AosFrameWriter.format config
  | proximity1 config => Proximity1.Prox1FrameWriter.format config
  | uslp config => Uslp.UslpFrameWriter.format config

/-- The reader at the other end is set up for the same insert zone and error control field. -/
def framing : FrameConfig → Framing
  | tc _ => .tc
  | tm _ => .tm
  | aos _ => .aos
  | proximity1 _ => .proximity1
  | uslp config => .uslp config.insertZoneLen config.fecfPresent

def InRange : FrameConfig → Prop
  | tc config => config.InRange
  | tm config => config.InRange
  | aos config => config.InRange
  | proximity1 config => config.InRange
  | uslp config => config.InRange

def maxFrameLen (config : FrameConfig) : Nat :=
  config.writer.dataOffset + config.writer.maxDataLen + config.writer.trailerLen

/-- The longest frame that the length field of the format can announce, if it has one. -/
def lengthLimit : FrameConfig → Option Nat
  | tc _ => some (Tc.TelecommandTransferFrame.HEADER_SIZE +
      Tc.TelecommandTransferFrame.MAX_DATA_FIELD_LEN)
  | tm _ => none
  | aos _ => none
  | proximity1 _ => some (Proximity1.Proximity1TransferFrame.HEADER_SIZE +
      Proximity1.MAX_DATA_FIELD_LEN)
  | uslp _ => some Uslp.UslpTransferFrame.MAX_FRAME_SIZE

theorem agrees {config : FrameConfig} (hids : config.InRange)
    (hlimit : ∀ limit ∈ config.lengthLimit, config.maxFrameLen ≤ limit) :
    Agrees config.writer config.framing.reader := by
  cases config with
  | tc config => exact Tc.agrees hids (Nat.le_of_add_le_add_left (hlimit _ rfl))
  | tm config => exact Tm.agrees hids
  | aos config => exact Aos.agrees hids
  | proximity1 config =>
    exact Proximity1.agrees hids (Nat.le_of_add_le_add_left (hlimit _ rfl))
  | uslp config =>
    apply Uslp.agrees hids
    rw [Nat.add_assoc _ (Uslp.ocfLen _)]
    exact hlimit _ rfl

end FrameConfig

/-- The packets written before the last flush are read in order, each once, and nothing else. -/
theorem plain_link_carries {config : FrameConfig} (hids : config.InRange)
    (hlimit : ∀ limit ∈ config.lengthLimit, config.maxFrameLen ≤ limit) {bufLen : Nat}
    (hbuf : config.maxFrameLen ≤ min bufLen SCRATCH_SIZE) {ops : List (Op Bytes)}
    (hops : ∀ p ∈ puts ops, SpacePacket.Valid p ∧ p.length ≤ config.writer.maxDataLen)
    {rooms : List Nat} (hrooms : ∀ p ∈ puts ops, ∀ room ∈ rooms, p.length ≤ room) :
    ∃ sender : DatalinkWriter config.writer Unit (List Bytes),
      DatalinkWriter.run (NoSecurity : SecurityProcessor Unit Empty) passWrite (ops ++ [.flush])
          (.new (.new config.writer bufLen) [] ()) = (.ok (), sender) ∧
        DatalinkReader.reads config.framing.reader (NoSecurity : SecurityProcessor Unit Empty)
            passRead rooms (.new (.new bufLen) sender.codingWriter ()) =
          ((puts ops ++ List.replicate rooms.length []).take rooms.length).map .ok := by
  have hagree := config.agrees hids hlimit
  have hroom : config.maxFrameLen ≤ bufLen := Nat.le_trans hbuf (Nat.min_le_left ..)
  have hscratch : config.maxFrameLen ≤ SCRATCH_SIZE := Nat.le_trans hbuf (Nat.min_le_right ..)
  obtain ⟨sender, batches, hrun, hcarries, hbatches⟩ :=
    DatalinkWriter.run_flushed hagree hroom hscratch
      fun p hp => ⟨(hops p hp).1.pos, (hops p hp).2⟩
  refine ⟨sender, hrun, ?_⟩
  have hoffers := DatalinkReader.offers_new bufLen (DatalinkReader.opens_plain hcarries)
  rw [hoffers.reads hroom, List.nil_append, hbatches]
  intro p hp
  rw [List.nil_append, hbatches] at hp
  exact ⟨(hops p hp).1, hrooms p hp⟩

/-- Two packets of seven octets, in two frames of a telecommand link. -/
theorem plain_link_carries_two :
    ∃ sender : DatalinkWriter (FrameConfig.tc ⟨1, 2, .typeB, .typeD, 64⟩).writer Unit (List Bytes),
      DatalinkWriter.run (NoSecurity : SecurityProcessor Unit Empty) passWrite
          ([.put [0, 0, 192, 0, 0, 0, 7], .flush, .put [0, 0, 192, 1, 0, 0, 8]] ++ [.flush])
          (.new (.new _ 128) [] ()) = (.ok (), sender) ∧
        DatalinkReader.reads Framing.tc.reader (NoSecurity : SecurityProcessor Unit Empty)
            passRead [16, 16, 16] (.new (.new 128) sender.codingWriter ()) =
          [.ok [0, 0, 192, 0, 0, 0, 7], .ok [0, 0, 192, 1, 0, 0, 8], .ok []] := by
  apply plain_link_carries
  · exact ⟨by decide, by decide⟩
  · decide
  · decide
  · intro p hp
    rcases List.mem_cons.1 hp with rfl | hp
    · exact ⟨⟨_, rfl, rfl⟩, by decide⟩
    · rcases List.mem_singleton.1 hp with rfl
      exact ⟨⟨_, rfl, rfl⟩, by decide⟩
  · decide

end Datalink
end Leodos
