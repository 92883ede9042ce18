import Leodos.Memory.Cells
import Leodos.Transition.System
import Leodos.Reorder.Window
import Leodos.Spp.Sequence
import Leodos.Isl.Address
import Leodos.Srspp.SelectiveAck
import Leodos.Srspp.Receiver.Equivalence
import Leodos.Srspp.Receiver.Delivery
import Leodos.Srspp.Receiver.LiteAgreement
import Leodos.Srspp.Sender.Integrity
import Leodos.Srspp.Sender.Flight
import Leodos.Srspp.Tokio.Stranded
import Leodos.Container.LinearMap
import Leodos.Container.Ranges
import Leodos.Bits.Field
import Leodos.Spp.SpacePacket
import Leodos.Srspp.Wire
import Leodos.Srspp.Transmission
import Leodos.Srspp.Cfs.Sender
import Leodos.Srspp.Consistency
import Leodos.Srspp.Cfs.Reception
import Leodos.Srspp.Receiver.Acceptance
import Leodos.Srspp.Cfs.Separation
import Leodos.Srspp.Cfs.Endpoint
import Leodos.Srspp.Cfs.Quiet
import Leodos.Srspp.Cfs.Run
import Leodos.Srspp.Cfs.Isolation
import Leodos.Srspp.Cfs.Independence
import Leodos.Ring.Fifo
import Leodos.Cop1.Timer
import Leodos.Cop1.Initialisation
import Leodos.Cop1.Limits
import Leodos.Cop1.Accounting
import Leodos.Cop1.Transfer
import Leodos.Cfdp.Tracking
import Leodos.Cfdp.Checksum
import Leodos.Cfdp.Transaction
import Leodos.Cfdp.Receiver.Machine
import Leodos.Cfdp.Receiver.Effect
import Leodos.Cfdp.Receiver.Completion
import Leodos.Cfdp.Options
import Leodos.Cfdp.Receiver.Metadata
import Leodos.Cfdp.Receiver.Timers
import Leodos.Cfdp.Sender.Machine
import Leodos.Cfdp.Sender.Change
import Leodos.Cfdp.Sender.Driver
import Leodos.Cfdp.Sender.Drain
import Leodos.Cfdp.Sender.Forward
import Leodos.Cfdp.Exchange
import Leodos.Transition.Walk
import Leodos.Circle.Gap
import Leodos.Isl.Torus
import Leodos.Spp.Builder
import Leodos.Spp.Segmentation
import Leodos.Isl.Telecommand
import Leodos.Isl.Routing
import Leodos.Isl.Router.Machine
import Leodos.Isl.Router.Forwarding
import Leodos.Transition.Flood
import Leodos.Isl.Gossip.DuplicateFilter
import Leodos.Isl.Gossip.SlidingWindow
import Leodos.Isl.Gossip.Node
import Leodos.Isl.Gossip.Mesh
import Leodos.Isl.Gossip.Delivery
import Leodos.Bits.Endian
import Leodos.Datalink.Frame
import Leodos.Datalink.Framing.Tc
import Leodos.Datalink.Framing.Tm
import Leodos.Datalink.Framing.Aos
import Leodos.Datalink.Framing.Proximity1
import Leodos.Datalink.Framing.Uslp
import Leodos.Datalink.Link
import Leodos.Datalink.Sdls
import Leodos.Datalink.Reception
import Leodos.Datalink.Provenance
import Leodos.Packing.Batches
import Leodos.Datalink.Accumulation
import Leodos.Datalink.Extraction
import Leodos.Datalink.Plain
import Leodos.Datalink.Stamping
import Leodos.Datalink.Loss
import Leodos.Datalink.Scrubbing
import Leodos.Datalink.Residue
import Leodos.Bits.Assembly
import Leodos.Datalink.ExtendedProcedures
import Leodos.Spp.Encapsulation
import Leodos.Datalink.Headers
import Leodos.Datalink.Requests
import Leodos.Datalink.Recovery
import Leodos.Datalink.Protection
import Leodos.Datalink.Disturbance
import Leodos.Datalink.Replay
import Leodos.Datalink.Secured
import Leodos.Compression.Rice.Lossless
import Leodos.Compression.Ccsds123.Lossless
import Leodos.Srspp.Sender.Requests
import Leodos.Srspp.Receiver.Errors
import Leodos.Srspp.Receiver.SlotOwners
import Leodos.Srspp.Mailbox
import Leodos.Srspp.Tokio.Receiver
import Leodos.Srspp.EmptyMessages
import Leodos.Analysis.Frame
import Leodos.Analysis.Tiles
import Leodos.Analysis.Wire
import Leodos.Analysis.Coverage
import Leodos.Sle.Ber
import Leodos.Sle.Octets
import Leodos.Sle.Calls
import Leodos.Sle.Pdu
import Leodos.Sle.RoundTrip
import Leodos.Sle.Grammar
import Leodos.Sle.Reading
import Leodos.Sle.Strict
import Leodos.Datalink.KeyRing
import Leodos.Coding.Cltu
import Leodos.Coding.Cadu
import Leodos.Spacecomp.Unsigned
import Leodos.Coding.ReedSolomon.Interleaving
import Leodos.Coding.Convolutional.Decoding
import Leodos.Srspp.Receiver.Gaps
import Leodos.Isl.Aoi
import Leodos.Time.Cuc
import Leodos.Time.Cds
import Leodos.Spacecomp.Records
import Leodos.Memory.Columns
import Leodos.Compression.Iwt.Image
import Leodos.Analysis.Thermal
import Leodos.Forest.Ranked
import Leodos.Analysis.Cluster
import Leodos.Compression.Ccsds123.Scale
import Leodos.Compression.Ccsds122.Transform
import Leodos.Compression.Ccsds122.Codec
import Leodos.Coding.Pipeline
