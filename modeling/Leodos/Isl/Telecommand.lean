/-
Routable telecommands, `network/cfe/tc.rs` and `network/isl/routing/packet.rs`.

A telecommand is a Space Packet with a secondary header of two octets; a routable one
begins its payload with the two octets of the target address.
-/
import Leodos.Spp.SpacePacket
import Leodos.Srspp.Wire

namespace Leodos
namespace Isl

open Spp
open Srspp (TelecommandSecondaryHeader IslRoutingTelecommandHeader)

inductive TelecommandError where
  | spacePacketParseError (error : ParseError)
  | missingSecondaryHeader
  | payloadMismatch
  | typeMismatch
  deriving DecidableEq, Repr

structure Telecommand where
  primary : PrimaryHeader
  secondary : TelecommandSecondaryHeader
  payload : Bytes
  deriving DecidableEq, Repr

namespace Telecommand

def tryFrom (packet : SpacePacket) : Except TelecommandError Telecommand :=
  if packet.primaryHeader.secondaryHeaderFlag ≠ .present then .error .missingSecondaryHeader
  else
    match packet.primaryHeader.packetType, packet.dataField with
    | .telecommand, functionCode :: checksum :: payload =>
      .ok ⟨packet.primaryHeader, ⟨functionCode, checksum⟩, payload⟩
    | .telecommand, _ => .error .payloadMismatch
    | .telemetry, _ => .error .typeMismatch

def parse (bytes : Bytes) : Except TelecommandError Telecommand :=
  match SpacePacket.parse bytes with
  | .error e => .error (.spacePacketParseError e)
  | .ok packet => tryFrom packet

end Telecommand

inductive IslMessageError where
  | cfe (error : TelecommandError)
  | payloadTooSmall
  deriving DecidableEq, Repr

structure IslRoutingTelecommand where
  primary : PrimaryHeader
  secondary : TelecommandSecondaryHeader
  islHeader : IslRoutingTelecommandHeader
  payload : Bytes
  deriving DecidableEq, Repr

namespace IslRoutingTelecommand

def fromTelecommand (tc : Telecommand) : Except IslMessageError IslRoutingTelecommand :=
  match tc.payload with
  | groundOrOrb :: stationOrSat :: payload =>
    .ok ⟨tc.primary, tc.secondary, ⟨⟨groundOrOrb, stationOrSat⟩⟩, payload⟩
  | _ => .error .payloadTooSmall

def parse (bytes : Bytes) : Except IslMessageError IslRoutingTelecommand :=
  match Telecommand.parse bytes with
  | .error e => .error (.cfe e)
  | .ok tc => fromTelecommand tc

def target (packet : IslRoutingTelecommand) : Address := packet.islHeader.target.parse

end IslRoutingTelecommand

end Isl
end Leodos
