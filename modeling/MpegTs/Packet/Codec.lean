import MpegTs.Packet.Header
import MpegTs.Packet.AdaptationField

/-!
# Transport packets

A transport packet is a header, an optional adaptation field and an optional payload, 188
bytes in all.

* `TsPacket.parse` decodes the first 188 bytes of its input: the header, the adaptation
  field when the header announces one, and the rest of the packet as payload when the
  header announces one (possibly empty).
* `TsPacket.write` encodes a packet of exactly 188 bytes. It derives the adaptation field
  control from what is present, clears the transport error flag, and fills the space the
  payload leaves with an adaptation field, a default one when none is given.
-/

namespace MpegTs

/-- A transport packet. -/
structure TsPacket where
  header : TsHeader
  adaptationField : Option AdaptationField := none
  payload : Option (List UInt8) := none
  deriving Repr, DecidableEq, Inhabited

namespace TsPacket

open BitRead in
/-- Decodes header, adaptation field and payload from a packet's bytes. -/
def body : BitRead TsPacket := do
  let header ← TsHeader.read
  let adaptationField ← readIf header.hasAdaptationField do
    let available := (← get).bytesRemaining
    AdaptationField.read available
  let payload ← readIf header.hasPayload remainingSlice
  return { header, adaptationField, payload }

/-- Decodes the first 188 bytes of `data` as a transport packet. -/
def parse (data : List UInt8) : Except Error TsPacket :=
  if data.length < packetSize then .error (.truncatedPacket packetSize data.length)
  else body.runOn (data.take packetSize)

/-- The packet's PID. -/
def pid (p : TsPacket) : Nat := p.header.pid

/-- The PCR of the packet's adaptation field, if any. -/
def pcr (p : TsPacket) : Option Pcr := p.adaptationField.bind (·.pcr)

/-- The adaptation field a written packet carries: the given one, else a default one
whenever the payload leaves room. -/
def writtenField (p : TsPacket) (room : Nat) : Option AdaptationField :=
  match p.adaptationField with
  | some af => some af
  | none => if room = 0 then none else some {}

/-- Encodes a packet as exactly 188 bytes. -/
def write (p : TsPacket) : Except Error (List UInt8) := do
  let payload := p.payload.getD []
  if packetBodySize < payload.length then
    throw (.outOfData (payload.length * 8) (packetBodySize * 8))
  let room := packetBodySize - payload.length
  let af := p.writtenField room
  let header := { p.header with
    transportError := false
    adaptationControl := (if af.isSome then 2 else 0) + (if p.payload.isSome then 1 else 0) }
  let afBits ← match af with
    | none => pure []
    | some af =>
      if room < 1 + af.minLength then throw (.adaptationFieldOverflow af.minLength (room - 1))
      else pure (af.bits (room - 1))
  return packBits (header.bits ++ afBits ++ bitsOf payload)

end TsPacket

end MpegTs
