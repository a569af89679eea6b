import MpegTs.Bits.Cursor

/-!
# Transport packet header

The four bytes that open every 188-byte transport packet: the sync byte `0x47`, three
flags, the 13-bit PID, scrambling control, adaptation field control and the continuity
counter.

* `TsHeader.read` decodes them, refusing a wrong sync byte and a packet flagged with an
  uncorrectable transport error (after its PID is known, so the message can name it).
* `TsHeader.bits` encodes them, each field cut to its width.
-/

namespace MpegTs

/-- Size of a transport packet in bytes. -/
def packetSize : Nat := 188

/-- Bytes after the four-byte packet header. -/
def packetBodySize : Nat := 184

/-- The byte that opens every transport packet. -/
def syncByte : Nat := 0x47

/-- The fixed header of a transport packet. -/
structure TsHeader where
  transportError : Bool := false
  payloadStart : Bool := false
  priority : Bool := false
  pid : Nat := 0
  scrambling : Nat := 0
  adaptationControl : Nat := 0
  continuity : Nat := 0
  deriving Repr, DecidableEq, Inhabited

namespace TsHeader

/-- The packet carries an adaptation field (high bit of the adaptation field control). -/
def hasAdaptationField (h : TsHeader) : Bool := h.adaptationControl.testBit 1

/-- The packet carries a payload (low bit of the adaptation field control). -/
def hasPayload (h : TsHeader) : Bool := h.adaptationControl.testBit 0

open BitRead in
/-- Decodes a packet header. -/
def read : BitRead TsHeader := do
  let sync ← readU8
  if sync ≠ syncByte then throw (.invalidSyncByte sync)
  let transportError ← readFlag
  let payloadStart ← readFlag
  let priority ← readFlag
  let pid ← readBits 13
  if transportError then throw (.transportError pid)
  let scrambling ← readBits 2
  let adaptationControl ← readBits 2
  let continuity ← readBits 4
  return { transportError, payloadStart, priority, pid, scrambling, adaptationControl,
           continuity }

/-- Encodes a packet header. -/
def bits (h : TsHeader) : List Bool :=
  natBits 8 syncByte ++ [h.transportError, h.payloadStart, h.priority] ++ natBits 13 h.pid ++
    natBits 2 h.scrambling ++ natBits 2 h.adaptationControl ++ natBits 4 h.continuity

end TsHeader

end MpegTs
