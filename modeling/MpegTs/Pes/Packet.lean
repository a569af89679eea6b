import MpegTs.Pes.Header

/-!
# PES packets

A PES packet as it starts a unit of transport payload: its header and the bytes after it
that this buffer holds.

* `PesPacket.parse` decodes the header and keeps the rest as payload; running out of bytes
  inside the header is reported as a truncated header.
* `PesPacket.write` encodes a header followed by a payload.
-/

namespace MpegTs

/-- A PES header and the payload bytes that follow it in one buffer. -/
structure PesPacket where
  header : PesHeader
  payload : List UInt8
  deriving Repr, DecidableEq, Inhabited

namespace PesPacket

/-- A header read that ran out of bytes is a truncated header; other faults stay. -/
def truncatedHeader : Error → Error
  | .read (.outOfData n a) => .pesHeaderMalformed (.truncated n a)
  | e => e

/-- Decodes a PES packet from the start of `data`. -/
def parse (data : List UInt8) : Except Error PesPacket :=
  match PesHeader.read.run (BitCursor.ofBytes data) with
  | .error e _ => .error (truncatedHeader e)
  | .ok header c => .ok ⟨header, data.drop c.position⟩

/-- Encodes a header followed by a payload. -/
def write (header : PesHeader) (payload : List UInt8) : List UInt8 :=
  packBits (header.bits ++ bitsOf payload)

end PesPacket

end MpegTs
