/-!
# CRC-32/MPEG-2

The checksum that closes every PSI section: generator polynomial `0x04C11DB7`, register
preset to all ones, bits taken most significant first, no reflection and no final XOR.

* `Crc.shift` moves the register one bit on, `Crc.step` feeds one byte (eight shifts).
* `Crc.update c bytes` continues a running register over `bytes`: it is a left fold of
  `step`, so feeding `a ++ b` is feeding `a` and then `b`.
* `Crc.checksum bytes` starts from `Crc.init` and finalises; a section followed by its own
  big-endian checksum checks to zero.
-/

namespace MpegTs

namespace Crc

/-- The generator polynomial without its leading `x^32` term. -/
def poly : UInt32 := 0x04C11DB7

/-- The register before any byte is fed. -/
def init : UInt32 := 0xFFFFFFFF

/-- One bit of polynomial division: shift left and subtract the generator when a one
falls out of the top. -/
def shift (c : UInt32) : UInt32 :=
  if c &&& 0x80000000 = 0 then c <<< 1 else (c <<< 1) ^^^ poly

/-- Feeds one byte, most significant bit first. -/
def step (c : UInt32) (b : UInt8) : UInt32 :=
  Nat.repeat shift 8 (c ^^^ (b.toUInt32 <<< 24))

/-- Continues a running register over a byte string. -/
def update (c : UInt32) (bytes : List UInt8) : UInt32 :=
  bytes.foldl step c

/-- The checksum of a finished register; this CRC has no final XOR. -/
def finalize (c : UInt32) : UInt32 := c

/-- The checksum of a byte string. -/
def checksum (bytes : List UInt8) : UInt32 :=
  finalize (update init bytes)

theorem update_append (c : UInt32) (a b : List UInt8) :
    update c (a ++ b) = update (update c a) b := by
  simp [update, List.foldl_append]

end Crc

end MpegTs
