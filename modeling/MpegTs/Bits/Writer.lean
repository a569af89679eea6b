import MpegTs.Bits.Basic

/-!
# Bit writer

A `BitWriter` collects bits, most significant first; `toBytes` packs them into bytes and
pads the last one with zero bits. Every write takes the low bits of its value that fit the
field, so no write fails. Each write appends one of the bit strings of `MpegTs.Bits.Basic`.

* `writeBits n v` appends the low `n` bits of `v`; `writeFlag`, `writeU8` … `writeU32`,
  `writeBytes` and `writeStuffing` are its usual shapes.
* `writeUe`, `writeSe` write Exp-Golomb codes, the inverses of the cursor's `readUe`, `readSe`.
* `writeTimestamp p t` writes a 4-bit prefix and the marker-split 33-bit time `t`.
-/

namespace MpegTs

/-- Bits written so far, in order. -/
structure BitWriter where
  bits : Array Bool := #[]
  deriving Repr, DecidableEq, Inhabited

namespace BitWriter

/-- Bytes written, a partly filled last byte counted whole. -/
def byteLen (w : BitWriter) : Nat := (w.bits.size + 7) / 8

/-- The bits written so far fill whole bytes. -/
def isByteAligned (w : BitWriter) : Bool := w.bits.size % 8 == 0

/-- Appends a bit string. -/
def append (w : BitWriter) (bs : List Bool) : BitWriter := ⟨w.bits ++ bs.toArray⟩

/-- Appends the low `n` bits of `v`. -/
def writeBits (w : BitWriter) (n v : Nat) : BitWriter := w.append (natBits n v)

/-- Appends one bit. -/
def writeFlag (w : BitWriter) (b : Bool) : BitWriter := w.append [b]

/-- Appends an 8-bit field. -/
def writeU8 (w : BitWriter) (v : Nat) : BitWriter := w.writeBits 8 v

/-- Appends a 16-bit field. -/
def writeU16 (w : BitWriter) (v : Nat) : BitWriter := w.writeBits 16 v

/-- Appends a 32-bit field. -/
def writeU32 (w : BitWriter) (v : Nat) : BitWriter := w.writeBits 32 v

/-- Appends whole bytes, at any bit offset. -/
def writeBytes (w : BitWriter) (bytes : List UInt8) : BitWriter := w.append (bitsOf bytes)

/-- Appends `count` copies of one byte. -/
def writeStuffing (w : BitWriter) (byte count : Nat) : BitWriter :=
  w.append (List.replicate count (natBits 8 byte)).flatten

/-- Appends the unsigned Exp-Golomb code of `v`. -/
def writeUe (w : BitWriter) (v : Nat) : BitWriter := w.append (ueBits v)

/-- Appends the signed Exp-Golomb code of `v`. -/
def writeSe (w : BitWriter) (v : Int) : BitWriter := w.append (seBits v)

/-- Appends a marker-split 33-bit time. -/
def writeMarkedTimestamp (w : BitWriter) (t : Nat) : BitWriter :=
  w.append (markedTimestampBits t)

/-- Appends a 4-bit prefix and a marker-split 33-bit time. -/
def writeTimestamp (w : BitWriter) (pfx t : Nat) : BitWriter := w.append (timestampBits pfx t)

/-- The bytes written, the last one padded with zero bits. -/
def toBytes (w : BitWriter) : List UInt8 := packBits w.bits.toList

end BitWriter

end MpegTs
