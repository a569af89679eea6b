/-!
# Bit strings of bytes and numbers

Every field of a transport stream is a run of bits, most significant first. This module
fixes the two views that the cursor and the writer share:

* `byteBits b` and `bitsOf bytes`: the bits of a byte string, most significant bit of the
  first byte first;
* `natBits n v` and `natOfBits bs`: the low `n` bits of a number and the number spelled by
  a bit string;
* `packBits bs`: bytes holding a bit string, the last one padded with zero bits;
* `ueBits`, `seBits`, `markedTimestampBits`: the bit strings of Exp-Golomb codes and of
  marker-split 33-bit times, shared by the writer and the field encoders.
-/

namespace MpegTs

/-- The eight bits of a byte, most significant first. -/
def byteBits (b : UInt8) : List Bool :=
  (List.range 8).map fun i => b.toNat.testBit (7 - i)

/-- The bits of a byte string, most significant bit of the first byte first. -/
def bitsOf (bytes : List UInt8) : List Bool :=
  bytes.flatMap byteBits

/-- The number whose binary digits, most significant first, are `bs`. -/
def natOfBits (bs : List Bool) : Nat :=
  bs.foldl (fun acc b => 2 * acc + b.toNat) 0

/-- The low `n` bits of `v`, most significant first; higher bits are dropped. -/
def natBits (n v : Nat) : List Bool :=
  (List.range n).map fun i => v.testBit (n - 1 - i)

/-- The byte whose bits, most significant first, are the first eight of `bs`, with missing
bits taken as zero. -/
def byteOfBits (bs : List Bool) : UInt8 :=
  UInt8.ofNat (natOfBits (bs ++ List.replicate (8 - bs.length) false))

/-- Bytes that hold a bit string, the last byte padded with zero bits. -/
def packBits : List Bool → List UInt8
  | b0 :: b1 :: b2 :: b3 :: b4 :: b5 :: b6 :: b7 :: rest =>
    byteOfBits [b0, b1, b2, b3, b4, b5, b6, b7] :: packBits rest
  | [] => []
  | bs@(_ :: _) => [byteOfBits bs]

/-- The `n` bits that start at bit `start` of a byte string, computed from the bytes that
hold them only. -/
def bitWindow (bytes : List UInt8) (start n : Nat) : List Bool :=
  ((bitsOf ((bytes.drop (start / 8)).take ((start % 8 + n + 7) / 8))).drop (start % 8)).take n

/-- The unsigned Exp-Golomb code of `v`: as many zeros as `v + 1` has bits after its leading
one, then `v + 1` itself. -/
def ueBits (v : Nat) : List Bool :=
  let len := Nat.log2 (v + 1) + 1
  natBits (len - 1) 0 ++ natBits len (v + 1)

/-- The unsigned code number of a signed Exp-Golomb value, taken modulo `2^32`: positive
`v` maps to `2v - 1`, the others to `-2v`. -/
def seCodeNum (v : Int) : Nat :=
  (if 0 < v then 2 * v - 1 else -2 * v).toNat % 0x100000000

/-- The signed Exp-Golomb code of `v`. -/
def seBits (v : Int) : List Bool := ueBits (seCodeNum v)

/-- A 33-bit time split as 3, marker, 15, marker, 15, marker bits; markers are ones. -/
def markedTimestampBits (t : Nat) : List Bool :=
  natBits 3 (t >>> 30) ++ [true] ++ natBits 15 (t >>> 15) ++ [true] ++ natBits 15 t ++ [true]

/-- A 4-bit prefix followed by a marker-split 33-bit time. -/
def timestampBits (pfx t : Nat) : List Bool :=
  natBits 4 pfx ++ markedTimestampBits t

end MpegTs
