import MpegTs.Bits.Basic
import MpegTs.Error

/-!
# Bit cursor

A `BitCursor` is a read position over a byte string, counted in bits from the most
significant bit of the first byte. Readers are computations in `BitRead`, a state-and-error
monad over the cursor: a reader that fails still hands back the cursor as the failure left
it, so a sequence of reads shows how far it got.

* Fixed-width reads (`readBits`, `readFlag`, `readU8` … `readU64`) succeed exactly when
  enough bits remain, and then advance by their width; otherwise they fail with
  `outOfData` and leave the position alone.
* `readBytes`, `remainingSlice` need a byte boundary; `skipBits`, `skipBytes` move on, by
  fewer than `2^32` bits at a time.
* `readUe`, `readSe` decode Exp-Golomb codes; `readTimestamp` a marker-split 33-bit time.
* `BitRead.runOn` runs a reader over a byte string of its own, as for a length-prefixed
  block inside a larger structure.

Besides its position the cursor keeps the reader's one-byte window: `window` counts the
bits of the current byte that the reader has fetched but not handed out, and the cursor is
on a byte boundary when the window is empty. A successful read leaves exactly the rest of
the current byte in the window. Two failures leave it otherwise, and the position alone:

* a failing read whose missing bits are whole bytes beyond the window has emptied the
  window before it found the bytes missing;
* a prefix scan of an Exp-Golomb code that runs off the end has fetched every remaining
  byte into the window, and keeps a full window whenever it fetched one.
-/

namespace MpegTs

/-- A bit position over a byte string, with the number of bits of the current byte held in
the reader's window. -/
structure BitCursor where
  bytes : List UInt8
  consumed : Nat := 0
  window : Nat := 0
  deriving Repr, DecidableEq, Inhabited

/-- Readers over a bit cursor that may fail with an `Error`. -/
abbrev BitRead := EStateM Error BitCursor

namespace BitCursor

/-- A cursor at the first bit of `bytes`. -/
def ofBytes (bytes : List UInt8) : BitCursor := { bytes }

/-- The byte that holds the next bit. -/
def position (c : BitCursor) : Nat := c.consumed / 8

/-- Bits not yet read. -/
def bitsRemaining (c : BitCursor) : Nat := c.bytes.length * 8 - c.consumed

/-- Bytes from the current one to the end, a partly read byte included. -/
def bytesRemaining (c : BitCursor) : Nat := c.bytes.length - c.position

/-- The read window holds nothing, so the next bit starts a byte. -/
def isByteAligned (c : BitCursor) : Bool := c.window == 0

/-- The bits of the current byte left after `consumed` bits: none on a byte boundary. -/
def windowAfter (consumed : Nat) : Nat := (8 - consumed % 8) % 8

/-- The cursor moved `n` bits on, the window holding the rest of the current byte. -/
def advance (c : BitCursor) (n : Nat) : BitCursor :=
  { c with consumed := c.consumed + n, window := windowAfter (c.consumed + n) }

/-- The cursor after a read of `n` bits that ran out: when the bits missing beyond the
window are whole bytes, the window was emptied before the bytes were found missing. -/
def afterShortRead (c : BitCursor) (n : Nat) : BitCursor :=
  if c.window < n ∧ (n - c.window) % 8 = 0 then { c with window := 0 } else c

end BitCursor

namespace BitRead

/-- Fails with a cursor fault, leaving the cursor as it is. -/
def fault {α : Type} (f : ReadFault) : BitRead α := throw (.read f)

/-- Reads `n` bits as a number, most significant first. -/
def readBits (n : Nat) : BitRead Nat := fun c =>
  if n ≤ c.bitsRemaining then
    .ok (natOfBits (bitWindow c.bytes c.consumed n)) (c.advance n)
  else
    .error (.read (.outOfData n c.bitsRemaining)) (c.afterShortRead n)

/-- What `readBits n` would return, without moving the cursor. -/
def peekBits (n : Nat) : BitRead Nat := fun c =>
  match readBits n c with
  | .ok v _ => .ok v c
  | .error e _ => .error e c

/-- Reads one bit as a flag. -/
def readFlag : BitRead Bool := do
  let v ← readBits 1
  return v == 1

/-- Reads an 8-bit field. -/
def readU8 : BitRead Nat := readBits 8

/-- Reads a 16-bit field. -/
def readU16 : BitRead Nat := readBits 16

/-- Reads a 24-bit field. -/
def readU24 : BitRead Nat := readBits 24

/-- Reads a 32-bit field. -/
def readU32 : BitRead Nat := readBits 32

/-- Reads a 64-bit field. -/
def readU64 : BitRead Nat := readBits 64

/-- Moves on `n` bits, failing when fewer remain. The reader skips by a 32-bit count, so a
skip of `2^32` bits or more fails the same way even when the bits are there. -/
def skipBits (n : Nat) : BitRead Unit := fun c =>
  if n ≤ c.bitsRemaining ∧ n < 0x100000000 then .ok () (c.advance n)
  else .error (.read (.outOfData n c.bitsRemaining)) c

/-- Moves on `n` whole bytes. -/
def skipBytes (n : Nat) : BitRead Unit := skipBits (8 * n)

/-- Reads the next `n` bytes; the cursor must stand on a byte boundary. The bytes are cut
from the byte string and then skipped with `skipBits`, which may still refuse them. -/
def readBytes (n : Nat) : BitRead (List UInt8) := fun c =>
  if !c.isByteAligned then .error (.read .unaligned) c
  else if c.position + n ≤ c.bytes.length then
    ((fun _ => (c.bytes.drop c.position).take n) <$> skipBits (8 * n)) c
  else .error (.read (.outOfData (8 * n) c.bitsRemaining)) c

/-- All bytes from the current one to the end, without moving; needs a byte boundary. -/
def remainingSlice : BitRead (List UInt8) := fun c =>
  if c.isByteAligned then .ok (c.bytes.drop c.position) c
  else .error (.read .unaligned) c

/-- The bits from the cursor to the end. -/
def restBits (c : BitCursor) : List Bool :=
  (bitsOf (c.bytes.drop c.position)).drop (c.consumed % 8)

/-- Counts the zero bits before the next one bit and moves past that one bit. Without a one
bit before the end, fails asking for one bit more than remain; the window is then full if
any byte beyond it was fetched. -/
def scanPrefix : BitRead Nat := fun c =>
  match (restBits c).findIdx? id with
  | some z => .ok z (c.advance (z + 1))
  | none =>
    .error (.read (.outOfData (c.bitsRemaining + 1) c.bitsRemaining))
      { c with window := if c.window < c.bitsRemaining then 8 else c.window }

/-- Reads with `r` when `present` is set; without it nothing is read and the field is
absent. -/
def readIf {α : Type} (present : Bool) (r : BitRead α) : BitRead (Option α) :=
  if present then some <$> r else pure none

/-- Decodes an unsigned Exp-Golomb code `ue(v)`: `z` zeros, a one, then `z` bits `s`, for
the value `2^z - 1 + s`. More than 31 zeros overflow a 32-bit value. -/
def readUe : BitRead Nat := do
  let z ← scanPrefix
  if 31 < z then fault (.expGolombOverflow z)
  let s ← readBits z
  return (1 <<< z) - 1 + s

/-- Decodes a signed Exp-Golomb code `se(v)`: odd codes are positive, even ones are zero or
negative, and the value wraps into 32-bit two's complement. -/
def readSe : BitRead Int := do
  let k ← readUe
  let v : Int := if k % 2 = 1 then ((k + 1) / 2 : Nat) else -((k / 2 : Nat) : Int)
  return Int.bmod v 0x100000000

/-- Reads a 33-bit 90 kHz timestamp split as 3, marker, 15, marker, 15, marker bits. -/
def readTimestamp : BitRead Nat := do
  let high ← readBits 3
  skipBits 1
  let mid ← readBits 15
  skipBits 1
  let low ← readBits 15
  skipBits 1
  return (high <<< 30) + (mid <<< 15) + low

/-- The outcome of a reader run over a cursor of its own on `bytes`. -/
def runOn {α : Type} (r : BitRead α) (bytes : List UInt8) : Except Error α :=
  match r.run (BitCursor.ofBytes bytes) with
  | .ok a _ => .ok a
  | .error e _ => .error e

/-- Reads an `n`-byte block and decodes it with `r` on a cursor of its own. -/
def within {α : Type} (n : Nat) (r : BitRead α) : BitRead α := do
  let block ← readBytes n
  MonadExcept.ofExcept (r.runOn block)

end BitRead

end MpegTs
