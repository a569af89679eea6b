/-!
# Fixed-width numerals

Messages of this library print PIDs, table IDs, stream types and checksums as `0x`-prefixed
upper-case hexadecimal padded to the width of the field, and a two-bit marker in binary.

* `padDigits w ds` pads a digit list on the left with `'0'` to at least `w` characters.
* `hexUpper w n` and `binary w n` are the two numerals used in messages, and `decimal w n`
  the one of dates and times.
* `byteHex b` is the two lower-case digits of a byte, and `bytesHex` concatenates them.
* `hexPreview bytes` shows the first sixteen bytes as spaced upper-case pairs.
-/

namespace MpegTs

/-- Left-pads a digit list with `'0'` so that it has at least `w` characters. -/
def padDigits (w : Nat) (ds : List Char) : String :=
  String.ofList (List.replicate (w - ds.length) '0' ++ ds)

/-- Upper-case hexadecimal of `n` with at least `w` digits. -/
def hexUpper (w n : Nat) : String :=
  padDigits w ((Nat.toDigits 16 n).map Char.toUpper)

/-- Binary numeral of `n` with at least `w` digits. -/
def binary (w n : Nat) : String :=
  padDigits w (Nat.toDigits 2 n)

/-- Decimal numeral of `n` with at least `w` digits. -/
def decimal (w n : Nat) : String :=
  padDigits w (Nat.toDigits 10 n)

/-- The two lower-case hexadecimal digits of a byte. -/
def byteHex (b : UInt8) : String :=
  padDigits 2 (Nat.toDigits 16 b.toNat)

/-- Lower-case hexadecimal of a byte string, two digits a byte and no separators. -/
def bytesHex (bytes : List UInt8) : String :=
  String.join (bytes.map byteHex)

/-- The first sixteen bytes as upper-case pairs separated by single spaces. -/
def hexPreview (bytes : List UInt8) : String :=
  " ".intercalate ((bytes.take 16).map fun b => hexUpper 2 b.toNat)

end MpegTs
