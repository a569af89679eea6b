/-!
# Lossy UTF-8 decoding

`Utf8.decodeLossy` turns bytes into characters, replacing every maximal ill-formed
subsequence by U+FFFD, the practice the Unicode standard recommends: a lead byte with the
continuation bytes that fit it so far counts as one subsequence, and a byte that cannot
start a sequence counts alone.

* `Utf8.leadShape b` gives, for a lead byte, how many continuation bytes follow and which
  range the first of them must fall in (the others are always `0x80`–`0xBF`).
* `Utf8.validContinuations` counts how many of the following bytes fit.
-/

namespace MpegTs

namespace Utf8

/-- The replacement character U+FFFD. -/
def replacement : Char := '�'

/-- For a lead byte of a multi-byte sequence: the number of continuation bytes and the
range allowed for the first one. Other bytes cannot start a multi-byte sequence. -/
def leadShape (b : Nat) : Option (Nat × Nat × Nat) :=
  if 0xC2 ≤ b ∧ b ≤ 0xDF then some (1, 0x80, 0xBF)
  else if b = 0xE0 then some (2, 0xA0, 0xBF)
  else if 0xE1 ≤ b ∧ b ≤ 0xEC then some (2, 0x80, 0xBF)
  else if b = 0xED then some (2, 0x80, 0x9F)
  else if 0xEE ≤ b ∧ b ≤ 0xEF then some (2, 0x80, 0xBF)
  else if b = 0xF0 then some (3, 0x90, 0xBF)
  else if 0xF1 ≤ b ∧ b ≤ 0xF3 then some (3, 0x80, 0xBF)
  else if b = 0xF4 then some (3, 0x80, 0x8F)
  else none

/-- How many of the next `need` bytes are continuation bytes in range, the first of them
in `lo`–`hi` and the others in `0x80`–`0xBF`, counted up to the first that is not. -/
def validContinuations (need lo hi : Nat) : List UInt8 → Nat
  | [] => 0
  | c :: cs =>
    if need = 0 then 0
    else if lo ≤ c.toNat ∧ c.toNat ≤ hi then 1 + validContinuations (need - 1) 0x80 0xBF cs
    else 0

/-- The code point of a lead byte and its continuation bytes. -/
def codePoint (need lead : Nat) (conts : List UInt8) : Nat :=
  conts.foldl (fun acc c => acc * 64 + c.toNat % 64) (lead % (1 <<< (6 - need)))

/-- Decodes bytes as UTF-8, one U+FFFD for each maximal ill-formed subsequence. -/
def decodeLossy : List UInt8 → List Char
  | [] => []
  | b :: rest =>
    if b.toNat < 0x80 then Char.ofNat b.toNat :: decodeLossy rest
    else
      match leadShape b.toNat with
      | none => replacement :: decodeLossy rest
      | some (need, lo, hi) =>
        let k := validContinuations need lo hi rest
        let c := if k = need then Char.ofNat (codePoint need b.toNat (rest.take k))
          else replacement
        c :: decodeLossy (rest.drop k)
termination_by bs => bs.length
decreasing_by all_goals (simp only [List.length_cons, List.length_drop]; omega)

/-- Decodes bytes as UTF-8 text, replacing ill-formed parts by U+FFFD. -/
def stringOfBytesLossy (bytes : List UInt8) : String := String.ofList (decodeLossy bytes)

end Utf8

end MpegTs
