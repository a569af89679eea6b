import MpegTs.Bits.Cursor
import MpegTs.Crc

/-!
# PSI section framing

A long-form PSI section opens with a three-byte header (table ID, syntax and private flags,
12-bit `section_length`) and a five-byte syntax header (table ID extension, version,
current/next flag, section numbers), and closes with a CRC-32 over everything before it.

* `SectionHeader.read` refuses a wrong table ID, an unset syntax flag, a length above
  `0x3FD` and a length longer than the bytes that follow.
* `SyntaxHeader.read` refuses multi-section tables.
* `sectionStart` skips the pointer field of a payload that starts a section.
* `verifyCrc` checks the trailing CRC-32, `assembleSection` frames a body and appends it.
-/

namespace MpegTs

/-- Bytes of the section header. -/
def sectionHeaderLen : Nat := 3

/-- Bytes of the syntax header. -/
def syntaxHeaderLen : Nat := 5

/-- Bytes of the CRC-32 trailer. -/
def crcLen : Nat := 4

/-- The largest `section_length` of a PAT or PMT section. -/
def maxSectionLength : Nat := 0x3FD

/-- The table ID of a program association section. -/
def patTableId : Nat := 0x00

/-- The table ID of a program map section. -/
def pmtTableId : Nat := 0x02

/-- The three bytes that open a long-form section. -/
structure SectionHeader where
  tableId : Nat
  syntaxIndicator : Bool := true
  privateIndicator : Bool
  sectionLength : Nat
  deriving Repr, DecidableEq, Inhabited

/-- Table ID extension, version and numbering of a long-form section. -/
structure SyntaxHeader where
  idExtension : Nat
  version : Nat
  currentNext : Bool
  sectionNumber : Nat := 0
  lastSectionNumber : Nat := 0
  deriving Repr, DecidableEq, Inhabited

open BitRead

namespace SectionHeader

/-- Decodes a section header of the given kind, which must carry `expected` as table ID. -/
def read (table : TableKind) (expected : Nat) : BitRead SectionHeader := do
  let tableId ← readU8
  if tableId ≠ expected then throw (.tableIdMismatch table expected tableId)
  let syntaxIndicator ← readFlag
  if !syntaxIndicator then throw (.sectionSyntax table .syntaxIndicatorUnset)
  let privateIndicator ← readFlag
  skipBits 2
  let sectionLength ← readBits 12
  if maxSectionLength < sectionLength then
    throw (.sectionSyntax table (.lengthTooLarge sectionLength))
  let c ← get
  if c.bytesRemaining < sectionLength then
    throw (.outOfData (sectionLength * 8) c.bitsRemaining)
  return { tableId, syntaxIndicator, privateIndicator, sectionLength }

/-- Encodes a section header, its two reserved bits set. -/
def bits (h : SectionHeader) : List Bool :=
  natBits 8 h.tableId ++ [h.syntaxIndicator, h.privateIndicator] ++ natBits 2 3 ++
    natBits 12 h.sectionLength

end SectionHeader

namespace SyntaxHeader

/-- Decodes a syntax header; only single-section tables are accepted. -/
def read (table : TableKind) : BitRead SyntaxHeader := do
  let idExtension ← readU16
  skipBits 2
  let version ← readBits 5
  let currentNext ← readFlag
  let sectionNumber ← readU8
  let lastSectionNumber ← readU8
  if sectionNumber ≠ 0 ∨ lastSectionNumber ≠ 0 then
    throw (.sectionSyntax table (.multiSection sectionNumber lastSectionNumber))
  return { idExtension, version, currentNext, sectionNumber, lastSectionNumber }

/-- Encodes a syntax header, its two reserved bits set. -/
def bits (h : SyntaxHeader) : List Bool :=
  natBits 16 h.idExtension ++ natBits 2 3 ++ natBits 5 h.version ++ [h.currentNext] ++
    natBits 8 h.sectionNumber ++ natBits 8 h.lastSectionNumber

end SyntaxHeader

/-- The bytes from the first section of a payload on, past its pointer field. -/
def sectionStart (payload : List UInt8) : Except Error (List UInt8) :=
  (do
    let pointer ← readU8
    skipBytes pointer
    remainingSlice).runOn payload

/-- The big-endian number of a byte string. -/
def natOfBytes (bytes : List UInt8) : Nat :=
  bytes.foldl (fun acc b => acc * 256 + b.toNat) 0

/-- Checks that the last four bytes of `sectionBytes` are the CRC-32 of the bytes before them. -/
def verifyCrc (table : TableKind) (sectionBytes : List UInt8) : Except Error Unit :=
  if sectionBytes.length < crcLen then .error (.sectionSyntax table .shorterThanCrc)
  else
    let body := sectionBytes.take (sectionBytes.length - crcLen)
    let expected := natOfBytes (sectionBytes.drop (sectionBytes.length - crcLen))
    let computed := (Crc.checksum body).toNat
    if computed ≠ expected then .error (.crcMismatch table expected computed) else .ok ()

/-- The four big-endian bytes of a 32-bit value. -/
def bytesOfU32 (v : Nat) : List UInt8 :=
  [UInt8.ofNat (v >>> 24), UInt8.ofNat (v >>> 16), UInt8.ofNat (v >>> 8), UInt8.ofNat v]

/-- Frames `body` (the bytes after `section_length`) as one section with a fresh CRC-32. -/
def assembleSection (tableId : Nat) (privateIndicator : Bool) (body : List UInt8) :
    Except Error (List UInt8) :=
  let sectionLength := body.length + crcLen
  if maxSectionLength < sectionLength then
    .error (.sectionSyntax .generic (.bodyTooLarge body.length))
  else
    let framed := packBits ({ tableId, privateIndicator, sectionLength : SectionHeader }.bits) ++
      body
    .ok (framed ++ bytesOfU32 (Crc.checksum framed).toNat)

end MpegTs
