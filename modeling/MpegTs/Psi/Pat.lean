import MpegTs.Psi.Section

/-!
# Program association table

The PAT lists programs, each a program number and the PID of its program map table
(program number `0` names the network information table instead).

* `parsePat` decodes a section that starts at its table ID; bytes after the section are
  ignored. The entry count is what `section_length` leaves after the syntax header and the
  CRC, in whole entries, and the CRC-32 is checked over the whole section.
* `PatSection.write` encodes a section with a fresh length and CRC-32.
-/

namespace MpegTs

/-- One program of a PAT. -/
structure PatEntry where
  programNumber : Nat
  pid : Nat
  deriving Repr, DecidableEq, Inhabited

/-- A program association section. -/
structure PatSection where
  privateIndicator : Bool := false
  transportStreamId : Nat := 0
  version : Nat := 0
  currentNext : Bool := false
  programs : List PatEntry := []
  crc : Nat := 0
  deriving Repr, DecidableEq, Inhabited

open BitRead

/-- Decodes one PAT entry: program number, three reserved bits, PID. -/
def PatEntry.read : BitRead PatEntry := do
  let programNumber ← readU16
  skipBits 3
  let pid ← readBits 13
  return ⟨programNumber, pid⟩

/-- Decodes `n` PAT entries in order. -/
def readPatEntries : Nat → BitRead (List PatEntry)
  | 0 => pure []
  | n + 1 => do
    let e ← PatEntry.read
    let es ← readPatEntries n
    return e :: es

/-- Decodes the body of a PAT after its section header. -/
def patBody (data : List UInt8) (header : SectionHeader) : BitRead PatSection := do
  let len := header.sectionLength
  if len < syntaxHeaderLen + crcLen then throw (.sectionSyntax .pat (.lengthTooShort len))
  let sh ← SyntaxHeader.read .pat
  let programs ← readPatEntries ((len - syntaxHeaderLen - crcLen) / 4)
  let crc ← readU32
  MonadExcept.ofExcept (verifyCrc .pat (data.take (sectionHeaderLen + len)))
  return { privateIndicator := header.privateIndicator, transportStreamId := sh.idExtension,
           version := sh.version, currentNext := sh.currentNext, programs, crc }

/-- Decodes a PAT section that starts at its table ID. -/
def parsePat (data : List UInt8) : Except Error PatSection :=
  (do patBody data (← SectionHeader.read .pat patTableId)).runOn data

namespace PatSection

/-- Encodes the section body: syntax header and entries, reserved bits set. -/
def bodyBits (p : PatSection) : List Bool :=
  SyntaxHeader.bits { idExtension := p.transportStreamId, version := p.version,
                      currentNext := p.currentNext } ++
    (p.programs.map fun e => natBits 16 e.programNumber ++ natBits 3 7 ++ natBits 13 e.pid).flatten

/-- Encodes a PAT section with fresh length and CRC-32. -/
def write (p : PatSection) : Except Error (List UInt8) :=
  assembleSection patTableId p.privateIndicator (packBits p.bodyBits)

end PatSection

end MpegTs
