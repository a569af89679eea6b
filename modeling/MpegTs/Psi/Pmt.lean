import MpegTs.Psi.Section
import MpegTs.Psi.Descriptor

/-!
# Program map table

The PMT of a program names its PCR PID, program descriptors, and one entry per elementary
stream: stream type, elementary PID and ES descriptors.

* `parsePmt` decodes a section that starts at its table ID. The PCR PID must be a general
  purpose PID (`0x0010`–`0x1FFE`; `0x1FFF` means the program has no PCR). Entries are read
  while more than the four CRC bytes of the section remain, and the loop must end exactly
  at the CRC. Bytes after the section are ignored.
* `PmtSection.write` encodes a section with fresh lengths and CRC-32.
* `PmtSection.findEs` looks up the entry of an elementary PID.
-/

namespace MpegTs

/-- The null PID, which carries stuffing and, as a PCR PID, means "no PCR". -/
def nullPid : Nat := 0x1FFF

/-- A PID that may carry a PMT, a PCR or an elementary stream. -/
def isGeneralPurposePid (pid : Nat) : Bool := 0x0010 ≤ pid && pid ≤ 0x1FFE

/-- The largest program info or ES info loop. -/
def maxInfoLength : Nat := 0x3FF

/-- One elementary stream of a PMT. -/
structure EsInfo where
  streamType : Nat
  pid : Nat
  descriptors : List Descriptor := []
  deriving Repr, DecidableEq, Inhabited

/-- A program map section. -/
structure PmtSection where
  privateIndicator : Bool := false
  programNumber : Nat := 0
  version : Nat := 0
  currentNext : Bool := false
  pcrPid : Nat := 0
  descriptors : List Descriptor := []
  streams : List EsInfo := []
  crc : Nat := 0
  deriving Repr, DecidableEq, Inhabited

open BitRead

/-- Decodes one ES entry: stream type, PID, ES info length and descriptors. -/
def EsInfo.read : BitRead EsInfo := do
  let streamType ← readU8
  skipBits 3
  let pid ← readBits 13
  skipBits 4
  let infoLength ← readBits 12
  if maxInfoLength < infoLength then throw (.sectionSyntax .pmt (.esInfoTooLong infoLength))
  let descriptors ← readDescriptors infoLength
  return { streamType, pid, descriptors }

/-- Decodes ES entries while more than the CRC remains before byte `sectionEnd`; each entry
takes at least five bytes, so `fuel` entries at most are read. -/
def readEsEntries (sectionEnd : Nat) : Nat → BitRead (List EsInfo)
  | 0 => pure []
  | fuel + 1 => do
    if sectionEnd - (← get).position ≤ crcLen then return []
    let e ← EsInfo.read
    let es ← readEsEntries sectionEnd fuel
    return e :: es

/-- Decodes the body of a PMT after its section header. -/
def pmtBody (data : List UInt8) (header : SectionHeader) : BitRead PmtSection := do
  let len := header.sectionLength
  if len < syntaxHeaderLen + 4 + crcLen then throw (.sectionSyntax .pmt (.lengthTooShort len))
  let sectionEnd := sectionHeaderLen + len
  let sh ← SyntaxHeader.read .pmt
  skipBits 3
  let pcrPid ← readBits 13
  if pcrPid = nullPid then throw (.noProgramPcr sh.idExtension)
  if !isGeneralPurposePid pcrPid then throw (.invalidPid "PCR_PID" pcrPid)
  skipBits 4
  let infoLength ← readBits 12
  if maxInfoLength < infoLength then throw (.sectionSyntax .pmt (.programInfoTooLong infoLength))
  let descriptors ← readDescriptors infoLength
  let streams ← readEsEntries sectionEnd data.length
  if (← get).position + crcLen ≠ sectionEnd then throw (.sectionSyntax .pmt .esLoopOverrun)
  let crc ← readU32
  MonadExcept.ofExcept (verifyCrc .pmt (data.take sectionEnd))
  return { privateIndicator := header.privateIndicator, programNumber := sh.idExtension,
           version := sh.version, currentNext := sh.currentNext, pcrPid, descriptors, streams,
           crc }

/-- Decodes a PMT section that starts at its table ID. -/
def parsePmt (data : List UInt8) : Except Error PmtSection :=
  (do pmtBody data (← SectionHeader.read .pmt pmtTableId)).runOn data

namespace EsInfo

/-- Encodes an ES entry, reserved bits set. -/
def bits (e : EsInfo) : List Bool :=
  natBits 8 e.streamType ++ natBits 3 7 ++ natBits 13 e.pid ++ natBits 4 15 ++
    natBits 12 (descriptorsLength e.descriptors) ++ descriptorsBits e.descriptors

end EsInfo

namespace PmtSection

/-- The first entry for an elementary PID. -/
def findEs (p : PmtSection) (pid : Nat) : Option EsInfo := p.streams.find? (·.pid == pid)

/-- Encodes the section body: syntax header, PCR PID, program descriptors, entries. -/
def bodyBits (p : PmtSection) : List Bool :=
  SyntaxHeader.bits { idExtension := p.programNumber, version := p.version,
                      currentNext := p.currentNext } ++
    natBits 3 7 ++ natBits 13 p.pcrPid ++ natBits 4 15 ++
    natBits 12 (descriptorsLength p.descriptors) ++ descriptorsBits p.descriptors ++
    (p.streams.map EsInfo.bits).flatten

/-- Encodes a PMT section with fresh lengths and CRC-32. -/
def write (p : PmtSection) : Except Error (List UInt8) :=
  assembleSection pmtTableId p.privateIndicator (packBits p.bodyBits)

end PmtSection

end MpegTs
