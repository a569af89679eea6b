import MpegTs.Bits.Cursor

/-!
# PES packet header

A PES packet opens with the start code prefix `00 00 01`, a stream ID and the 16-bit
`PES_packet_length` (`0` for an unbounded video packet). Most stream IDs then carry the
optional header: flags, `PES_header_data_length`, and the fields the flags announce (PTS,
DTS, ESCR, ES rate, trick mode, copy info, previous CRC, extension), padded with stuffing.

* `PesOptionalHeader.minDataLength` is the fewest header data bytes the present fields need.
* `PesHeader.headerLen` counts the bytes from the start code to the payload, and
  `PesHeader.declaredPayloadLen` what `PES_packet_length` leaves for the payload.
* `PesHeader.read` decodes a header, `PesHeader.bits` encodes one.
-/

namespace MpegTs

/-- Stream IDs whose packets carry the optional PES header: all but the program stream map,
padding, private stream 2, ECM, EMM, program stream directory, DSM-CC and H.222.1 type E. -/
def hasPesHeader (streamId : Nat) : Bool :=
  !([0xBC, 0xBE, 0xBF, 0xF0, 0xF1, 0xFF, 0xF2, 0xF8].contains streamId)

/-- The elementary stream clock reference: a 33-bit base and a 9-bit extension. -/
structure Escr where
  base : Nat
  extension : Nat
  deriving Repr, DecidableEq, Inhabited

/-- The program packet sequence counter of a PES extension. -/
structure SequenceCounter where
  counter : Nat
  mpegIdentifier : Bool
  sourceStuffLength : Nat
  deriving Repr, DecidableEq, Inhabited

/-- The P-STD buffer description of a PES extension. -/
structure PStdBuffer where
  scale : Bool
  size : Nat
  deriving Repr, DecidableEq, Inhabited

/-- The PES extension. -/
structure PesExtension where
  privateData : Option (List UInt8) := none
  packHeader : Option (List UInt8) := none
  sequenceCounter : Option SequenceCounter := none
  pStdBuffer : Option PStdBuffer := none
  extension2 : Option (List UInt8) := none
  deriving Repr, DecidableEq, Inhabited

/-- The optional PES header. `headerDataLength` is the declared length byte, stuffing
included. -/
structure PesOptionalHeader where
  scrambling : Nat := 0
  priority : Bool := false
  dataAlignment : Bool := false
  copyright : Bool := false
  uncopied : Bool := false
  pts : Option Nat := none
  dts : Option Nat := none
  escr : Option Escr := none
  esRate : Option Nat := none
  trickMode : Option Nat := none
  additionalCopyInfo : Option Nat := none
  previousCrc : Option Nat := none
  extension : Option PesExtension := none
  headerDataLength : Nat := 0
  deriving Repr, DecidableEq, Inhabited

/-- A PES packet header. -/
structure PesHeader where
  streamId : Nat
  packetLength : Nat := 0
  optional : Option PesOptionalHeader := none
  deriving Repr, DecidableEq, Inhabited

open BitRead

/-- The size of an optional field, or zero when it is absent. -/
def optionSize {α : Type} (f : α → Nat) : Option α → Nat
  | some a => f a
  | none => 0

namespace PesExtension

/-- Bytes the extension takes: its flag byte and the present fields. -/
def size (e : PesExtension) : Nat :=
  1 + optionSize (fun _ => 16) e.privateData + optionSize (1 + ·.length) e.packHeader +
    optionSize (fun _ => 2) e.sequenceCounter + optionSize (fun _ => 2) e.pStdBuffer +
    optionSize (1 + ·.length) e.extension2

/-- Decodes a PES extension. -/
def read : BitRead PesExtension := do
  let privateFlag ← readFlag
  let packFlag ← readFlag
  let counterFlag ← readFlag
  let bufferFlag ← readFlag
  skipBits 3
  let extension2Flag ← readFlag
  let privateData ← readIf privateFlag (readBytes 16)
  let packHeader ← readIf packFlag do
    let n ← readU8
    readBytes n
  let sequenceCounter ← readIf counterFlag do
    skipBits 1
    let counter ← readBits 7
    skipBits 1
    let mpegIdentifier ← readFlag
    let sourceStuffLength ← readBits 6
    pure { counter, mpegIdentifier, sourceStuffLength }
  let pStdBuffer ← readIf bufferFlag do
    skipBits 2
    let scale ← readFlag
    let size ← readBits 13
    pure { scale, size }
  let extension2 ← readIf extension2Flag do
    skipBits 1
    let n ← readBits 7
    readBytes n
  return { privateData, packHeader, sequenceCounter, pStdBuffer, extension2 }

/-- Encodes a PES extension; marker bits are ones, the P-STD marker is `01`. -/
def bits (e : PesExtension) : List Bool :=
  [e.privateData.isSome, e.packHeader.isSome, e.sequenceCounter.isSome, e.pStdBuffer.isSome] ++
    natBits 3 7 ++ [e.extension2.isSome] ++
    (match e.privateData with | some d => bitsOf d | none => []) ++
    (match e.packHeader with | some p => natBits 8 p.length ++ bitsOf p | none => []) ++
    (match e.sequenceCounter with
      | some s => true :: natBits 7 s.counter ++ [true, s.mpegIdentifier] ++
          natBits 6 s.sourceStuffLength
      | none => []) ++
    (match e.pStdBuffer with | some b => natBits 2 1 ++ b.scale :: natBits 13 b.size | none => []) ++
    (match e.extension2 with | some d => true :: natBits 7 d.length ++ bitsOf d | none => [])

end PesExtension

namespace PesOptionalHeader

/-- Header data bytes that the present fields need (a DTS counts even without a PTS). -/
def minDataLength (o : PesOptionalHeader) : Nat :=
  optionSize (fun _ => 5) o.pts + optionSize (fun _ => 5) o.dts + optionSize (fun _ => 6) o.escr +
    optionSize (fun _ => 3) o.esRate + optionSize (fun _ => 1) o.trickMode +
    optionSize (fun _ => 1) o.additionalCopyInfo + optionSize (fun _ => 2) o.previousCrc +
    optionSize PesExtension.size o.extension

/-- The header data bytes the header takes: the declared length, or more if the fields
need more. -/
def dataLength (o : PesOptionalHeader) : Nat := max o.headerDataLength o.minDataLength

/-- Decodes the fields announced by the flags from the header data block. -/
def fields (o : PesOptionalHeader) (timestampFlags : Nat)
    (escrFlag rateFlag trickFlag copyFlag crcFlag extFlag : Bool) : BitRead PesOptionalHeader := do
  let pts ← readIf (timestampFlags.testBit 1) do
    skipBits 4
    readTimestamp
  let dts ← readIf (decide (timestampFlags = 3)) do
    skipBits 4
    readTimestamp
  let escr ← readIf escrFlag do
    skipBits 2
    let base ← readTimestamp
    let extension ← readBits 9
    skipBits 1
    pure ⟨base, extension⟩
  let esRate ← readIf rateFlag do
    skipBits 1
    let rate ← readBits 22
    skipBits 1
    pure rate
  let trickMode ← readIf trickFlag readU8
  let additionalCopyInfo ← readIf copyFlag do
    skipBits 1
    readBits 7
  let previousCrc ← readIf crcFlag readU16
  let extension ← readIf extFlag PesExtension.read
  return { o with pts, dts, escr, esRate, trickMode, additionalCopyInfo, previousCrc, extension }

/-- Decodes an optional header: the `10` marker, flags, header data length, then the fields
from a block of that length. -/
def read : BitRead PesOptionalHeader := do
  let marker ← readBits 2
  if marker ≠ 2 then throw (.pesHeaderMalformed (.badMarker marker))
  let scrambling ← readBits 2
  let priority ← readFlag
  let dataAlignment ← readFlag
  let copyright ← readFlag
  let uncopied ← readFlag
  let timestampFlags ← readBits 2
  let escrFlag ← readFlag
  let rateFlag ← readFlag
  let trickFlag ← readFlag
  let copyFlag ← readFlag
  let crcFlag ← readFlag
  let extFlag ← readFlag
  let headerDataLength ← readU8
  if timestampFlags = 1 then throw (.pesHeaderMalformed .forbiddenTimestampFlags)
  let o : PesOptionalHeader :=
    { scrambling, priority, dataAlignment, copyright, uncopied, headerDataLength }
  within headerDataLength
    (o.fields timestampFlags escrFlag rateFlag trickFlag copyFlag crcFlag extFlag)

/-- The PTS/DTS flags a writer sets: both, PTS only, or none (a DTS without a PTS is not
written). -/
def timestampFlags (o : PesOptionalHeader) : Nat :=
  match o.pts, o.dts with
  | some _, some _ => 3
  | some _, none => 2
  | none, _ => 0

/-- Encodes an optional header with `dataLength` header data bytes, the surplus over the
fields as `0xFF` stuffing. -/
def bits (o : PesOptionalHeader) : List Bool :=
  let flags := o.timestampFlags
  natBits 2 2 ++ natBits 2 o.scrambling ++
    [o.priority, o.dataAlignment, o.copyright, o.uncopied] ++ natBits 2 flags ++
    [o.escr.isSome, o.esRate.isSome, o.trickMode.isSome, o.additionalCopyInfo.isSome,
      o.previousCrc.isSome, o.extension.isSome] ++
    natBits 8 o.dataLength ++
    (match o.pts with | some p => timestampBits flags p | none => []) ++
    (match o.pts, o.dts with | some _, some d => timestampBits 1 d | _, _ => []) ++
    (match o.escr with
      | some e => natBits 2 3 ++ markedTimestampBits e.base ++ natBits 9 e.extension ++ [true]
      | none => []) ++
    (match o.esRate with | some r => true :: natBits 22 r ++ [true] | none => []) ++
    (match o.trickMode with | some t => natBits 8 t | none => []) ++
    (match o.additionalCopyInfo with | some i => true :: natBits 7 i | none => []) ++
    (match o.previousCrc with | some c => natBits 16 c | none => []) ++
    (match o.extension with | some e => e.bits | none => []) ++
    (List.replicate (o.dataLength - o.minDataLength) (natBits 8 0xFF)).flatten

end PesOptionalHeader

namespace PesHeader

/-- Bytes of the start code prefix, stream ID and packet length. -/
def fixedLen : Nat := 6

/-- The start code prefix `00 00 01`. -/
def startCode : Nat := 1

/-- Bytes from the start code to the payload. -/
def headerLen (h : PesHeader) : Nat :=
  match h.optional with
  | some o => fixedLen + 3 + o.dataLength
  | none => fixedLen

/-- The PTS, if the header has one. -/
def pts (h : PesHeader) : Option Nat := h.optional.bind (·.pts)

/-- The DTS, if the header has one. -/
def dts (h : PesHeader) : Option Nat := h.optional.bind (·.dts)

/-- The scrambling control, zero without an optional header. -/
def scrambling (h : PesHeader) : Nat := optionSize (·.scrambling) h.optional

/-- The packet's length is left open (`PES_packet_length` zero). -/
def isUnbounded (h : PesHeader) : Bool := h.packetLength == 0

/-- Payload bytes that `PES_packet_length` declares after the header; a length shorter than
the header bytes after it is malformed. -/
def declaredPayloadLen (h : PesHeader) : Except Error Nat :=
  let after := h.headerLen - fixedLen
  if after ≤ h.packetLength then .ok (h.packetLength - after)
  else .error (.pesHeaderMalformed (.lengthShorterThanHeader h.packetLength after))

/-- Decodes a PES header. -/
def read : BitRead PesHeader := do
  let pfx ← readU24
  if pfx ≠ startCode then throw (.pesHeaderMalformed (.badStartCode pfx))
  let streamId ← readU8
  let packetLength ← readU16
  let optional ← readIf (hasPesHeader streamId) PesOptionalHeader.read
  return { streamId, packetLength, optional }

/-- Encodes a PES header. -/
def bits (h : PesHeader) : List Bool :=
  natBits 24 startCode ++ natBits 8 h.streamId ++ natBits 16 h.packetLength ++
    match h.optional with
    | some o => o.bits
    | none => []

/-- Fits the header to a payload of `n` bytes: drops a DTS equal to the PTS, shrinks the
header data to the fields, and declares the length, or leaves the packet unbounded when the
length does not fit 16 bits. -/
def trim (h : PesHeader) (n : Nat) : PesHeader :=
  let optional := h.optional.map fun o =>
    let o := if o.dts.isSome ∧ o.dts = o.pts then { o with dts := none } else o
    { o with headerDataLength := o.minDataLength % 256 }
  let h := { h with optional }
  let total := h.headerLen - fixedLen + n
  { h with packetLength := if total < 0x10000 then total else 0 }

end PesHeader

end MpegTs
