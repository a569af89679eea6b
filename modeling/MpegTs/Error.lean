import MpegTs.Digits

/-!
# Errors

Every way a segment, a packet or a field can fail is a constructor of `Error`, grouped by
the layer that detects it. The reasons of the three wordier families (section syntax, PES
header, NAL unit and SAP order) are inductives of their own, so that a statement about a
decoder can say which cause it meets.

* `Error.code` is the numeric status a verdict reports for the error.
* `Error.isSoft` marks conditions that are recorded as warnings and never fail a verdict.
* `Error.message` is the one place where the wording of each cause lives.
-/

namespace MpegTs

/-- Faults of the bit cursor: running out of data, a byte read off a byte boundary, and an
Exp-Golomb prefix longer than a 32-bit value allows. -/
inductive ReadFault where
  | outOfData (needed available : Nat)
  | unaligned
  | expGolombOverflow (zeros : Nat)
  deriving Repr, DecidableEq, Inhabited

/-- The kinds of PSI section a message can name. -/
inductive TableKind where
  | pat
  | pmt
  | generic
  deriving Repr, DecidableEq, Inhabited

/-- Why a section's framing or loop structure is unacceptable. -/
inductive SectionFault where
  | syntaxIndicatorUnset
  | lengthTooLarge (length : Nat)
  | lengthTooShort (length : Nat)
  | multiSection (number last : Nat)
  | shorterThanCrc
  | bodyTooLarge (size : Nat)
  | programInfoTooLong (length : Nat)
  | esInfoTooLong (length : Nat)
  | esLoopOverrun
  deriving Repr, DecidableEq, Inhabited

/-- Why a PES header is unacceptable. -/
inductive PesFault where
  | badMarker (marker : Nat)
  | forbiddenTimestampFlags
  | lengthShorterThanHeader (packetLength headerBytes : Nat)
  | badStartCode (startCode : Nat)
  | truncated (needed available : Nat)
  deriving Repr, DecidableEq, Inhabited

/-- Why a NAL unit cannot be decoded. -/
inductive NalFault where
  | empty
  | forbiddenBit (header : Nat)
  | delimiterWithoutPayload
  | sliceHeader (nalType : Nat) (cause : ReadFault)
  deriving Repr, DecidableEq, Inhabited

/-- Which order requirement of a SAP type 1 or 2 segment a NAL unit breaks. -/
inductive SapFault where
  | firstDelimiterNotIntra (primaryPicType : Nat)
  | secondDelimiter
  | nonIdrSlice (nalType : Nat)
  deriving Repr, DecidableEq, Inhabited

/-- Every failure this library reports. -/
inductive Error where
  | io (reason : String)
  | config (reason : String)
  | read (fault : ReadFault)
  | invalidSyncByte (byte : Nat)
  | transportError (pid : Nat)
  | truncatedPacket (expected actual : Nat)
  | adaptationFieldOverflow (length available : Nat)
  | patNotFound
  | pmtNotFound (program pid : Nat)
  | tableIdMismatch (table : TableKind) (expected actual : Nat)
  | sectionSyntax (table : TableKind) (fault : SectionFault)
  | crcMismatch (table : TableKind) (expected computed : Nat)
  | multiProgram (count : Nat)
  | nitNotSupported
  | invalidPid (field : String) (pid : Nat)
  | programNumberMismatch (expected actual : Nat)
  | unknownPidRegistration (pid program : Nat)
  | noProgramPcr (program : Nat)
  | mediaInInitSegment (pid streamType : Nat)
  | noPcrInSegment
  | scrambledStream (pid : Nat)
  | unsupportedStreamType (pid streamId : Nat)
  | pesHeaderMalformed (fault : PesFault)
  | unexpectedPayloadStart (collected declared : Nat)
  | missingPayloadStart (pid : Nat)
  | duplicatePts (pts : Nat)
  | missingDts
  | missingPcrBeforeIdr
  | sapViolation (fault : SapFault)
  | invalidNalUnit (fault : NalFault)
  | noNalUnits (unbounded : Bool) (length : Nat)
  | incompleteBoundedPes (declared remaining : Nat)
  | incompleteUnboundedPes (collected : Nat)
  deriving Repr, DecidableEq, Inhabited

namespace ReadFault

/-- The text of a bit-cursor fault. -/
def message : ReadFault → String
  | outOfData n a => s!"out of data: needed {n} bits, {a} available"
  | unaligned => "byte read at unaligned bit position"
  | expGolombOverflow z => s!"Exp-Golomb code too long ({z} leading zero bits)"

end ReadFault

namespace TableKind

/-- How a message names the table. -/
def label : TableKind → String
  | pat => "PAT"
  | pmt => "PMT"
  | generic => "section"

end TableKind

namespace SectionFault

/-- The reason text of a section syntax fault. -/
def message : SectionFault → String
  | syntaxIndicatorUnset => "section_syntax_indicator not set"
  | lengthTooLarge n => "section_length 0x" ++ hexUpper 3 n ++ " larger than 0x3FD"
  | lengthTooShort n => s!"section_length {n} too short"
  | multiSection s l =>
    s!"multi-section tables not supported (section_number {s}, last_section_number {l})"
  | shorterThanCrc => "section shorter than its CRC_32"
  | bodyTooLarge n => s!"body of {n} bytes does not fit one section"
  | programInfoTooLong n => "program_info_length 0x" ++ hexUpper 3 n ++ " larger than 0x3FF"
  | esInfoTooLong n => "ES_info_length 0x" ++ hexUpper 3 n ++ " larger than 0x3FF"
  | esLoopOverrun => "ES info loop overruns section_length"

end SectionFault

namespace PesFault

/-- The reason text of a PES header fault. -/
def message : PesFault → String
  | badMarker m => "expected '10' before PES_scrambling_control, found " ++ binary 2 m
  | forbiddenTimestampFlags => "PTS_DTS_flags value '01' is forbidden"
  | lengthShorterThanHeader len after =>
    s!"PES_packet_length {len} shorter than the {after} header bytes following it"
  | badStartCode p => "packet_start_code_prefix 0x" ++ hexUpper 6 p
  | truncated n a => "header truncated (" ++ (ReadFault.outOfData n a).message ++ ")"

end PesFault

/-- H.264 names of the NAL unit types. -/
def nalTypeName : Nat → String
  | 0 => "Unspecified"
  | 1 => "Coded slice of a non-IDR picture"
  | 2 => "Coded slice data partition A"
  | 3 => "Coded slice data partition B"
  | 4 => "Coded slice data partition C"
  | 5 => "Coded slice of an IDR picture"
  | 6 => "Supplemental enhancement information (SEI)"
  | 7 => "Sequence parameter set"
  | 8 => "Picture parameter set"
  | 9 => "Access unit delimiter"
  | 10 => "End of sequence"
  | 11 => "End of stream"
  | 12 => "Filler data"
  | 13 => "Sequence parameter set extension"
  | 14 => "Prefix NAL unit"
  | 15 => "Subset sequence parameter set"
  | 19 => "Coded slice of an auxiliary coded picture without partitioning"
  | _ => "Reserved/Unspecified/Unknown"

/-- The slice types that an access unit delimiter's `primary_pic_type` allows. -/
def primaryPicTypeName : Nat → String
  | 0 => "I"
  | 1 => "I, P"
  | 2 => "I, P, B"
  | 3 => "SI"
  | 4 => "SI, SP"
  | 5 => "I, SI"
  | 6 => "I, SI, P, SP"
  | 7 => "I, SI, P, SP, B"
  | _ => "invalid"

/-- A `primary_pic_type` whose access unit may be an I picture. -/
def isIntraPrimaryPicType (t : Nat) : Bool :=
  t == 0 || t == 1 || t == 2 || t == 5 || t == 6 || t == 7

namespace NalFault

/-- The reason text of a NAL unit fault. -/
def message : NalFault → String
  | empty => "empty NAL unit"
  | forbiddenBit h => "forbidden_zero_bit set in header 0x" ++ hexUpper 2 h
  | delimiterWithoutPayload => "access unit delimiter without payload"
  | sliceHeader t cause => nalTypeName t ++ " header: " ++ cause.message

end NalFault

namespace SapFault

/-- The reason text of a SAP order fault. -/
def message : SapFault → String
  | firstDelimiterNotIntra t =>
    s!"first AUD indicates primary picture type {t} ({primaryPicTypeName t}) " ++
      "instead of an I picture type"
  | secondDelimiter => "encountered a second AUD before the first picture slice"
  | nonIdrSlice t => s!"encountered a non-IDR picture slice of type {t} ({nalTypeName t})"

end SapFault

namespace Error

/-- Out of data: `needed` bits were asked for and `available` were left. -/
abbrev outOfData (needed available : Nat) : Error := read (.outOfData needed available)

/-- The numeric status of an error. -/
def code : Error → Nat
  | io _ => 15
  | config _ => 2
  | read _ => 1
  | invalidSyncByte _ => 10
  | transportError _ => 11
  | truncatedPacket _ _ => 16
  | adaptationFieldOverflow _ _ => 12
  | patNotFound => 3
  | pmtNotFound _ _ => 4
  | tableIdMismatch _ _ _ => 30
  | sectionSyntax _ _ => 31
  | crcMismatch _ _ _ => 33
  | multiProgram _ => 6
  | nitNotSupported => 7
  | invalidPid _ _ => 8
  | programNumberMismatch _ _ => 70
  | unknownPidRegistration _ _ => 13
  | noProgramPcr _ => 18
  | mediaInInitSegment _ _ => 17
  | noPcrInSegment => 17
  | scrambledStream _ => 94
  | unsupportedStreamType _ _ => 95
  | pesHeaderMalformed _ => 88
  | unexpectedPayloadStart _ _ => 88
  | missingPayloadStart _ => 92
  | duplicatePts _ => 85
  | missingDts => 87
  | missingPcrBeforeIdr => 87
  | sapViolation _ => 86
  | invalidNalUnit _ => 81
  | noNalUnits _ _ => 89
  | incompleteBoundedPes _ _ => 91
  | incompleteUnboundedPes _ => 93

/-- Scrambled or unsupported streams and an unbounded last PES packet are only warned about. -/
def isSoft : Error → Bool
  | scrambledStream _ => true
  | unsupportedStreamType _ _ => true
  | incompleteUnboundedPes _ => true
  | _ => false

/-- The text of an error. -/
def message : Error → String
  | io r => "I/O error: " ++ r
  | config r => "invalid configuration: " ++ r
  | read f => f.message
  | invalidSyncByte b => "got 0x" ++ hexUpper 2 b ++ " instead of expected sync byte 0x47"
  | transportError pid => "uncorrectable bit error in TS packet (PID 0x" ++ hexUpper 4 pid ++ ")"
  | truncatedPacket e a => s!"truncated TS packet: expected {e} bytes, got {a}"
  | adaptationFieldOverflow l a =>
    s!"adaptation field length {l} exceeds the {a} bytes left in the packet"
  | patNotFound => "no PAT found in the segment"
  | pmtNotFound n pid => s!"no PMT found for program {n} (PID 0x" ++ hexUpper 4 pid ++ ")"
  | tableIdMismatch t e a =>
    "table ID in " ++ t.label ++ " is 0x" ++ hexUpper 2 a ++ " instead of expected 0x" ++
      hexUpper 2 e
  | sectionSyntax t f => "bad " ++ t.label ++ " section syntax: " ++ f.message
  | crcMismatch t e c =>
    t.label ++ " CRC_32 specified as 0x" ++ hexUpper 8 e ++ ", but calculated as 0x" ++
      hexUpper 8 c
  | multiProgram n => s!"PAT lists {n} programs; only SPTS is supported in DASH"
  | nitNotSupported => "NIT (program number 0) not supported"
  | invalidPid field pid => field ++ " has invalid value 0x" ++ hexUpper 4 pid
  | programNumberMismatch e a =>
    s!"invalid program number in PMT: expecting {e}, encountered {a}"
  | unknownPidRegistration pid n =>
    "elementary stream with PID 0x" ++ hexUpper 4 pid ++ s!" not found in PMT of program {n}"
  | noProgramPcr n => s!"no PCR is associated with program {n}"
  | mediaInInitSegment pid t =>
    "media stream (type 0x" ++ hexUpper 2 t ++ ", PID 0x" ++ hexUpper 4 pid ++
      ") not allowed in initialization segments"
  | noPcrInSegment => "no PCR information in the segment"
  | scrambledStream pid => "scrambled elementary stream on PID 0x" ++ hexUpper 4 pid ++
      " not supported"
  | unsupportedStreamType pid sid =>
    "PES stream id 0x" ++ hexUpper 2 sid ++ " on PID 0x" ++ hexUpper 4 pid ++
      " not supported, ignoring"
  | pesHeaderMalformed f => "malformed PES packet header: " ++ f.message
  | unexpectedPayloadStart c d =>
    s!"collecting a bounded PES packet ({c} of {d} bytes), " ++
      "not expecting payload_unit_start_indicator"
  | missingPayloadStart pid =>
    "expecting payload_unit_start_indicator to start a new PES packet on PID 0x" ++
      hexUpper 4 pid
  | duplicatePts p => s!"duplicate PTS timestamp ({p}) in PES packets"
  | missingDts => "no DTS in PES packet"
  | missingPcrBeforeIdr => "no PCR before the first coded slice of an IDR picture"
  | sapViolation f => "SAP type 1/2 requirement violated: " ++ f.message
  | invalidNalUnit f => "invalid NAL unit: " ++ f.message
  | noNalUnits u l =>
    "could not find any NAL units in " ++ (if u then "unbounded" else "bounded") ++
      s!" PES packet of length {l}"
  | incompleteBoundedPes d r =>
    "last PES packet was a bounded one and wasn't completely collected " ++
      s!"(length {d}, remaining {r})"
  | incompleteUnboundedPes c =>
    "last PES packet was an unbounded one, unclear whether it was completely collected " ++
      s!"({c} bytes)"

end Error

end MpegTs
