import MpegTs.Bits.Cursor

/-!
# Adaptation field

The optional block between a packet header and its payload: three indicators, the program
clock reference (PCR) and the one the stream was first sent with (OPCR), a splice
countdown, private data and an extension with a legal-time window, a piecewise rate and a
seamless splice. The rest of the declared length is stuffing.

* `AdaptationField.read available` decodes one, refusing a declared length that does not fit
  the `available` bytes of the packet.
* `AdaptationField.minLength` is the fewest bytes after the length byte that hold the present
  fields; `AdaptationField.bits af target` encodes with at least `target` such bytes, the
  surplus as `0xFF` stuffing.
-/

namespace MpegTs

/-- A program clock reference: a 33-bit base at 90 kHz and a 9-bit extension at 27 MHz. -/
structure Pcr where
  base : Nat
  extension : Nat
  deriving Repr, DecidableEq, Inhabited

/-- The legal-time window of an adaptation field extension. -/
structure LegalTimeWindow where
  valid : Bool
  offset : Nat
  deriving Repr, DecidableEq, Inhabited

/-- The seamless splice of an adaptation field extension. -/
structure SeamlessSplice where
  spliceType : Nat
  dtsNextAu : Nat
  deriving Repr, DecidableEq, Inhabited

/-- The extension of an adaptation field. -/
structure AfExtension where
  legalTimeWindow : Option LegalTimeWindow := none
  piecewiseRate : Option Nat := none
  seamlessSplice : Option SeamlessSplice := none
  deriving Repr, DecidableEq, Inhabited

/-- An adaptation field. `length` is the declared length byte as read; writing ignores it. -/
structure AdaptationField where
  length : Nat := 0
  discontinuity : Bool := false
  randomAccess : Bool := false
  esPriority : Bool := false
  pcr : Option Pcr := none
  opcr : Option Pcr := none
  spliceCountdown : Option Int := none
  privateData : Option (List UInt8) := none
  extension : Option AfExtension := none
  deriving Repr, DecidableEq, Inhabited

/-- A byte read as a two's-complement signed value. -/
def signedOfByte (b : Nat) : Int := if b < 128 then b else (b : Int) - 256

/-- The byte that holds a signed value in two's complement. -/
def byteOfSigned (v : Int) : Nat := (v % 256).toNat

/-- The bits of an optional field, or none when it is absent. -/
def optionBits {α : Type} (f : α → List Bool) : Option α → List Bool
  | some a => f a
  | none => []

open BitRead

namespace Pcr

/-- The clock in 27 MHz ticks. -/
def ticks (p : Pcr) : Nat := p.base * 300 + p.extension

/-- Decodes base, six reserved bits and extension. -/
def read : BitRead Pcr := do
  let base ← readBits 33
  skipBits 6
  let extension ← readBits 9
  return ⟨base, extension⟩

/-- Encodes base, six reserved one bits and extension. -/
def bits (p : Pcr) : List Bool := natBits 33 p.base ++ natBits 6 0x3F ++ natBits 9 p.extension

end Pcr

namespace AfExtension

/-- Bytes after the extension's length byte that its fields need. -/
def minLength (e : AfExtension) : Nat :=
  1 + (if e.legalTimeWindow.isSome then 2 else 0) + (if e.piecewiseRate.isSome then 3 else 0) +
    (if e.seamlessSplice.isSome then 5 else 0)

/-- Decodes the fields of a non-empty extension block. -/
def fields : BitRead AfExtension := do
  let ltwFlag ← readFlag
  let rateFlag ← readFlag
  let spliceFlag ← readFlag
  skipBits 5
  let legalTimeWindow ← readIf ltwFlag do
    let valid ← readFlag
    let offset ← readBits 15
    pure ⟨valid, offset⟩
  let piecewiseRate ← readIf rateFlag do
    skipBits 2
    readBits 22
  let seamlessSplice ← readIf spliceFlag do
    let spliceType ← readBits 4
    pure ⟨spliceType, ← readTimestamp⟩
  return { legalTimeWindow, piecewiseRate, seamlessSplice }

/-- Decodes a length-prefixed extension; an empty block has no fields. -/
def read : BitRead AfExtension := do
  let length ← readU8
  within length (if length = 0 then pure {} else fields)

/-- Encodes an extension with its minimal length. -/
def bits (e : AfExtension) : List Bool :=
  natBits 8 e.minLength ++
    [e.legalTimeWindow.isSome, e.piecewiseRate.isSome, e.seamlessSplice.isSome] ++
    natBits 5 0x1F ++
    optionBits (fun l : LegalTimeWindow => l.valid :: natBits 15 l.offset) e.legalTimeWindow ++
    optionBits (fun r => natBits 2 3 ++ natBits 22 r) e.piecewiseRate ++
    optionBits (fun s : SeamlessSplice => timestampBits s.spliceType s.dtsNextAu)
      e.seamlessSplice

end AfExtension

namespace AdaptationField

/-- Decodes the fields of a non-empty adaptation field block of declared length `length`. -/
def fields (length : Nat) : BitRead AdaptationField := do
  let discontinuity ← readFlag
  let randomAccess ← readFlag
  let esPriority ← readFlag
  let pcrFlag ← readFlag
  let opcrFlag ← readFlag
  let spliceFlag ← readFlag
  let privateFlag ← readFlag
  let extensionFlag ← readFlag
  let pcr ← readIf pcrFlag Pcr.read
  let opcr ← readIf opcrFlag Pcr.read
  let spliceCountdown ← readIf spliceFlag (signedOfByte <$> readU8)
  let privateData ← readIf privateFlag do
    let n ← readU8
    readBytes n
  let extension ← readIf extensionFlag AfExtension.read
  return { length, discontinuity, randomAccess, esPriority, pcr, opcr, spliceCountdown,
           privateData, extension }

/-- Decodes an adaptation field that must fit in `available` bytes, its length byte
included. -/
def read (available : Nat) : BitRead AdaptationField := do
  let length ← readU8
  if available < length + 1 then throw (.adaptationFieldOverflow length (available - 1))
  within length (if length = 0 then pure {} else fields length)

/-- The fewest bytes after the length byte that hold the present fields: none at all when
no field is present and no indicator is set. -/
def minLength (af : AdaptationField) : Nat :=
  let optional := (if af.pcr.isSome then 6 else 0) + (if af.opcr.isSome then 6 else 0) +
    (if af.spliceCountdown.isSome then 1 else 0) +
    (match af.privateData with | some d => 1 + d.length | none => 0) +
    (match af.extension with | some e => 1 + e.minLength | none => 0)
  if optional = 0 ∧ !(af.discontinuity || af.randomAccess || af.esPriority) then 0
  else 1 + optional

/-- Encodes an adaptation field with length `max target minLength`, filling the surplus
with `0xFF` stuffing. -/
def bits (af : AdaptationField) (target : Nat) : List Bool :=
  let min := af.minLength
  let length := max target min
  natBits 8 length ++
    if length = 0 then [] else
      [af.discontinuity, af.randomAccess, af.esPriority, af.pcr.isSome, af.opcr.isSome,
        af.spliceCountdown.isSome, af.privateData.isSome, af.extension.isSome] ++
      optionBits Pcr.bits af.pcr ++ optionBits Pcr.bits af.opcr ++
      optionBits (fun v => natBits 8 (byteOfSigned v)) af.spliceCountdown ++
      optionBits (fun d => natBits 8 d.length ++ bitsOf d) af.privateData ++
      optionBits AfExtension.bits af.extension ++
      (List.replicate (length - max min 1) (natBits 8 0xFF)).flatten

end AdaptationField

end MpegTs
