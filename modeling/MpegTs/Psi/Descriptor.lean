import MpegTs.Bits.Cursor
import MpegTs.Text.Utf8

/-!
# Descriptor loops

A descriptor is a tag byte, a length byte and that many data bytes; program info and ES
info in a PMT are loops of them. The ISO 639 language descriptor (tag `0x0A`) is decoded
into its entries of a three-byte language code and an audio type; every other descriptor,
and a language descriptor whose length is not a multiple of four, is kept as raw bytes.

* `Descriptor.decode` picks the form from tag and data, `Descriptor.bits` encodes one.
* `parseDescriptors` decodes a whole loop from its bytes; `readDescriptors n` reads an
  `n`-byte loop at the cursor.
* `descriptorsLength` is the encoded size of a loop.
-/

namespace MpegTs

/-- The tag of the ISO 639 language descriptor. -/
def languageTag : Nat := 0x0A

/-- One entry of a language descriptor. -/
structure LanguageEntry where
  code : List UInt8
  audioType : Nat
  deriving Repr, DecidableEq, Inhabited

/-- A descriptor: a decoded language descriptor, or any other kept as tag and data. -/
inductive Descriptor where
  | language (entries : List LanguageEntry)
  | other (tag : Nat) (data : List UInt8)
  deriving Repr, DecidableEq, Inhabited

namespace LanguageEntry

/-- The language code as text, ill-formed UTF-8 replaced. -/
def language (e : LanguageEntry) : String := Utf8.stringOfBytesLossy e.code

end LanguageEntry

/-- Splits language descriptor data into entries of three code bytes and an audio type;
bytes short of a whole entry are dropped. -/
def languageEntries : List UInt8 → List LanguageEntry
  | a :: b :: c :: t :: rest => ⟨[a, b, c], t.toNat⟩ :: languageEntries rest
  | _ => []

namespace Descriptor

/-- The descriptor's tag. -/
def tag : Descriptor → Nat
  | language _ => languageTag
  | other t _ => t

/-- Bytes of data after the tag and length bytes. -/
def dataLen : Descriptor → Nat
  | language es => es.length * 4
  | other _ d => d.length

/-- The form a tag and its data decode to. -/
def decode (tag : Nat) (data : List UInt8) : Descriptor :=
  if tag ≠ languageTag ∨ data.length % 4 ≠ 0 then other tag data
  else language (languageEntries data)

/-- Encodes tag, length and data. -/
def bits (d : Descriptor) : List Bool :=
  natBits 8 d.tag ++ natBits 8 d.dataLen ++
    match d with
    | language es => (es.map fun e => bitsOf e.code ++ natBits 8 e.audioType).flatten
    | other _ data => bitsOf data

end Descriptor

/-- Decodes a descriptor loop that fills `bytes` exactly; a descriptor cut short fails as a
read past the end. -/
def parseDescriptors : List UInt8 → Except Error (List Descriptor)
  | [] => .ok []
  | [_] => .error (.outOfData 8 0)
  | tag :: len :: rest =>
    if len.toNat ≤ rest.length then
      match parseDescriptors (rest.drop len.toNat) with
      | .ok ds => .ok (Descriptor.decode tag.toNat (rest.take len.toNat) :: ds)
      | .error e => .error e
    else .error (.outOfData (len.toNat * 8) (rest.length * 8))
termination_by bytes => bytes.length
decreasing_by simp only [List.length_cons, List.length_drop]; omega

/-- Reads an `n`-byte descriptor loop at the cursor. -/
def readDescriptors (n : Nat) : BitRead (List Descriptor) := do
  let block ← BitRead.readBytes n
  MonadExcept.ofExcept (parseDescriptors block)

/-- Bytes that a descriptor loop takes when encoded. -/
def descriptorsLength : List Descriptor → Nat
  | [] => 0
  | d :: ds => 2 + d.dataLen + descriptorsLength ds

/-- Encodes a descriptor loop. -/
def descriptorsBits (ds : List Descriptor) : List Bool :=
  (ds.map Descriptor.bits).flatten

end MpegTs
