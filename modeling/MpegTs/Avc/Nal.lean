import MpegTs.Bits.Cursor

/-!
# H.264 NAL units

An H.264 elementary stream in a PES payload is a sequence of NAL units, each introduced by
the start code `00 00 01` (a four-byte start code is a zero byte and a three-byte one).

* `nalUnits` splits a buffer at its start codes; each unit runs to the next start code, with
  trailing zero bytes dropped, and bytes before the first start code belong to no unit.
* `removeEmulationPrevention` drops the `03` of every `00 00 03`.
* `NalUnit.parse` decodes the header byte, the primary picture type of an access unit
  delimiter, and the first three fields of a slice header.
-/

namespace MpegTs

/-- NAL unit type of a coded slice of a non-IDR picture. -/
def nalTypeNonIdrSlice : Nat := 1

/-- NAL unit type of a coded slice of an IDR picture. -/
def nalTypeIdrSlice : Nat := 5

/-- NAL unit type of an access unit delimiter. -/
def nalTypeDelimiter : Nat := 9

/-- NAL unit type of a coded slice of an auxiliary picture. -/
def nalTypeAuxSlice : Nat := 19

/-- The first three fields of a slice header. -/
structure SliceHeader where
  firstMb : Nat
  sliceType : Nat
  ppsId : Nat
  deriving Repr, DecidableEq, Inhabited

/-- What is decoded after the NAL header byte. -/
inductive NalPayload where
  | delimiter (primaryPicType : Nat)
  | slice (header : SliceHeader)
  | other
  deriving Repr, DecidableEq, Inhabited

/-- A decoded NAL unit. -/
structure NalUnit where
  refIdc : Nat
  nalType : Nat
  payload : NalPayload
  deriving Repr, DecidableEq, Inhabited

/-- Whether a start code `00 00 01` begins the byte string. -/
def startsWithStartCode : List UInt8 → Bool
  | a :: b :: c :: _ => a == 0 && b == 0 && c == 1
  | _ => false

/-- Position of the first start code, counted from `i`; the scan is a loop over the bytes. -/
def findStartCodeFrom (i : Nat) : List UInt8 → Option Nat
  | [] => none
  | b :: rest =>
    if startsWithStartCode (b :: rest) then some i else findStartCodeFrom (i + 1) rest

/-- Position of the first start code. -/
def findStartCode (bs : List UInt8) : Option Nat := findStartCodeFrom 0 bs

/-- Drops trailing zero bytes. -/
def dropTrailingZeros (bs : List UInt8) : List UInt8 :=
  (bs.reverse.dropWhile (· == 0)).reverse

theorem findStartCode_ne_nil {bs : List UInt8} {pos : Nat} (h : findStartCode bs = some pos) :
    bs ≠ [] := by
  rintro rfl
  simp [findStartCode, findStartCodeFrom] at h

/-- The NAL units of a buffer, split at start codes. -/
def nalUnits (data : List UInt8) : List (List UInt8) :=
  match h : findStartCode data with
  | none => []
  | some pos =>
    let body := data.drop (pos + 3)
    let next := (findStartCode body).getD body.length
    dropTrailingZeros (body.take next) :: nalUnits (body.drop next)
termination_by data.length
decreasing_by
  have := findStartCode_ne_nil h
  have : 0 < data.length := List.length_pos_iff.mpr this
  simp only [List.length_drop]
  omega

/-- Drops the emulation prevention byte of every `00 00 03`, scanning left to right: a `03`
is dropped when the two bytes read just before it are zero. -/
def removeEmulationPrevention (bs : List UInt8) : List UInt8 := go 0 bs
where
  /-- The scan, `zeros` counting the zero bytes read since the last other byte. -/
  go (zeros : Nat) : List UInt8 → List UInt8
    | [] => []
    | b :: rest =>
      if 2 ≤ zeros ∧ b = 3 then go 0 rest
      else b :: go (if b = 0 then zeros + 1 else 0) rest

namespace removeEmulationPrevention

/-- Past two zeros the count no longer matters. -/
theorem go_of_two_le {zeros : Nat} (h : 2 ≤ zeros) : ∀ bs, go zeros bs = go 2 bs
  | [] => rfl
  | b :: rest => by
    by_cases hb : b = 3
    · simp [go, hb, h]
    · -- both scans keep `b`; past it both counts are at least two, or both zero
      simp only [go, hb, and_false, if_false]
      by_cases hz : b = 0
      · rw [if_pos hz, if_pos hz, go_of_two_le (by omega) rest,
          go_of_two_le (by omega : 2 ≤ 2 + 1) rest]
      · rw [if_neg hz, if_neg hz]

end removeEmulationPrevention

/-- The scan as the loop over triples reads it: `00 00 03` gives `00 00` and the scan
continues after it. -/
theorem removeEmulationPrevention_zero_zero_three (rest : List UInt8) :
    removeEmulationPrevention (0 :: 0 :: 3 :: rest) = 0 :: 0 :: removeEmulationPrevention rest := by
  simp [removeEmulationPrevention, removeEmulationPrevention.go]

/-- Any other triple keeps its first byte and the scan moves on by one. -/
theorem removeEmulationPrevention_cons {a b c : UInt8} (rest : List UInt8)
    (h : ¬(a = 0 ∧ b = 0 ∧ c = 3)) :
    removeEmulationPrevention (a :: b :: c :: rest) =
      a :: removeEmulationPrevention (b :: c :: rest) := by
  open removeEmulationPrevention in
  simp only [removeEmulationPrevention]
  by_cases ha : a = 0
  · -- after one zero the scan only differs from a fresh one on a following `00 03`
    subst ha
    have hbc : ¬(b = 0 ∧ c = 3) := by simpa using h
    by_cases hb : b = 0
    · subst hb
      have hc : c ≠ 3 := by simpa using hbc
      by_cases hc0 : c = 0
      · subst hc0
        simp only [go, hc, and_false, if_false, if_true]
        rw [go_of_two_le (by omega : 2 ≤ 3) rest]
      · simp [go, hc, hc0]
    · simp [go, hb]
  · simp [go, ha]

/-- A list shorter than a triple is kept. -/
theorem removeEmulationPrevention_of_length_lt {bs : List UInt8} (h : bs.length < 3) :
    removeEmulationPrevention bs = bs := by
  match bs, h with
  | [], _ => rfl
  | [a], _ => simp [removeEmulationPrevention, removeEmulationPrevention.go]
  | [a, b], _ =>
    by_cases ha : a = 0 <;>
      simp [removeEmulationPrevention, removeEmulationPrevention.go, ha]

open BitRead in
/-- Decodes `first_mb_in_slice`, `slice_type` and `pic_parameter_set_id`. -/
def SliceHeader.read : BitRead SliceHeader := do
  let firstMb ← readUe
  let sliceType ← readUe
  let ppsId ← readUe
  return ⟨firstMb, sliceType, ppsId⟩

/-- Decodes a slice header from the first 32 bytes of a slice's body, emulation prevention
removed; a fault is reported against the slice's NAL unit type. -/
def SliceHeader.ofBody (nalType : Nat) (body : List UInt8) : Except Error SliceHeader :=
  match SliceHeader.read.runOn (removeEmulationPrevention (body.take 32)) with
  | .ok h => .ok h
  | .error (.read f) => .error (.invalidNalUnit (.sliceHeader nalType f))
  | .error e => .error e

namespace NalUnit

/-- Decodes a NAL unit that starts at its header byte. -/
def parse : List UInt8 → Except Error NalUnit
  | [] => .error (.invalidNalUnit .empty)
  | header :: body =>
    let h := header.toNat
    if h ≥ 0x80 then .error (.invalidNalUnit (.forbiddenBit h)) else
    let refIdc := h / 32 % 4
    let nalType := h % 32
    let payload : Except Error NalPayload :=
      if nalType = nalTypeDelimiter then
        match body with
        | b :: _ => .ok (.delimiter (b.toNat / 32))
        | [] => .error (.invalidNalUnit .delimiterWithoutPayload)
      else if nalType = nalTypeNonIdrSlice ∨ nalType = nalTypeIdrSlice ∨ nalType = nalTypeAuxSlice
      then .slice <$> SliceHeader.ofBody nalType body
      else .ok .other
    payload.map fun payload => { refIdc, nalType, payload }

/-- The primary picture type of an access unit delimiter. -/
def primaryPicType (n : NalUnit) : Option Nat :=
  match n.payload with
  | .delimiter t => some t
  | _ => none

/-- The unit is an access unit delimiter. -/
def isDelimiter (n : NalUnit) : Bool := n.nalType == nalTypeDelimiter

/-- The unit is a coded slice of an IDR picture. -/
def isIdrSlice (n : NalUnit) : Bool := n.nalType == nalTypeIdrSlice

end NalUnit

end MpegTs
