import MpegTs.Packet.Codec
import MpegTs.Proofs.Readers

/-!
# Transport packets read back as written

`TsPacket.write` fails exactly when the payload does not fit the 184 bytes after the header
or a given adaptation field does not fit the room the payload leaves. When it succeeds it
writes 188 bytes, and `TsPacket.parse` reads back, for every packet whose fields fit their
widths (`TsPacket.Fits`):

* the header with the transport error flag cleared and the adaptation field control saying
  what was written: an adaptation field (bit 1) and a payload (bit 0);
* the payload as given, an absent one absent;
* the adaptation field as given, every field kept and its length the room left, `183 - n`
  for a payload of `n` bytes; without one, a default field exactly when the payload leaves
  room for it.

The adaptation field and its extension are read against their encoders with the combinator
lemmas of `MpegTs.Proofs.Readers`; `AdaptationField.fieldBits` names the fields before the
stuffing, and `TsPacket.writtenBits` the bits a packet is written as before they are packed
into bytes.

## Main statements

* `AdaptationField.reads_read`, `TsHeader.reads_read`: the decoders read back what the
  encoders wrote.
* `TsPacket.write_ok_iff`: when writing succeeds.
* `TsPacket.write_round_trip`: when writing succeeds, and the round trip of a packet.
-/

namespace MpegTs

open BitRead

theorem length_optionBits_const {α : Type} {f : α → List Bool} {n : Nat} (x : Option α)
    (h : ∀ a, (f a).length = n) : (optionBits f x).length = if x.isSome then n else 0 := by
  cases x with
  | none => rfl
  | some a => exact h a

/-! ## Packets whose fields fit -/

/-- A clock reference fits its 33-bit base and 9-bit extension. -/
structure Pcr.Fits (p : Pcr) : Prop where
  base : p.base < 2 ^ 33
  extension : p.extension < 2 ^ 9

/-- The fields of an adaptation field extension fit the widths they are written in. -/
structure AfExtension.Fits (e : AfExtension) : Prop where
  legalTimeWindow : ∀ l, e.legalTimeWindow = some l → l.offset < 2 ^ 15
  piecewiseRate : ∀ r, e.piecewiseRate = some r → r < 2 ^ 22
  seamlessSplice :
    ∀ s, e.seamlessSplice = some s → s.spliceType < 2 ^ 4 ∧ s.dtsNextAu < 2 ^ 33

/-- The fields of an adaptation field fit the widths they are written in; the splice
countdown is a signed byte. -/
structure AdaptationField.Fits (af : AdaptationField) : Prop where
  pcr : ∀ p, af.pcr = some p → p.Fits
  opcr : ∀ p, af.opcr = some p → p.Fits
  spliceCountdown : ∀ v, af.spliceCountdown = some v → -128 ≤ v ∧ v < 128
  extension : ∀ e, af.extension = some e → e.Fits

/-- The PID, scrambling control and continuity counter fit their widths. -/
structure TsHeader.Fits (h : TsHeader) : Prop where
  pid : h.pid < 2 ^ 13
  scrambling : h.scrambling < 2 ^ 2
  continuity : h.continuity < 2 ^ 4

/-- The fields of a packet's header and adaptation field fit their widths. -/
structure TsPacket.Fits (p : TsPacket) : Prop where
  header : p.header.Fits
  adaptationField : ∀ af, p.adaptationField = some af → af.Fits

/-! ## Clock references and signed bytes -/

@[simp] theorem Pcr.length_bits (p : Pcr) : p.bits.length = 48 := by
  simp [Pcr.bits]

theorem Pcr.reads_read {o : Nat} {p : Pcr} (hf : p.Fits) : Reads o Pcr.read p.bits p := by
  unfold Pcr.read Pcr.bits
  simp only [List.append_assoc]
  exact Reads.bind (Reads.bits hf.base) (Reads.bind (Reads.skip (length_natBits 6 _) (by decide))
    (Reads.bind_last (Reads.bits hf.extension) rfl))

theorem byteOfSigned_lt (v : Int) : byteOfSigned v < 2 ^ 8 := by
  unfold byteOfSigned
  omega

/-- A signed byte reads back from its two's complement. -/
theorem signedOfByte_byteOfSigned {v : Int} (h : -128 ≤ v ∧ v < 128) :
    signedOfByte (byteOfSigned v) = v := by
  unfold signedOfByte byteOfSigned
  split <;> omega

/-! ## The adaptation field extension -/

namespace AfExtension

/-- The bits of the extension after its length byte. -/
def fieldBits (e : AfExtension) : List Bool :=
  [e.legalTimeWindow.isSome, e.piecewiseRate.isSome, e.seamlessSplice.isSome] ++
    natBits 5 0x1F ++
    optionBits (fun l : LegalTimeWindow => l.valid :: natBits 15 l.offset) e.legalTimeWindow ++
    optionBits (fun r => natBits 2 3 ++ natBits 22 r) e.piecewiseRate ++
    optionBits (fun s : SeamlessSplice => timestampBits s.spliceType s.dtsNextAu)
      e.seamlessSplice

theorem bits_eq (e : AfExtension) : e.bits = natBits 8 e.minLength ++ e.fieldBits := by
  simp only [bits, fieldBits, List.append_assoc]

theorem minLength_pos (e : AfExtension) : 0 < e.minLength := by
  unfold minLength
  omega

theorem minLength_lt (e : AfExtension) : e.minLength < 2 ^ 8 := by
  unfold minLength
  split_ifs <;> omega

theorem length_fieldBits (e : AfExtension) : e.fieldBits.length = 8 * e.minLength := by
  simp only [fieldBits, List.length_append, List.length_cons, List.length_nil, length_natBits]
  rw [length_optionBits_const (n := 16) _ fun l => ?_,
    length_optionBits_const (n := 24) _ fun r => ?_,
    length_optionBits_const (n := 40) _ fun s => ?_]
  · unfold minLength
    split_ifs <;> omega
  all_goals simp [timestampBits, markedTimestampBits]

@[simp] theorem length_bits (e : AfExtension) : e.bits.length = 8 * (1 + e.minLength) := by
  rw [bits_eq, List.length_append, length_natBits, length_fieldBits]
  omega

/-- The extension decoder reads back what the encoder wrote, from a byte boundary. -/
theorem reads_read {o : Nat} (ho : o % 8 = 0) {e : AfExtension} (hf : e.Fits) :
    Reads o AfExtension.read e.bits e := by
  rw [bits_eq]
  unfold AfExtension.read
  refine Reads.bind (Reads.u8 (minLength_lt e)) (Reads.block ?_ (length_fieldBits e) ?_ ?_)
  · simp only [length_natBits]
    omega
  · have := minLength_lt e
    omega
  rw [if_neg (Nat.pos_iff_ne_zero.1 (minLength_pos e))]
  refine ReadsPrefix.of_reads ?_
  unfold fields fieldBits
  simp only [List.append_assoc, List.cons_append, List.nil_append]
  -- three flags and five reserved bits, then the fields the flags announce
  refine Reads.flag_bind (Reads.flag_bind (Reads.flag_bind
    (Reads.bind (Reads.skip (length_natBits 5 _) (by decide)) (Reads.of_mod (o := 0) rfl ?_))))
  refine Reads.optional_bind _ (fun l hl => ⟨Reads.flag_bind
    (Reads.bind_last (Reads.bits (hf.legalTimeWindow l hl)) rfl), by simp⟩) ?_
  refine Reads.optional_bind _ (fun r hr => ⟨Reads.bind (Reads.skip (length_natBits 2 3) (by decide))
    (Reads.bits (hf.piecewiseRate r hr)), by simp⟩) ?_
  refine Reads.bind_last (Reads.optional _ fun s hs => ?_) rfl
  obtain ⟨ht, hd⟩ := hf.seamlessSplice s hs
  exact Reads.bind (Reads.bits ht) (Reads.bind_last (Reads.timestamp hd) rfl)

end AfExtension

/-! ## The adaptation field -/

namespace AdaptationField

/-- The bits of a non-empty adaptation field after its length byte, before the stuffing. -/
def fieldBits (af : AdaptationField) : List Bool :=
  [af.discontinuity, af.randomAccess, af.esPriority, af.pcr.isSome, af.opcr.isSome,
      af.spliceCountdown.isSome, af.privateData.isSome, af.extension.isSome] ++
    optionBits Pcr.bits af.pcr ++ optionBits Pcr.bits af.opcr ++
    optionBits (fun v => natBits 8 (byteOfSigned v)) af.spliceCountdown ++
    optionBits (fun d => natBits 8 d.length ++ bitsOf d) af.privateData ++
    optionBits AfExtension.bits af.extension

theorem bits_eq (af : AdaptationField) (target : Nat) :
    af.bits target = natBits 8 (max target af.minLength) ++
      if max target af.minLength = 0 then [] else
        af.fieldBits ++ (List.replicate (max target af.minLength - max af.minLength 1)
          (natBits 8 0xFF)).flatten :=
  rfl

/-- The fields take the bytes `minLength` counts, and at least the flag byte. -/
theorem length_fieldBits (af : AdaptationField) :
    af.fieldBits.length = 8 * max af.minLength 1 := by
  simp only [fieldBits, List.length_append, List.length_cons, List.length_nil]
  rw [length_optionBits_const (n := 48) af.pcr fun p => Pcr.length_bits p,
    length_optionBits_const (n := 48) af.opcr fun p => Pcr.length_bits p,
    length_optionBits_const (n := 8) af.spliceCountdown fun v => length_natBits 8 _]
  unfold minLength
  -- the private data and the extension are sized by a `match` in `minLength`
  cases af.privateData <;> cases af.extension <;>
    simp only [optionBits, List.length_append, length_natBits, length_bitsOf,
      AfExtension.length_bits, List.length_nil]
  -- no field and no indicator: the flag byte alone
  all_goals
    by_cases hB : (!(af.discontinuity || af.randomAccess || af.esPriority)) = true <;>
    simp only [hB, and_true] <;>
    split_ifs <;> first | contradiction | omega

@[simp] theorem length_bits (af : AdaptationField) (target : Nat) :
    (af.bits target).length = 8 * (1 + max target af.minLength) := by
  have h := length_fieldBits af
  rw [bits_eq]
  split_ifs with h0
  · simp only [List.length_append, length_natBits, List.length_nil]
    omega
  · simp only [List.length_append, length_natBits, h, length_stuffing]
    omega

/-- An adaptation field that needs no byte has no field and no indicator set. -/
theorem eq_default_of_minLength_eq_zero {af : AdaptationField} (h : af.minLength = 0) :
    { af with length := 0 } = {} := by
  unfold minLength at h
  obtain ⟨_, d, r, p, pcr, opcr, sc, pd, ext⟩ := af
  cases pd <;> cases ext <;> simp at h ⊢
  simp_all

theorem privateData_length_lt {af : AdaptationField} (h : af.minLength < 2 ^ 8) :
    ∀ d, af.privateData = some d → d.length < 2 ^ 8 := by
  intro d hd
  unfold minLength at h
  simp only [hd] at h
  split_ifs at h <;> omega

/-- The fields decoder reads back the fields an adaptation field was written with. -/
theorem reads_fields {af : AdaptationField} (hf : af.Fits) (hpd : af.minLength < 2 ^ 8)
    (length : Nat) : Reads 0 (fields length) af.fieldBits { af with length } := by
  unfold fields fieldBits
  simp only [List.append_assoc, List.cons_append, List.nil_append]
  -- the flag byte, then the fields it announces
  refine Reads.flag_bind (Reads.flag_bind (Reads.flag_bind (Reads.flag_bind (Reads.flag_bind
    (Reads.flag_bind (Reads.flag_bind (Reads.flag_bind (Reads.of_mod (o := 0) rfl ?_))))))))
  refine Reads.optional_bind _ (fun p hp => ⟨Pcr.reads_read (hf.pcr p hp), by simp⟩) ?_
  refine Reads.optional_bind _ (fun p hp => ⟨Pcr.reads_read (hf.opcr p hp), by simp⟩) ?_
  refine Reads.optional_bind _ (fun v hv => ⟨?_, by simp⟩) ?_
  · have h := Reads.map signedOfByte (Reads.u8 (o := 0) (byteOfSigned_lt v))
    rwa [signedOfByte_byteOfSigned (hf.spliceCountdown v hv)] at h
  refine Reads.optional_bind _ (fun d hd => ⟨Reads.bind
    (Reads.u8 (privateData_length_lt hpd d hd))
    (Reads.bytes (by simp) d (by have := privateData_length_lt hpd d hd; omega)), by simp⟩) ?_
  exact Reads.bind_last (Reads.optional _ fun e he =>
    AfExtension.reads_read rfl (hf.extension e he)) rfl

/-- The adaptation field decoder reads back what the encoder wrote for a target length, with
the length the encoder declared, when it fits the bytes available. -/
theorem reads_read {o : Nat} (ho : o % 8 = 0) {af : AdaptationField} (hf : af.Fits)
    (target available : Nat) (hlen : max target af.minLength < 2 ^ 8)
    (hfit : max target af.minLength + 1 ≤ available) :
    Reads o (AdaptationField.read available) (af.bits target)
      { af with length := max target af.minLength } := by
  have hmin : af.minLength < 2 ^ 8 := Nat.lt_of_le_of_lt (Nat.le_max_right _ _) hlen
  rw [bits_eq]
  unfold AdaptationField.read
  dsimp only
  refine Reads.bind (Reads.u8 hlen) (Reads.ite_neg (by omega) ?_)
  by_cases h0 : max target af.minLength = 0
  · -- an empty field: no byte follows the length, and nothing is set
    have hdefault : { af with length := 0 } = {} := eq_default_of_minLength_eq_zero (by omega)
    simp only [h0, if_true]
    rw [hdefault]
    exact Reads.block (by simp only [length_natBits]; omega) rfl (by omega) (ReadsPrefix.of_reads
      (Reads.pure _))
  · simp only [h0, if_false]
    refine Reads.block (by simp only [length_natBits]; omega) ?_ (by omega)
      (ReadsPrefix.of_append (reads_fields hf hmin _) _)
    simp only [List.length_append, length_fieldBits, length_stuffing]
    omega

end AdaptationField

/-! ## The packet header -/

/-- The header decoder reads back a header without the transport error flag. -/
theorem TsHeader.reads_read {o : Nat} {h : TsHeader} (hf : h.Fits)
    (hte : h.transportError = false) (hafc : h.adaptationControl < 2 ^ 2) :
    Reads o TsHeader.read h.bits h := by
  unfold TsHeader.read TsHeader.bits
  dsimp only
  simp only [List.append_assoc, List.cons_append, List.nil_append]
  refine Reads.bind (Reads.u8 (by decide)) (Reads.ite_neg (by decide) ?_)
  refine Reads.flag_bind (Reads.flag_bind (Reads.flag_bind
    (Reads.bind (Reads.bits hf.pid) (Reads.ite_neg (by simp [hte]) ?_))))
  exact Reads.bind (Reads.bits hf.scrambling) (Reads.bind (Reads.bits hafc)
    (Reads.bind_last (Reads.bits hf.continuity) rfl))

@[simp] theorem TsHeader.length_bits (h : TsHeader) : h.bits.length = 32 := by
  simp [TsHeader.bits]

/-! ## Writing a packet -/

namespace TsPacket

/-- The header a packet is written with, `room` bytes left for the adaptation field. -/
def writtenHeader (p : TsPacket) (room : Nat) : TsHeader :=
  { p.header with
    transportError := false
    adaptationControl :=
      (if (p.writtenField room).isSome then 2 else 0) + (if p.payload.isSome then 1 else 0) }

/-- The bits a packet is written as, for a payload of `n` bytes: the header, the adaptation
field filling the room the payload leaves, and the payload. -/
def writtenBits (p : TsPacket) (n : Nat) : List Bool :=
  (p.writtenHeader (184 - n)).bits ++
    optionBits (fun af => af.bits (183 - n)) (p.writtenField (184 - n)) ++
    bitsOf (p.payload.getD [])

theorem writtenHeader_fits {p : TsPacket} (hf : p.header.Fits) (room : Nat) :
    (p.writtenHeader room).Fits :=
  ⟨hf.pid, hf.scrambling, hf.continuity⟩

theorem adaptationControl_writtenHeader_lt (p : TsPacket) (room : Nat) :
    (p.writtenHeader room).adaptationControl < 2 ^ 2 := by
  simp only [writtenHeader]
  split_ifs <;> decide

theorem hasAdaptationField_writtenHeader (p : TsPacket) (room : Nat) :
    (p.writtenHeader room).hasAdaptationField = (p.writtenField room).isSome := by
  simp only [TsHeader.hasAdaptationField, writtenHeader]
  cases (p.writtenField room).isSome <;> cases p.payload.isSome <;> rfl

theorem hasPayload_writtenHeader (p : TsPacket) (room : Nat) :
    (p.writtenHeader room).hasPayload = p.payload.isSome := by
  simp only [TsHeader.hasPayload, writtenHeader]
  cases (p.writtenField room).isSome <;> cases p.payload.isSome <;> rfl

/-- The field written is the given one, else a default one when the payload leaves room. -/
theorem writtenField_eq (p : TsPacket) (n : Nat) (hn : n ≤ 184) :
    p.writtenField (184 - n) =
      if p.adaptationField.isNone ∧ n = 184 then none else some (p.adaptationField.getD {}) := by
  unfold writtenField
  cases p.adaptationField with
  | some af => rfl
  | none =>
    by_cases h : n = 184
    · simp [h]
    · simp only [Option.isNone_none, true_and, if_neg h, Option.getD_none]
      rw [if_neg (by omega)]

theorem fits_writtenField {p : TsPacket} (hf : p.Fits) (room : Nat) :
    ∀ af, p.writtenField room = some af → af.Fits := by
  intro af haf
  cases hp : p.adaptationField with
  | some a =>
    simp only [writtenField, hp, Option.some.injEq] at haf
    exact haf ▸ hf.adaptationField a hp
  | none =>
    simp only [writtenField, hp] at haf
    split at haf
    · cases haf
    cases haf
    -- the default field has no field at all
    exact ⟨fun _ h => (by cases h), fun _ h => (by cases h), fun _ h => (by cases h),
      fun _ h => (by cases h)⟩

variable {p : TsPacket} {n : Nat}

/-- A field that fits when given fits when written: the default one needs no byte. -/
theorem minLength_writtenField_le {room : Nat}
    (h : ∀ af, p.adaptationField = some af → 1 + af.minLength ≤ room) :
    ∀ af, p.writtenField room = some af → 1 + af.minLength ≤ room := by
  intro af hw
  cases hp : p.adaptationField with
  | some a =>
    simp only [writtenField, hp, Option.some.injEq] at hw
    exact hw ▸ h a hp
  | none =>
    simp only [writtenField, hp] at hw
    split at hw
    · cases hw
    · cases hw
      show 1 + 0 ≤ room
      omega

/-- When the payload and the field fit, the packet is its header, the field filling the room
the payload leaves, and the payload. -/
theorem write_eq_ok (hpay : (p.payload.getD []).length = n) (hn : n ≤ 184)
    (hroom : ∀ af, p.writtenField (184 - n) = some af → 1 + af.minLength ≤ 184 - n) :
    p.write = .ok (packBits (p.writtenBits n)) := by
  unfold write writtenBits writtenHeader
  simp only [packetBodySize, hpay]
  rw [if_neg (by omega)]
  -- the field check is the only other way to fail
  cases hw : p.writtenField (184 - n) with
  | none => rfl
  | some af =>
    have h := hroom af hw
    dsimp only
    rw [if_neg (by omega), show 184 - n - 1 = 183 - n by omega]
    rfl

/-- Writing succeeds exactly when the payload fits the packet and a given adaptation field
fits the room the payload leaves. -/
theorem write_ok_iff (p : TsPacket) :
    (∃ bytes, p.write = .ok bytes) ↔
      (p.payload.getD []).length ≤ 184 ∧
        ∀ af, p.adaptationField = some af →
          1 + af.minLength ≤ 184 - (p.payload.getD []).length := by
  constructor
  · rintro ⟨bytes, hw⟩
    unfold write at hw
    dsimp only at hw
    -- the conditions are stated over `packetBodySize`, as the encoder tests them, so that
    -- `if_pos` finds the encoder's own decision procedure
    by_cases hn : packetBodySize < (p.payload.getD []).length
    · rw [if_pos hn] at hw
      cases hw
    rw [if_neg hn] at hw
    refine ⟨by simp only [packetBodySize] at hn; omega, fun af haf => ?_⟩
    simp only [writtenField, haf] at hw
    by_cases hroom : packetBodySize - (p.payload.getD []).length < 1 + af.minLength
    · rw [if_pos hroom] at hw
      cases hw
    · simp only [packetBodySize] at hroom
      omega
  · rintro ⟨hn, haf⟩
    exact ⟨_, write_eq_ok rfl hn (minLength_writtenField_le haf)⟩

/-! ## Reading a written packet -/

theorem writtenField_eq_none {room : Nat} (h : p.writtenField room = none) : room = 0 := by
  unfold writtenField at h
  cases hp : p.adaptationField with
  | some af =>
    rw [hp] at h
    cases h
  | none =>
    rw [hp] at h
    by_contra hr
    rw [if_neg hr] at h
    cases h

/-- The header and the adaptation field fill the 188 bytes with the payload. -/
theorem length_writtenFieldBits (hn : n ≤ 184)
    (hroom : ∀ af, p.writtenField (184 - n) = some af → 1 + af.minLength ≤ 184 - n) :
    (optionBits (fun af => af.bits (183 - n)) (p.writtenField (184 - n))).length =
      8 * (184 - n) := by
  cases hw : p.writtenField (184 - n) with
  | none =>
    have h := writtenField_eq_none hw
    simp only [optionBits, List.length_nil]
    omega
  | some af =>
    have h := hroom af hw
    simp only [optionBits, AdaptationField.length_bits]
    omega

theorem length_writtenBits (hpay : (p.payload.getD []).length = n) (hn : n ≤ 184)
    (hroom : ∀ af, p.writtenField (184 - n) = some af → 1 + af.minLength ≤ 184 - n) :
    (p.writtenBits n).length = 8 * 188 := by
  rw [writtenBits, List.length_append, List.length_append, TsHeader.length_bits,
    length_writtenFieldBits hn hroom, length_bitsOf, hpay]
  omega

/-- The decoder reads a written packet back: the header as written, the adaptation field
with the length that fills the room, and the payload. -/
theorem runOn_body (hf : p.Fits) (hpay : (p.payload.getD []).length = n) (hn : n ≤ 184)
    (hroom : ∀ af, p.writtenField (184 - n) = some af → 1 + af.minLength ≤ 184 - n)
    {data : List UInt8} (hb : bitsOf data = p.writtenBits n) :
    body.runOn data = .ok
      { header := p.writtenHeader (184 - n)
        adaptationField := (p.writtenField (184 - n)).map fun af => { af with length := 183 - n }
        payload := p.payload } := by
  -- the adaptation field, after the 32 bits of the header
  have hfield : Reads 32
      (readIf (p.writtenHeader (184 - n)).hasAdaptationField
        (get >>= fun c => AdaptationField.read c.bytesRemaining))
      (optionBits (fun af => af.bits (183 - n)) (p.writtenField (184 - n)))
      ((p.writtenField (184 - n)).map fun af => { af with length := 183 - n }) := by
    rw [hasAdaptationField_writtenHeader]
    refine Reads.optional_map _ fun af haf => Reads.remaining_bind fun m hm => ?_
    have hmax : max (183 - n) af.minLength = 183 - n := by
      have := hroom af haf
      omega
    rw [AdaptationField.length_bits, hmax] at hm
    have h := AdaptationField.reads_read (o := 32) rfl (fits_writtenField hf _ af haf) (183 - n) m
      (by rw [hmax]; omega) (by rw [hmax]; omega)
    rwa [hmax] at h
  rw [writtenBits] at hb
  have hlen := length_writtenFieldBits hn hroom
  have hhead : bitsOf data = [] ++ (p.writtenHeader (184 - n)).bits ++
      (optionBits (fun af => af.bits (183 - n)) (p.writtenField (184 - n)) ++
        bitsOf (p.payload.getD [])) := by
    rw [hb, List.nil_append, List.append_assoc]
  unfold runOn body EStateM.run
  dsimp only
  -- the header first, from the packet's first bit
  rw [BitCursor.ofBytes_eq_atBit, Reads.bind_at (TsHeader.reads_read
    (writtenHeader_fits hf.header _) rfl (adaptationControl_writtenHeader_lt p _)) hhead
    List.length_nil rfl]
  simp only [Nat.zero_add, TsHeader.length_bits]
  rw [Reads.bind_at hfield hb (TsHeader.length_bits _) rfl, hasPayload_writtenHeader]
  -- the payload is the rest of the packet, on the byte boundary after the adaptation field
  cases hp : p.payload with
  | none => rfl
  | some x =>
    rw [hp, Option.getD_some] at hb
    have hdrop := drop_eq_of_bitsOf hb
      (by rw [List.length_append, TsHeader.length_bits, hlen]; omega)
    rw [List.length_append, TsHeader.length_bits, hlen] at hdrop
    rw [hlen]
    simp only [readIf, Option.isSome_some, if_true, bind_map_left]
    rw [remainingSlice_bind_atBit (by omega), hdrop]
    rfl

/-! ## The round trip -/

/-- A packet whose fields fit is written when its payload and its adaptation field fit, as
188 bytes that read back as the packet: the header with the transport error flag cleared and
the adaptation field control saying what was written, the adaptation field filling the room
the payload leaves (a default one when none is given and there is room), and the payload. -/
theorem write_round_trip (p : TsPacket) (hf : p.Fits) :
    ((∃ bytes, p.write = .ok bytes) ↔
      (p.payload.getD []).length ≤ 184 ∧
        ∀ af, p.adaptationField = some af →
          1 + af.minLength ≤ 184 - (p.payload.getD []).length) ∧
    ∀ bytes, p.write = .ok bytes → bytes.length = 188 ∧
      TsPacket.parse bytes = .ok
        { header :=
            { p.header with
              transportError := false
              adaptationControl :=
                (if p.adaptationField.isNone ∧ (p.payload.getD []).length = 184 then 0 else 2) +
                  (if p.payload.isSome then 1 else 0) }
          adaptationField :=
            if p.adaptationField.isNone ∧ (p.payload.getD []).length = 184 then none
            else some { p.adaptationField.getD {} with
              length := 183 - (p.payload.getD []).length }
          payload := p.payload } := by
  refine ⟨write_ok_iff p, fun bytes hw => ?_⟩
  obtain ⟨hn, haf⟩ := (write_ok_iff p).1 ⟨bytes, hw⟩
  have hroom := minLength_writtenField_le haf
  rw [write_eq_ok rfl hn hroom] at hw
  cases hw
  -- header, adaptation field and payload fill the 188 bytes exactly
  have hlen := length_writtenBits rfl hn hroom
  have hbits : bitsOf (packBits (p.writtenBits (p.payload.getD []).length)) =
      p.writtenBits (p.payload.getD []).length :=
    bitsOf_packBits (by rw [hlen])
  have hsize := congrArg List.length hbits
  rw [length_bitsOf, hlen] at hsize
  refine ⟨by omega, ?_⟩
  rw [parse, if_neg (by unfold packetSize; omega),
    List.take_of_length_le (by unfold packetSize; omega),
    runOn_body hf rfl hn hroom hbits, writtenHeader, writtenField_eq p _ hn]
  -- the field is dropped only for a full payload and no field given
  by_cases hc : p.adaptationField.isNone ∧ (p.payload.getD []).length = 184
  · simp only [if_pos hc, Option.isSome_none, Option.map_none, Bool.false_eq_true, if_false]
  · simp only [if_neg hc, Option.isSome_some, Option.map_some, if_true]

/-- A packet with a clock reference and four payload bytes: its adaptation field grows to
the 179 bytes the payload leaves. -/
def timedPacket : TsPacket :=
  { header := { payloadStart := true, pid := 0x100, continuity := 7 }
    adaptationField := some { randomAccess := true, pcr := some ⟨90000, 0⟩ }
    payload := some [0, 0, 1, 0xE0] }

theorem timedPacket_fits : timedPacket.Fits where
  header := ⟨by decide, by decide, by decide⟩
  adaptationField := by
    rintro af ⟨⟩
    exact ⟨by rintro p ⟨⟩; exact ⟨by decide, by decide⟩, fun _ h => (by cases h),
      fun _ h => (by cases h), fun _ h => (by cases h)⟩

theorem write_round_trip_timedPacket :
    timedPacket.Fits ∧ ∃ bytes, timedPacket.write = .ok bytes ∧ bytes.length = 188 ∧
      TsPacket.parse bytes = .ok
      { header := { payloadStart := true, pid := 0x100, adaptationControl := 3, continuity := 7 }
        adaptationField := some { length := 179, randomAccess := true, pcr := some ⟨90000, 0⟩ }
        payload := some [0, 0, 1, 0xE0] } := by
  have h := write_round_trip timedPacket timedPacket_fits
  obtain ⟨bytes, hw⟩ := h.1.2 ⟨by decide, fun af haf => by cases haf; decide⟩
  exact ⟨timedPacket_fits, bytes, hw, h.2 bytes hw⟩

end TsPacket

end MpegTs
