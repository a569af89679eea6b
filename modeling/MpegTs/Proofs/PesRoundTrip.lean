import MpegTs.Pes.Packet
import MpegTs.Proofs.Readers

/-!
# PES packets read back as written

`PesPacket.parse` inverts `PesPacket.write` on every header whose fields fit the widths they
are written in (`PesHeader.Fits`): parsing a written packet gives back its payload and its
header, except that the header data length becomes the one the writer declares, the larger
of the given length and the bytes the present fields need.

The encoders write each optional field with a `match`; the `bits_eq` lemmas restate them
with `optionBits`, and `PesOptionalHeader.fieldBits` names the fields that the header data
block holds before its stuffing. Each decoder is then read against its encoder with the
combinator lemmas of `MpegTs.Proofs.Readers`.

## Main statements

* `PesExtension.reads_read`, `PesOptionalHeader.reads_read`, `PesHeader.reads_read`: each
  decoder reads back what its encoder wrote.
* `PesHeader.length_bits`: a written header takes `headerLen` bytes.
* `PesPacket.parse_write`: the round trip of a whole packet.
-/

namespace MpegTs

open BitRead

/-- A field written by a `match` on an option is its `optionBits`. -/
theorem optionBits_eq_of {α : Type} {f : α → List Bool} {x : Option α} {field : List Bool}
    (hsome : ∀ a, x = some a → field = f a) (hnone : x = none → field = []) :
    field = optionBits f x := by
  cases x with
  | none => exact hnone rfl
  | some a => exact hsome a rfl

theorem length_optionBits {α : Type} {f : α → List Bool} {s : α → Nat} (x : Option α)
    (h : ∀ a, x = some a → (f a).length = 8 * s a) :
    (optionBits f x).length = 8 * optionSize s x := by
  cases x with
  | none => rfl
  | some a => exact h a rfl

/-! ## Headers whose fields fit -/

/-- The fields of a PES extension fit the widths they are written in. -/
structure PesExtension.Fits (e : PesExtension) : Prop where
  privateData : ∀ d, e.privateData = some d → d.length = 16
  packHeader : ∀ d, e.packHeader = some d → d.length < 2 ^ 8
  sequenceCounter : ∀ s, e.sequenceCounter = some s →
    s.counter < 2 ^ 7 ∧ s.sourceStuffLength < 2 ^ 6
  pStdBuffer : ∀ b, e.pStdBuffer = some b → b.size < 2 ^ 13
  extension2 : ∀ d, e.extension2 = some d → d.length < 2 ^ 7

/-- The fields of an optional PES header fit the widths they are written in, a DTS comes
with a PTS, and the fields need no more header data bytes than one byte can count. -/
structure PesOptionalHeader.Fits (o : PesOptionalHeader) : Prop where
  scrambling : o.scrambling < 2 ^ 2
  headerDataLength : o.headerDataLength < 2 ^ 8
  minDataLength : o.minDataLength < 2 ^ 8
  dtsWithPts : o.dts.isSome → o.pts.isSome
  pts : ∀ t, o.pts = some t → t < 2 ^ 33
  dts : ∀ t, o.dts = some t → t < 2 ^ 33
  escr : ∀ e, o.escr = some e → e.base < 2 ^ 33 ∧ e.extension < 2 ^ 9
  esRate : ∀ r, o.esRate = some r → r < 2 ^ 22
  trickMode : ∀ t, o.trickMode = some t → t < 2 ^ 8
  additionalCopyInfo : ∀ i, o.additionalCopyInfo = some i → i < 2 ^ 7
  previousCrc : ∀ c, o.previousCrc = some c → c < 2 ^ 16
  extension : ∀ e, o.extension = some e → e.Fits

/-- A PES header fits: stream ID and length fit their bytes, the optional header is present
exactly for the stream IDs that carry one, and its fields fit. -/
structure PesHeader.Fits (h : PesHeader) : Prop where
  streamId : h.streamId < 2 ^ 8
  packetLength : h.packetLength < 2 ^ 16
  optional_iff : h.optional.isSome = hasPesHeader h.streamId
  optional : ∀ o, h.optional = some o → o.Fits

/-! ## The encoders with `optionBits` -/

namespace PesExtension

theorem bits_eq (e : PesExtension) :
    e.bits = [e.privateData.isSome, e.packHeader.isSome, e.sequenceCounter.isSome,
        e.pStdBuffer.isSome] ++ natBits 3 7 ++ [e.extension2.isSome] ++
      optionBits bitsOf e.privateData ++
      optionBits (fun p => natBits 8 p.length ++ bitsOf p) e.packHeader ++
      optionBits (fun s : SequenceCounter => true :: natBits 7 s.counter ++
        [true, s.mpegIdentifier] ++ natBits 6 s.sourceStuffLength) e.sequenceCounter ++
      optionBits (fun b : PStdBuffer => natBits 2 1 ++ b.scale :: natBits 13 b.size)
        e.pStdBuffer ++
      optionBits (fun d => true :: natBits 7 d.length ++ bitsOf d) e.extension2 := by
  rw [bits]
  refine congrArg₂ (· ++ ·) (congrArg₂ (· ++ ·) (congrArg₂ (· ++ ·)
    (congrArg₂ (· ++ ·) (congrArg₂ (· ++ ·) rfl ?_) ?_) ?_) ?_) ?_ <;>
  exact optionBits_eq_of (fun a h => by rw [h]) (fun h => by rw [h])

/-- The extension takes `size` bytes, its private data being the sixteen bytes of its field;
the other fields are written in as many bits as `size` counts, whatever their values. -/
theorem length_bits {e : PesExtension} (hpd : ∀ d, e.privateData = some d → d.length = 16) :
    e.bits.length = 8 * e.size := by
  rw [bits_eq]
  simp only [List.length_append, List.length_cons, List.length_nil, length_natBits]
  rw [length_optionBits (f := bitsOf) (s := fun _ => 16) _
      fun d hd => by rw [length_bitsOf, hpd d hd],
    length_optionBits (s := (1 + ·.length)) _ fun p _ => ?_,
    length_optionBits (s := fun _ => 2) _ fun s _ => ?_,
    length_optionBits (s := fun _ => 2) _ fun b _ => ?_,
    length_optionBits (s := (1 + ·.length)) _ fun d _ => ?_]
  · simp only [size]
    omega
  all_goals simp only [List.length_append, List.length_cons, List.length_nil, length_natBits,
    length_bitsOf]
  all_goals omega

/-- The extension decoder reads back what the encoder wrote, from a byte boundary. -/
theorem reads_read {o : Nat} (ho : o % 8 = 0) {e : PesExtension} (hf : e.Fits) :
    Reads o PesExtension.read e.bits e := by
  rw [bits_eq]
  unfold PesExtension.read
  simp only [List.append_assoc, List.cons_append, List.nil_append]
  -- the flag byte: four flags, three reserved bits, a flag
  refine Reads.flag_bind (Reads.flag_bind (Reads.flag_bind (Reads.flag_bind ?_)))
  refine Reads.bind (Reads.skip (length_natBits 3 7) (by decide))
    (Reads.flag_bind (Reads.of_mod (o := o) ?_ ?_))
  · simp only [length_natBits]
    omega
  -- then the fields the flags announce, each a whole number of bytes
  refine Reads.optional_bind _ (fun d hd => ⟨?_, by simp⟩) ?_
  · rw [← hf.privateData d hd]
    exact Reads.bytes ho d (by have := hf.privateData d hd; omega)
  refine Reads.optional_bind _ (fun p hp => ⟨Reads.bind (Reads.u8 (hf.packHeader p hp))
    (Reads.bytes (by simp only [length_natBits]; omega) p (by have := hf.packHeader p hp; omega)),
    by simp⟩) ?_
  refine Reads.optional_bind _ (fun s hs => ⟨?_, by simp⟩) ?_
  · obtain ⟨hc, hl⟩ := hf.sequenceCounter s hs
    exact Reads.skip_bind (Reads.bind (Reads.bits hc)
      (Reads.skip_bind (Reads.flag_bind (Reads.bind_last (Reads.bits hl) rfl))))
  refine Reads.optional_bind _ (fun b hb => ⟨Reads.bind (Reads.skip (length_natBits 2 1) (by decide))
    (Reads.flag_bind (Reads.bind_last (Reads.bits (hf.pStdBuffer b hb)) rfl)), by simp⟩) ?_
  refine Reads.bind_last (Reads.optional _ fun d hd => ?_) rfl
  exact Reads.skip_bind (Reads.bind (Reads.bits (hf.extension2 d hd))
    (Reads.bytes (by simp only [length_natBits]; omega) d (by have := hf.extension2 d hd; omega)))

end PesExtension

namespace PesOptionalHeader

/-- The bits of the fields that the flags announce, in the order they are written, before
the stuffing of the header data block. -/
def fieldBits (o : PesOptionalHeader) : List Bool :=
  optionBits (timestampBits o.timestampFlags) o.pts ++ optionBits (timestampBits 1) o.dts ++
    optionBits (fun e : Escr => natBits 2 3 ++ markedTimestampBits e.base ++
      natBits 9 e.extension ++ [true]) o.escr ++
    optionBits (fun r => true :: natBits 22 r ++ [true]) o.esRate ++
    optionBits (natBits 8) o.trickMode ++
    optionBits (fun i => true :: natBits 7 i) o.additionalCopyInfo ++
    optionBits (natBits 16) o.previousCrc ++
    optionBits PesExtension.bits o.extension

/-- The DTS the encoder writes: the header's, when a PTS comes with it. -/
def writtenDts (o : PesOptionalHeader) : Option Nat :=
  match o.pts, o.dts with
  | some _, some d => some d
  | _, _ => none

/-- Leaving out a DTS that has no PTS leaves the PTS/DTS flags as the encoder sets them. -/
theorem timestampFlags_writtenDts (o : PesOptionalHeader) :
    { o with dts := o.writtenDts }.timestampFlags = o.timestampFlags := by
  cases hp : o.pts <;> cases hd : o.dts <;> simp [timestampFlags, writtenDts, hp, hd]

/-- The encoder: flags, the declared header data length, the fields with the DTS it writes,
then stuffing up to the declared length. -/
theorem bits_eq_written (o : PesOptionalHeader) :
    o.bits = natBits 2 2 ++ natBits 2 o.scrambling ++
      [o.priority, o.dataAlignment, o.copyright, o.uncopied] ++ natBits 2 o.timestampFlags ++
      [o.escr.isSome, o.esRate.isSome, o.trickMode.isSome, o.additionalCopyInfo.isSome,
        o.previousCrc.isSome, o.extension.isSome] ++
      natBits 8 o.dataLength ++ { o with dts := o.writtenDts }.fieldBits ++
      (List.replicate (o.dataLength - o.minDataLength) (natBits 8 0xFF)).flatten := by
  rw [bits, fieldBits, timestampFlags_writtenDts]
  simp only [← List.append_assoc]
  refine congrArg₂ (· ++ ·) (congrArg₂ (· ++ ·) (congrArg₂ (· ++ ·)
    (congrArg₂ (· ++ ·) (congrArg₂ (· ++ ·) (congrArg₂ (· ++ ·) (congrArg₂ (· ++ ·)
    (congrArg₂ (· ++ ·) (congrArg₂ (· ++ ·) rfl ?_) ?dts) ?_) ?_) ?_) ?_) ?_) ?_) rfl
  case dts =>
    -- the `match` writes a DTS only after a PTS
    rw [writtenDts]
    cases o.pts <;> cases o.dts <;> rfl
  all_goals exact optionBits_eq_of (fun a h => by rw [h]) (fun h => by rw [h])

/-- The encoder, with a DTS written only after a PTS. -/
theorem bits_eq {o : PesOptionalHeader} (h : o.dts.isSome → o.pts.isSome) :
    o.bits = natBits 2 2 ++ natBits 2 o.scrambling ++
      [o.priority, o.dataAlignment, o.copyright, o.uncopied] ++ natBits 2 o.timestampFlags ++
      [o.escr.isSome, o.esRate.isSome, o.trickMode.isSome, o.additionalCopyInfo.isSome,
        o.previousCrc.isSome, o.extension.isSome] ++
      natBits 8 o.dataLength ++ o.fieldBits ++
      (List.replicate (o.dataLength - o.minDataLength) (natBits 8 0xFF)).flatten := by
  -- every DTS here has its PTS, so the encoder writes the header's own DTS
  have hdts : o.writtenDts = o.dts := by
    cases hp : o.pts <;> cases hd : o.dts <;> simp_all [writtenDts]
  rw [bits_eq_written, hdts]

theorem timestampFlags_lt (o : PesOptionalHeader) : o.timestampFlags < 2 ^ 2 := by
  unfold timestampFlags
  split <;> decide

theorem timestampFlags_ne_one (o : PesOptionalHeader) : ¬o.timestampFlags = 1 := by
  unfold timestampFlags
  split <;> decide

theorem testBit_one_timestampFlags (o : PesOptionalHeader) :
    o.timestampFlags.testBit 1 = o.pts.isSome := by
  cases hp : o.pts <;> cases hd : o.dts <;> simp [timestampFlags, hp, hd] <;> decide

theorem decide_timestampFlags_eq_three {o : PesOptionalHeader}
    (h : o.dts.isSome → o.pts.isSome) : decide (o.timestampFlags = 3) = o.dts.isSome := by
  cases hp : o.pts <;> cases hd : o.dts <;> simp_all [timestampFlags]

theorem dataLength_lt {o : PesOptionalHeader} (hf : o.Fits) : o.dataLength < 2 ^ 8 := by
  have h₁ := hf.headerDataLength
  have h₂ := hf.minDataLength
  unfold dataLength
  omega

/-- The fields take the header data bytes that `minDataLength` counts. -/
theorem length_fieldBits {o : PesOptionalHeader}
    (hpd : ∀ e, o.extension = some e → ∀ d, e.privateData = some d → d.length = 16) :
    o.fieldBits.length = 8 * o.minDataLength := by
  rw [fieldBits]
  simp only [List.length_append]
  rw [length_optionBits (s := fun _ => 5) _ fun p _ => ?_,
    length_optionBits (s := fun _ => 5) _ fun d _ => ?_,
    length_optionBits (s := fun _ => 6) _ fun e _ => ?_,
    length_optionBits (s := fun _ => 3) _ fun r _ => ?_,
    length_optionBits (s := fun _ => 1) _ fun t _ => ?_,
    length_optionBits (s := fun _ => 1) _ fun i _ => ?_,
    length_optionBits (s := fun _ => 2) _ fun c _ => ?_,
    length_optionBits (s := PesExtension.size) _ fun e he => ?_]
  · simp only [minDataLength]
    omega
  · exact PesExtension.length_bits (hpd e he)
  all_goals simp [timestampBits, markedTimestampBits]

theorem length_bits {o : PesOptionalHeader} (hf : o.Fits) :
    o.bits.length = 8 * (3 + o.dataLength) := by
  have hmin : o.minDataLength ≤ o.dataLength := Nat.le_max_right _ _
  rw [bits_eq hf.dtsWithPts]
  simp only [List.length_append, List.length_cons, List.length_nil, length_natBits,
    length_fieldBits fun e he => (hf.extension e he).privateData, length_stuffing]
  omega

/-- The fields decoder reads the announced fields back into the header it was given. -/
theorem reads_fields (base : PesOptionalHeader) {o : PesOptionalHeader} (hf : o.Fits) :
    Reads 0 (base.fields o.timestampFlags o.escr.isSome o.esRate.isSome o.trickMode.isSome
        o.additionalCopyInfo.isSome o.previousCrc.isSome o.extension.isSome) o.fieldBits
      { base with
          pts := o.pts, dts := o.dts, escr := o.escr, esRate := o.esRate,
          trickMode := o.trickMode, additionalCopyInfo := o.additionalCopyInfo,
          previousCrc := o.previousCrc, extension := o.extension } := by
  unfold fields fieldBits
  rw [testBit_one_timestampFlags, decide_timestampFlags_eq_three hf.dtsWithPts]
  simp only [List.append_assoc]
  refine Reads.optional_bind _ (fun p hp =>
    ⟨Reads.prefixedTimestamp (hf.pts p hp), by simp [timestampBits, markedTimestampBits]⟩) ?_
  refine Reads.optional_bind _ (fun d hd =>
    ⟨Reads.prefixedTimestamp (hf.dts d hd), by simp [timestampBits, markedTimestampBits]⟩) ?_
  refine Reads.optional_bind _ (fun e he => ⟨?_, by simp [markedTimestampBits]⟩) ?_
  · obtain ⟨hb, hx⟩ := hf.escr e he
    exact Reads.bind (Reads.skip (length_natBits 2 3) (by decide)) (Reads.bind (Reads.timestamp hb)
      (Reads.bind (Reads.bits hx) (Reads.skip_bind (Reads.pure _))))
  refine Reads.optional_bind _ (fun r hr => ⟨Reads.skip_bind (Reads.bind
    (Reads.bits (hf.esRate r hr)) (Reads.skip_bind (Reads.pure _))), by simp⟩) ?_
  refine Reads.optional_bind _ (fun t ht => ⟨Reads.u8 (hf.trickMode t ht), by simp⟩) ?_
  refine Reads.optional_bind _ (fun i hi =>
    ⟨Reads.skip_bind (Reads.bits (hf.additionalCopyInfo i hi)), by simp⟩) ?_
  refine Reads.optional_bind _ (fun c hc => ⟨Reads.u16 (hf.previousCrc c hc), by simp⟩) ?_
  exact Reads.bind_last (Reads.optional _ fun e he =>
    PesExtension.reads_read rfl (hf.extension e he)) rfl

/-- The optional header decoder reads back what the encoder wrote, with the header data
length the encoder declared, from a byte boundary. -/
theorem reads_read {off : Nat} (ho : off % 8 = 0) {o : PesOptionalHeader} (hf : o.Fits) :
    Reads off PesOptionalHeader.read o.bits { o with headerDataLength := o.dataLength } := by
  have hmin : o.minDataLength ≤ o.dataLength := Nat.le_max_right _ _
  rw [bits_eq hf.dtsWithPts]
  unfold PesOptionalHeader.read
  dsimp only
  simp only [List.append_assoc, List.cons_append, List.nil_append]
  refine Reads.bind (Reads.bits (v := 2) (by decide)) (Reads.ite_neg (by decide) ?_)
  refine Reads.bind (Reads.bits hf.scrambling) ?_
  refine Reads.flag_bind (Reads.flag_bind (Reads.flag_bind (Reads.flag_bind ?_)))
  refine Reads.bind (Reads.bits (timestampFlags_lt o)) ?_
  refine Reads.flag_bind (Reads.flag_bind (Reads.flag_bind (Reads.flag_bind
    (Reads.flag_bind (Reads.flag_bind ?_)))))
  refine Reads.bind (Reads.u8 (dataLength_lt hf)) (Reads.ite_neg (timestampFlags_ne_one o) ?_)
  -- the header data block: the fields, then stuffing up to the declared length
  refine Reads.block ?_ ?_ ?_ (ReadsPrefix.of_append (reads_fields _ hf) _)
  · simp only [length_natBits]
    omega
  · simp only [List.length_append, length_fieldBits fun e he => (hf.extension e he).privateData,
      length_stuffing]
    omega
  · have := dataLength_lt hf
    omega

end PesOptionalHeader

namespace PesHeader

theorem bits_eq (h : PesHeader) :
    h.bits = natBits 24 startCode ++ natBits 8 h.streamId ++ natBits 16 h.packetLength ++
      optionBits PesOptionalHeader.bits h.optional := by
  rw [bits]
  exact congrArg₂ (· ++ ·) rfl (optionBits_eq_of (fun a h => by rw [h]) (fun h => by rw [h]))

/-- A written header takes `headerLen` bytes. -/
theorem length_bits {h : PesHeader} (hf : h.Fits) : h.bits.length = 8 * h.headerLen := by
  rw [bits_eq]
  simp only [List.length_append, length_natBits]
  cases hopt : h.optional with
  | none => simp [headerLen, hopt, optionBits, fixedLen]
  | some o =>
    simp only [optionBits, PesOptionalHeader.length_bits (hf.optional o hopt), headerLen, hopt,
      fixedLen]
    omega

/-- The header decoder reads back what the encoder wrote, each header data length becoming
the one the encoder declared. -/
theorem reads_read {h : PesHeader} (hf : h.Fits) :
    Reads 0 PesHeader.read h.bits
      { h with
        optional := h.optional.map (fun o => { o with headerDataLength := o.dataLength }) } := by
  rw [bits_eq]
  unfold PesHeader.read
  dsimp only
  simp only [List.append_assoc]
  refine Reads.bind (Reads.u24 (by decide)) (Reads.ite_neg (by decide) ?_)
  refine Reads.bind (Reads.u8 hf.streamId) (Reads.bind (Reads.u16 hf.packetLength) ?_)
  rw [← hf.optional_iff]
  exact Reads.bind_last (Reads.optional_map _ fun o ho =>
    PesOptionalHeader.reads_read (by simp) (hf.optional o ho)) rfl

end PesHeader

/-- A PES packet reads back as written. For every header whose fields fit their widths and
whose optional header is present exactly for the stream IDs that carry one, and every
payload, parsing the written packet gives the payload and the header, each header data
length becoming the larger of the given one and the bytes the present fields need. -/
theorem PesPacket.parse_write (h : PesHeader) (x : List UInt8) (hf : h.Fits) :
    PesPacket.parse (PesPacket.write h x) =
      .ok ⟨{ h with optional := h.optional.map (fun o =>
        { o with headerDataLength := max o.headerDataLength o.minDataLength }) }, x⟩ := by
  have h8 : h.bits.length % 8 = 0 := by
    rw [PesHeader.length_bits hf]
    omega
  have hbits : bitsOf (PesPacket.write h x) = h.bits ++ bitsOf x :=
    bitsOf_packBits (by simp only [List.length_append, length_bitsOf]; omega)
  have hrun := Reads.run (PesHeader.reads_read hf) hbits
  rw [PesPacket.parse, hrun]
  simp only [BitCursor.position_atBit, drop_eq_of_bitsOf hbits h8]
  rfl

/-- A video PES header with a PTS, a DTS and three bytes of stuffing. -/
def timedVideoHeader : PesHeader :=
  { streamId := 0xE0,
    optional := some { dataAlignment := true, pts := some 183000, dts := some 180000,
                       headerDataLength := 13 } }

theorem timedVideoHeader_fits : timedVideoHeader.Fits where
  streamId := by decide
  packetLength := by decide
  optional_iff := rfl
  optional o ho := by
    cases ho
    exact
      { scrambling := by decide, headerDataLength := by decide, minDataLength := by decide,
        dtsWithPts := fun _ => rfl,
        pts := fun t ht => by
          cases ht
          decide
        dts := fun t ht => by
          cases ht
          decide
        escr := fun _ h => (by cases h), esRate := fun _ h => (by cases h),
        trickMode := fun _ h => (by cases h), additionalCopyInfo := fun _ h => (by cases h),
        previousCrc := fun _ h => (by cases h), extension := fun _ h => (by cases h) }

theorem parse_write_timedVideo :
    timedVideoHeader.Fits ∧
      PesPacket.parse (PesPacket.write timedVideoHeader [0, 0, 0, 1, 0x09, 0xF0]) =
        .ok ⟨{ timedVideoHeader with optional := timedVideoHeader.optional.map (fun o =>
          { o with headerDataLength := max o.headerDataLength o.minDataLength }) },
          [0, 0, 0, 1, 0x09, 0xF0]⟩ :=
  ⟨timedVideoHeader_fits, PesPacket.parse_write _ _ timedVideoHeader_fits⟩

end MpegTs
