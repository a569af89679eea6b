import MpegTs.Proofs.PesRoundTrip

/-!
# Fitting a PES header to its payload

`PesHeader.trim h n` prepares `h` for a payload of `n` bytes: it drops a DTS equal to the PTS,
sets the header data length to the bytes the remaining fields need, and declares the packet
length, falling back to an unbounded packet when the length does not fit 16 bits.

What the trimmed header says about itself:

* its DTS is gone exactly when there was none or it equalled the PTS (`PesHeader.dts_trim`);
* its header data length byte is the low byte of what the fields need, and the header takes
  nine bytes and the fields (`PesOptionalHeader.dataLength_trimmed`, `PesHeader.headerLen_trim`);
* whenever the length after the length field fits 16 bits it is declared, so the declared
  payload is `n` (`PesHeader.declaredPayloadLen_trim`); the packet reads as unbounded when that
  length does not fit, and also when it is zero, which only a header without optional header
  and an empty payload give (`PesHeader.isUnbounded_trim`);
* a trimmed header that fits its widths is parsed back from the packet it writes
  (`PesHeader.parse_write_trim`), and trimming keeps a header that fits fitting
  (`PesHeader.Fits.trim`).

The length byte cannot say more than 255, and a zero packet length is the mark of an
unbounded packet, so the header data length and the unbounded fallback cannot be exact in
those two cases.
-/

namespace MpegTs

namespace PesOptionalHeader

/-- The optional header as trimming leaves it: a DTS equal to the PTS dropped and the header
data length byte set to what the fields need. -/
def trimmed (o : PesOptionalHeader) : PesOptionalHeader :=
  let o := if o.dts.isSome ∧ o.dts = o.pts then { o with dts := none } else o
  { o with headerDataLength := o.minDataLength % 256 }

theorem dts_trimmed (o : PesOptionalHeader) :
    o.trimmed.dts = if o.dts.isSome ∧ o.dts = o.pts then none else o.dts := by
  unfold trimmed
  split <;> rfl

/-- Trimming changes the DTS and the header data length byte, and nothing else. -/
theorem trimmed_eq (o : PesOptionalHeader) :
    o.trimmed = { o with dts := o.trimmed.dts, headerDataLength := o.trimmed.headerDataLength } := by
  unfold trimmed
  split <;> rfl

/-- Trimming only drops a DTS, so the fields need no more bytes than before. -/
theorem minDataLength_trimmed_le (o : PesOptionalHeader) :
    o.trimmed.minDataLength ≤ o.minDataLength := by
  unfold trimmed minDataLength
  split
  · cases o.dts <;> simp [optionSize]
  · exact Nat.le_refl _

theorem headerDataLength_trimmed (o : PesOptionalHeader) :
    o.trimmed.headerDataLength = o.trimmed.minDataLength % 256 := by
  unfold trimmed
  split <;> rfl

/-- The header data a trimmed header takes is exactly what its fields need. -/
theorem dataLength_trimmed (o : PesOptionalHeader) : o.trimmed.dataLength = o.trimmed.minDataLength := by
  rw [dataLength, headerDataLength_trimmed]
  exact Nat.max_eq_right (Nat.mod_le _ _)

end PesOptionalHeader

namespace PesHeader

variable (h : PesHeader) (n : Nat)

theorem optional_trim : (h.trim n).optional = h.optional.map PesOptionalHeader.trimmed := rfl

theorem streamId_trim : (h.trim n).streamId = h.streamId := rfl

theorem fixedLen_le_headerLen : fixedLen ≤ h.headerLen := by
  unfold headerLen
  split <;> omega

/-- The bytes a trimmed header takes: nine and the fields, or six without optional header. -/
theorem headerLen_trim :
    (h.trim n).headerLen = fixedLen + optionSize (fun o => 3 + o.trimmed.minDataLength) h.optional := by
  rw [headerLen, optional_trim]
  cases h.optional with
  | none => rfl
  | some o => simp only [Option.map_some, PesOptionalHeader.dataLength_trimmed, optionSize]; omega

/-- The packet length trimming declares: the bytes after the length field when they fit
16 bits, zero otherwise. -/
theorem packetLength_trim :
    (h.trim n).packetLength =
      if (h.trim n).headerLen - fixedLen + n < 0x10000 then (h.trim n).headerLen - fixedLen + n
      else 0 := rfl

/-- Whenever the length after the length field fits 16 bits, the trimmed header declares a
payload of `n` bytes. -/
theorem declaredPayloadLen_trim (hfit : (h.trim n).headerLen - fixedLen + n < 0x10000) :
    (h.trim n).declaredPayloadLen = .ok n := by
  have hlen := packetLength_trim h n
  rw [if_pos hfit] at hlen
  unfold declaredPayloadLen
  rw [if_pos (by omega), hlen, Nat.add_sub_cancel_left]

/-- The length after the length field is zero only without optional header and payload. -/
theorem total_trim_eq_zero_iff :
    (h.trim n).headerLen - fixedLen + n = 0 ↔ h.optional = none ∧ n = 0 := by
  rw [headerLen_trim]
  cases h.optional with
  | none => simp [optionSize]
  | some o => simp [optionSize]

/-- A trimmed header reads as unbounded exactly when the length after the length field does
not fit 16 bits, or is zero. -/
theorem isUnbounded_trim :
    (h.trim n).isUnbounded = true ↔
      0x10000 ≤ (h.trim n).headerLen - fixedLen + n ∨ (h.optional = none ∧ n = 0) := by
  rw [← total_trim_eq_zero_iff, isUnbounded, beq_iff_eq, packetLength_trim]
  split <;> omega

/-- The trimmed header has no DTS exactly when the header had none or it equalled the PTS. -/
theorem dts_trim : (h.trim n).dts = none ↔ h.dts = none ∨ h.dts = h.pts := by
  unfold dts pts
  rw [optional_trim]
  cases h.optional with
  | none => simp
  | some o =>
    simp only [Option.map_some, Option.bind_some, PesOptionalHeader.dts_trimmed]
    cases hd : o.dts with
    | none => simp
    | some t =>
      by_cases he : some t = o.pts
      · simp [he]
      · simp [he]

end PesHeader

/-- Trimming keeps a header that fits its widths fitting: the fields stay, a DTS only goes,
and the two lengths it sets fit their bytes. -/
theorem PesHeader.Fits.trim {h : PesHeader} (hf : h.Fits) (n : Nat) : (h.trim n).Fits where
  streamId := hf.streamId
  packetLength := by
    rw [PesHeader.packetLength_trim]
    split <;> omega
  optional_iff := by
    rw [PesHeader.optional_trim, Option.isSome_map]
    exact hf.optional_iff
  optional o' ho := by
    rw [PesHeader.optional_trim] at ho
    obtain ⟨o, hopt, rfl⟩ := Option.map_eq_some_iff.1 ho
    have hof := hf.optional o hopt
    have hmin : o.trimmed.minDataLength < 2 ^ 8 :=
      Nat.lt_of_le_of_lt o.minDataLength_trimmed_le hof.minDataLength
    have hbyte : o.trimmed.headerDataLength < 2 ^ 8 := by
      rw [PesOptionalHeader.headerDataLength_trimmed]
      exact Nat.mod_lt _ (by decide)
    -- the DTS is either dropped or kept as it was
    have hdts : o.trimmed.dts = none ∨ o.trimmed.dts = o.dts := by
      rw [PesOptionalHeader.dts_trimmed]
      split
      · exact .inl rfl
      · exact .inr rfl
    have hdtsPts : o.trimmed.dts.isSome → o.pts.isSome := by
      rcases hdts with hd | hd <;> rw [hd]
      · intro hs
        cases hs
      · exact hof.dtsWithPts
    have hdtsWidth : ∀ t, o.trimmed.dts = some t → t < 2 ^ 33 := by
      rcases hdts with hd | hd <;> rw [hd]
      · intro t ht
        cases ht
      · exact hof.dts
    -- every other field is the one of `o`
    rw [PesOptionalHeader.trimmed_eq] at hmin hbyte ⊢
    exact
      { scrambling := hof.scrambling, headerDataLength := hbyte, minDataLength := hmin,
        dtsWithPts := hdtsPts, pts := hof.pts, dts := hdtsWidth, escr := hof.escr,
        esRate := hof.esRate, trickMode := hof.trickMode,
        additionalCopyInfo := hof.additionalCopyInfo, previousCrc := hof.previousCrc,
        extension := hof.extension }

/-- A trimmed header that fits its widths is parsed back, as it is, from the packet it
writes, whatever the payload. -/
theorem PesHeader.parse_write_trim (h : PesHeader) (n : Nat) (hf : (h.trim n).Fits)
    (x : List UInt8) : PesPacket.parse (PesPacket.write (h.trim n) x) = .ok ⟨h.trim n, x⟩ := by
  -- the length byte already says what the fields need, so the parser's view of it is the same
  have hsame : (h.trim n).optional.map
      (fun o => { o with headerDataLength := max o.headerDataLength o.minDataLength }) =
      (h.trim n).optional := by
    cases ho : (h.trim n).optional with
    | none => rfl
    | some o =>
      have hlt := (hf.optional o ho).minDataLength
      rw [PesHeader.optional_trim] at ho
      obtain ⟨o₀, -, rfl⟩ := Option.map_eq_some_iff.1 ho
      have hbyte := o₀.headerDataLength_trimmed
      rw [Nat.mod_eq_of_lt (show o₀.trimmed.minDataLength < 256 by omega)] at hbyte
      rw [Option.map_some, show max o₀.trimmed.headerDataLength o₀.trimmed.minDataLength =
        o₀.trimmed.headerDataLength by omega]
  rw [PesPacket.parse_write _ _ hf, hsame]

/-- What trimming makes of a header for a payload of `n` bytes. Its DTS is gone exactly when
there was none or it equalled the PTS. Its header data length byte is the low byte of the
bytes its fields need, and the header takes nine bytes and those fields. It declares a payload
of `n` bytes whenever the length after the length field fits 16 bits, and reads as unbounded
exactly when that length does not fit or is zero, the latter only for a header without
optional header and an empty payload. And when the trimmed header fits its widths, which
asks that the fields need at most 255 bytes, that a DTS comes with a PTS and that the optional
header be present exactly for the stream IDs that carry one, it is parsed back from the packet
it writes. -/
theorem PesHeader.trim_fits_payload (h : PesHeader) (n : Nat) :
    ((h.trim n).dts = none ↔ h.dts = none ∨ h.dts = h.pts) ∧
    (∀ o, (h.trim n).optional = some o →
      o.headerDataLength = o.minDataLength % 256 ∧
        (h.trim n).headerLen = PesHeader.fixedLen + 3 + o.minDataLength) ∧
    ((h.trim n).isUnbounded = true ↔
      0x10000 ≤ (h.trim n).headerLen - PesHeader.fixedLen + n ∨ (h.optional = none ∧ n = 0)) ∧
    ((h.trim n).headerLen - PesHeader.fixedLen + n < 0x10000 →
      (h.trim n).declaredPayloadLen = .ok n) ∧
    ((h.trim n).Fits → ∀ x : List UInt8,
      PesPacket.parse (PesPacket.write (h.trim n) x) = .ok ⟨h.trim n, x⟩) := by
  refine ⟨h.dts_trim n, fun o ho => ?_, h.isUnbounded_trim n, h.declaredPayloadLen_trim n,
    fun hf x => h.parse_write_trim n hf x⟩
  have hlen := h.headerLen_trim n
  rw [PesHeader.optional_trim] at ho
  obtain ⟨o₀, hopt, rfl⟩ := Option.map_eq_some_iff.1 ho
  rw [hopt, optionSize] at hlen
  exact ⟨o₀.headerDataLength_trimmed, by omega⟩

/-- The video header with a PTS and a DTS, trimmed for four payload bytes, fits; it declares
them, and the packet it writes with them reads back as written. -/
theorem trim_fits_payload_timedVideo :
    (timedVideoHeader.trim 4).Fits ∧
      (timedVideoHeader.trim 4).headerLen - PesHeader.fixedLen + 4 < 0x10000 ∧
      (timedVideoHeader.trim 4).declaredPayloadLen = .ok 4 ∧
      PesPacket.parse (PesPacket.write (timedVideoHeader.trim 4) [0, 0, 0, 1]) =
        .ok ⟨timedVideoHeader.trim 4, [0, 0, 0, 1]⟩ := by
  have hfit := timedVideoHeader_fits.trim 4
  have htotal : (timedVideoHeader.trim 4).headerLen - PesHeader.fixedLen + 4 < 0x10000 := by
    decide
  exact ⟨hfit, htotal, (PesHeader.trim_fits_payload _ _).2.2.2.1 htotal,
    (PesHeader.trim_fits_payload _ _).2.2.2.2 hfit _⟩

/-- A padding stream header, which carries no optional header. -/
def paddingHeader : PesHeader := { streamId := 0xBE }

/-- A video header whose extension holds a pack header of 255 bytes: its fields need 257 header
data bytes. -/
def longPackHeader : PesHeader :=
  { streamId := 0xE0,
    optional := some { extension := some { packHeader := some (List.replicate 255 0) } } }

/-- Where trimming cannot be exact. An empty padding packet declares the length zero, which
marks a packet as unbounded though zero fits 16 bits. Fields of 257 bytes leave a length byte
of 1. And an optional header given to a padding stream, which carries none, is written but
not read back: its three bytes are read as payload. -/
theorem trim_inexact_cases :
    (paddingHeader.trim 0).headerLen - PesHeader.fixedLen + 0 < 0x10000 ∧
      (paddingHeader.trim 0).isUnbounded = true ∧
      (longPackHeader.trim 0).optional.map (·.minDataLength) = some 257 ∧
      (longPackHeader.trim 0).optional.map (·.headerDataLength) = some 1 ∧
      PesPacket.parse (PesPacket.write ({ paddingHeader with optional := some {} }.trim 0) []) =
        .ok ⟨{ streamId := 0xBE, packetLength := 3 }, [0x80, 0x00, 0x00]⟩ :=
  ⟨by decide, by decide, by decide +kernel, by decide +kernel, by decide⟩

end MpegTs
