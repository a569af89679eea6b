import MpegTs.Proofs.PatCodec
import MpegTs.Proofs.PmtCodec

/-!
# Where the section decoders stop

`parsePat` and `parsePmt` take the CRC from where their cursor stands after the entry loops,
while `verifyCrc` checks the last four bytes of the section as its `section_length` bounds it.
The two are the same four bytes only when the loops stop where the CRC begins.

* The PMT decoder makes sure of it: its ES loop runs while more than the CRC remains, and the
  decoder fails unless the loop stopped exactly at the CRC. A PMT that was read was read to the
  last byte of its section, and its CRC is the section's trailer.
* The PAT decoder does not: it reads as many entries as `section_length` holds whole, then the
  CRC. When `section_length - 9` is not a multiple of four the entries stop short of the trailer,
  the CRC is taken from the four bytes after the last entry, and the section's last
  `(section_length - 9) % 4` bytes are never read (`raggedPat`).

`sectionDecoders_stop_at_trailer` states both.
-/

namespace MpegTs

open BitCursor BitRead

/-- The byte just past the section that starts a byte string, by its `section_length`. -/
def sectionEndByte (data : List UInt8) : Nat := sectionHeaderLen + sectionLengthField data

/-- The PAT entries that the `section_length` of the section starting a byte string holds
whole. -/
def patEntryCount (data : List UInt8) : Nat :=
  (sectionLengthField data - syntaxHeaderLen - crcLen) / 4

/-- The 32 bits from byte `a` spell the big-endian number of the four bytes from `a`. -/
theorem natOfBits_bitWindow_bytes (data : List UInt8) (a : Nat) :
    natOfBits (bitWindow data (8 * a) 32) = natOfBytes ((data.drop a).take crcLen) := by
  rw [← Crc.natOfBits_bitsOf, bitsOf_take, bitsOf_drop, bitWindow_eq]
  rfl

/-- A PMT that was read was read to the end of its section: its ES loop stopped where the CRC
trailer begins, the decoder stopped at the section's last byte, and the CRC it returns is the
trailer. A PAT that was read was read to the end of its last whole entry and the four bytes
after it, which are its CRC: these are the trailer exactly when `section_length - 9` is a
multiple of four. -/
theorem sectionDecoders_stop_at_trailer (data : List UInt8) :
    (∀ p : PmtSection, parsePmt data = .ok p →
      sectionEndByte data ≤ data.length ∧
      readEsEntries (sectionEndByte data) data.length
          (atBit data (96 + 8 * descriptorsLength p.descriptors)) =
        .ok p.streams (atBit data (8 * (sectionEndByte data - crcLen))) ∧
      (SectionHeader.read .pmt pmtTableId >>= pmtBody data) (atBit data 0) =
        .ok p (atBit data (8 * sectionEndByte data)) ∧
      p.crc = natOfBytes ((data.take (sectionEndByte data)).drop (sectionEndByte data - crcLen))) ∧
    (∀ p : PatSection, parsePat data = .ok p →
      sectionEndByte data ≤ data.length ∧
      readPatEntries (patEntryCount data) (atBit data 64) =
        .ok p.programs (atBit data (8 * (8 + 4 * patEntryCount data))) ∧
      (SectionHeader.read .pat patTableId >>= patBody data) (atBit data 0) =
        .ok p (atBit data (8 * (12 + 4 * patEntryCount data))) ∧
      p.crc = natOfBytes ((data.drop (8 + 4 * patEntryCount data)).take crcLen) ∧
      (12 + 4 * patEntryCount data = sectionEndByte data ↔
        (sectionLengthField data - syntaxHeaderLen - crcLen) % 4 = 0)) := by
  refine ⟨fun p h => ?_, fun p h => ?_⟩
  · obtain ⟨hd, hread, hloop, hcrc, hrun⟩ := PmtSection.run_of_parsePmt h
    have hfit := hread.header.fits
    have hlen := hread.sectionLength
    unfold sectionEndByte
    rw [hread.header.sectionLengthField_eq]
    refine ⟨by unfold sectionHeaderLen; omega, hloop, hrun, ?_⟩
    -- the trailer is the four bytes the CRC field was read from
    rw [hcrc, natOfBits_bitWindow_bytes, List.drop_take,
      show sectionHeaderLen + hd.sectionLength - (sectionHeaderLen + hd.sectionLength - crcLen) =
        crcLen by omega]
  · obtain ⟨hd, sh, hhd, hsh, hmin, hverify, hentries, hrun⟩ := run_of_parsePat h
    have hfit := hhd.fits
    -- the fields are those the bits spell, the CRC the 32 bits after the last whole entry
    have hfields := parsePat_eq_of_headers hhd hsh hmin
    rw [h, hverify] at hfields
    have hp : p = patFields data hd sh := Except.ok.inj hfields
    unfold sectionEndByte patEntryCount
    rw [hhd.sectionLengthField_eq]
    set n := (hd.sectionLength - syntaxHeaderLen - crcLen) / 4 with hn
    refine ⟨by unfold sectionHeaderLen; omega, ?_, ?_, ?_, ?_⟩
    · rw [show 8 * (8 + 4 * n) = 64 + 32 * n by omega]
      exact hentries
    · rw [show 8 * (12 + 4 * n) = 96 + 32 * n by omega]
      exact hrun
    · rw [hp, ← natOfBits_bitWindow_bytes, show 8 * (8 + 4 * n) = 64 + 32 * n by omega]
      rfl
    · unfold sectionHeaderLen syntaxHeaderLen crcLen at *
      omega

/-- A PAT whose `section_length` of 10 holds no entry and one byte more: after the syntax header
come the byte `AB` and the section's CRC `D419A998`, which checks. -/
def raggedPat : List UInt8 :=
  [0x00, 0xB0, 0x0A, 0x00, 0x01, 0xC1, 0x00, 0x00, 0xAB, 0xD4, 0x19, 0xA9, 0x98]

/-- `raggedPat` is read with its CRC taken from the four bytes after its (no) entries. -/
theorem sectionDecoders_stop_at_trailer_raggedPat :
    parsePat raggedPat = .ok { transportStreamId := 1, currentNext := true, crc := 0xABD419A9 } ∧
      (0xABD419A9 : Nat) = natOfBytes ((raggedPat.drop (8 + 4 * patEntryCount raggedPat)).take crcLen) := by
  have hp : parsePat raggedPat =
      .ok { transportStreamId := 1, currentNext := true, crc := 0xABD419A9 } := by
    decide +kernel
  exact ⟨hp, ((sectionDecoders_stop_at_trailer raggedPat).2 _ hp).2.2.2.1⟩

/-- The PAT decoder accepts `raggedPat` with the CRC `ABD419A9` read right after the syntax
header, not the trailer `D419A998` that the CRC check verified. -/
theorem parsePat_crc_beside_trailer :
    (parsePat raggedPat).map PatSection.crc = .ok 0xABD419A9 ∧
      natOfBytes ((raggedPat.take (sectionEndByte raggedPat)).drop
        (sectionEndByte raggedPat - crcLen)) = 0xD419A998 := by
  decide +kernel

end MpegTs
