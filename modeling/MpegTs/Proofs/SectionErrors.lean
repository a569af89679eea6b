import MpegTs.Proofs.PatCodec
import MpegTs.Proofs.PmtCodec

/-!
# Corrupted sections are rejected

The CRC-32 of a section detects every burst of at most 32 flipped bits (`verifyCrc_burst`).
The decoders check the bytes that the `section_length` field of their input announces, so
the burst has to be carried through them:

* `error_of_burst`: a decoder that checks the CRC of the section its bytes announce rejects a
  section with a burst that leaves that announcement alone;
* `section_burst_rejected`: a burst after the section header makes `parsePat` and `parsePmt`
  fail, and inside the program loop or the CRC of a PAT the failure is a CRC mismatch;
* `singleProgram_flip_rejected`: every single-bit corruption of a one-program PAT is rejected
  but one, a flip of bit 21, which shortens the section by four bytes; the header checks
  catch most flips in the section header before the CRC does, and a flip of bit 23 moves the
  checked window by one byte, to one that no section with a good CRC passes.
-/

namespace MpegTs

/-! ## Bursts in a byte string -/

section Bursts

variable {s e : List UInt8} {lo hi : Nat}

theorem zipWith_xor_replicate_false :
    ∀ {bs : List Bool} {n : Nat}, bs.length = n → List.zipWith (· ^^ ·) bs (List.replicate n false) = bs
  | [], 0, _ => rfl
  | b :: bs, n + 1, h => by
    rw [List.replicate_succ, List.zipWith_cons_cons, Bool.xor_false,
      zipWith_xor_replicate_false (by simpa using h)]

theorem BurstWithin.mono {lo' : Nat} (hb : BurstWithin e lo hi) (h : lo' ≤ lo) :
    BurstWithin e lo' hi := by
  obtain ⟨start, run, rest, hbits, hlo, hhi, hlen, hrun⟩ := hb
  exact ⟨start, run, rest, hbits, by omega, hhi, hlen, hrun⟩

/-- A burst inside the first `hi` bytes is a burst of those bytes. -/
theorem BurstWithin.take (hb : BurstWithin e lo hi) (hhi : hi ≤ e.length) :
    BurstWithin (e.take hi) lo hi := by
  obtain ⟨start, run, rest, hbits, hlo, hend, hlen, hrun⟩ := hb
  have htotal := congrArg List.length hbits
  simp only [length_bitsOf, List.length_append, List.length_replicate] at htotal
  refine ⟨start, run, 8 * hi - (start + run.length), ?_, hlo, hend, hlen, hrun⟩
  rw [bitsOf_take, hbits, List.take_append, List.take_of_length_le (by simp; omega),
    List.take_replicate, List.length_append, List.length_replicate]
  congr 2
  omega

/-- The bytes before a burst are left alone. -/
theorem take_xor_of_burst (hb : BurstWithin e lo hi) (he : e.length = s.length) :
    (List.zipWith (· ^^^ ·) s e).take lo = s.take lo := by
  obtain ⟨start, run, rest, hbits, hlo, -, -, -⟩ := hb
  have htotal := congrArg List.length hbits
  simp only [length_bitsOf, List.length_append, List.length_replicate] at htotal
  have hzeros : (bitsOf e).take (8 * lo) = List.replicate (8 * lo) false := by
    rw [hbits, List.append_assoc, List.take_append_of_le_length (by simp; omega),
      List.take_replicate, Nat.min_eq_left hlo]
  apply bitsOf_inj
  rw [bitsOf_take, bitsOf_zipWith_xor he.symm, List.take_zipWith, hzeros, ← bitsOf_take]
  exact zipWith_xor_replicate_false (by simp; omega)

/-- The `section_length` field is read from the first three bytes only. -/
theorem sectionLengthField_eq_of_take {data data' : List UInt8} (h : data.take 3 = data'.take 3) :
    sectionLengthField data = sectionLengthField data' :=
  congrArg natOfBits (bitWindow_congr h (by decide))

/-- A burst inside the section that `s` starts with fails the CRC check of that section. -/
theorem verifyCrc_window_burst {t : TableKind} {L : Nat} (hs : verifyCrc t (s.take L) = .ok ())
    (hL : L ≤ s.length) (he : e.length = s.length) (hb : BurstWithin e lo L) :
    ∃ x y, verifyCrc t ((List.zipWith (· ^^^ ·) s e).take L) = .error (.crcMismatch t x y) := by
  have hwindow : (s.take L).length = L := by simp [hL]
  have hburst : BurstWithin (e.take L) 0 (s.take L).length := by
    rw [hwindow]
    exact (hb.mono (Nat.zero_le lo)).take (by omega)
  rw [List.take_zipWith]
  exact verifyCrc_burst hs (by simp [hwindow]; omega) hburst

/-- A decoder that checks the CRC of the section its bytes announce rejects a section with a
burst that leaves the announced length alone. -/
theorem error_of_burst {α : Type} {parse : List UInt8 → Except Error α} {t : TableKind}
    (hcheck : ∀ d v, parse d = .ok v →
      verifyCrc t (d.take (sectionHeaderLen + sectionLengthField d)) = .ok ())
    {v : α} (hs : parse s = .ok v) (hL : sectionHeaderLen + sectionLengthField s ≤ s.length)
    (he : e.length = s.length) (hb : BurstWithin e lo (sectionHeaderLen + sectionLengthField s))
    (hfield : sectionLengthField (List.zipWith (· ^^^ ·) s e) = sectionLengthField s) :
    ∃ err, parse (List.zipWith (· ^^^ ·) s e) = .error err := by
  cases hp : parse (List.zipWith (· ^^^ ·) s e) with
  | error err => exact ⟨err, rfl⟩
  | ok v' =>
    obtain ⟨x, y, hxy⟩ := verifyCrc_window_burst (hcheck s v hs) hL he hb
    have hok := hcheck _ v' hp
    rw [hfield, hxy] at hok
    cases hok

end Bursts

/-! ## Error patterns -/

/-- The error pattern of an `n`-byte string that flips its bit `i`, bits counted from the top
bit of the first byte. -/
def bitError (n i : Nat) : List UInt8 :=
  packBits (List.replicate i false ++ true :: List.replicate (8 * n - i - 1) false)

/-- `bytes` with bit `i` flipped. -/
def flipBit (bytes : List UInt8) (i : Nat) : List UInt8 :=
  List.zipWith (· ^^^ ·) bytes (bitError bytes.length i)

section Flips

variable {n i : Nat}

theorem bitsOf_bitError (h : i < 8 * n) :
    bitsOf (bitError n i) = List.replicate i false ++ true :: List.replicate (8 * n - i - 1) false :=
  bitsOf_packBits (by simp; omega)

theorem length_bitError (h : i < 8 * n) : (bitError n i).length = n := by
  have hlen := congrArg List.length (bitsOf_bitError h)
  simp only [length_bitsOf, List.length_append, List.length_replicate, List.length_cons] at hlen
  omega

theorem burstWithin_bitError {lo hi : Nat} (h : i < 8 * n) (hlo : 8 * lo ≤ i) (hhi : i < 8 * hi) :
    BurstWithin (bitError n i) lo hi :=
  ⟨i, [true], 8 * n - i - 1, by rw [bitsOf_bitError h]; simp, hlo, by simp; omega, by simp,
    by simp⟩

theorem take_bitError {m : Nat} (h : i < 8 * m) (hm : m ≤ n) : (bitError n i).take m = bitError m i := by
  apply bitsOf_inj
  rw [bitsOf_take, bitsOf_bitError (by omega), bitsOf_bitError h, List.take_append,
    List.take_replicate, List.length_replicate, show 8 * m - i = 8 * m - i - 1 + 1 by omega,
    List.take_succ_cons, List.take_replicate]
  congr 3
  · omega
  · omega

theorem take_flipBit {bytes : List UInt8} {m : Nat} (h : i < 8 * m) (hm : m ≤ bytes.length) :
    (flipBit bytes i).take m = flipBit (bytes.take m) i := by
  rw [flipBit, flipBit, List.take_zipWith, take_bitError h hm, List.length_take, Nat.min_eq_left hm]

end Flips

/-! ## The decoders check the section they announce -/

theorem parsePat_ok_verifyCrc {data : List UInt8} {p : PatSection} (h : parsePat data = .ok p) :
    verifyCrc .pat (data.take (sectionHeaderLen + sectionLengthField data)) = .ok () ∧
      sectionHeaderLen + sectionLengthField data ≤ data.length := by
  obtain ⟨hd, -, hhd, -, -, hcrc⟩ := parsePat_ok h
  have hfit := hhd.fits
  rw [hhd.sectionLengthField_eq]
  exact ⟨hcrc, hfit⟩

theorem parsePmt_ok_verifyCrc {data : List UInt8} {p : PmtSection} (h : parsePmt data = .ok p) :
    verifyCrc .pmt (data.take (sectionHeaderLen + sectionLengthField data)) = .ok () ∧
      sectionHeaderLen + sectionLengthField data ≤ data.length := by
  obtain ⟨hd, hread⟩ := PmtSection.readFrom_of_parsePmt h
  have hfit := hread.header.fits
  rw [hread.header.sectionLengthField_eq]
  exact ⟨hread.crc, hfit⟩

/-- A burst in the program loop or the CRC of a PAT section reaches the CRC check, which
reports a mismatch. -/
theorem parsePat_crcMismatch_of_burst {s e : List UInt8} {p : PatSection} (hs : parsePat s = .ok p)
    (he : e.length = s.length)
    (hb : BurstWithin e (sectionHeaderLen + syntaxHeaderLen)
      (sectionHeaderLen + sectionLengthField s)) :
    ∃ x y, parsePat (List.zipWith (· ^^^ ·) s e) = .error (.crcMismatch .pat x y) := by
  obtain ⟨hd, sh, hhd, hsh, hmin, hcrc⟩ := parsePat_ok hs
  rw [hhd.sectionLengthField_eq] at hb
  -- the headers are read from the first eight bytes, which the burst leaves alone
  have h8 := take_xor_of_burst hb he
  have h3 : (List.zipWith (· ^^^ ·) s e).take 3 = s.take 3 := by
    have h := congrArg (List.take 3) h8
    rwa [List.take_take, List.take_take,
      show min 3 (sectionHeaderLen + syntaxHeaderLen) = 3 from rfl] at h
  have hlen : s.length = (List.zipWith (· ^^^ ·) s e).length := by simp [he]
  rw [parsePat_eq_of_headers (hhd.of_take h3.symm hlen) (hsh.of_take h8.symm) hmin]
  obtain ⟨x, y, hxy⟩ := verifyCrc_window_burst hcrc hhd.fits he hb
  rw [hxy]
  exact ⟨x, y, rfl⟩

/-- A burst of at most 32 bits after the header of a PAT or PMT section that was read makes
the decoder fail; inside the program loop or the CRC of a PAT, with a CRC mismatch. -/
theorem section_burst_rejected :
    (∀ (s e : List UInt8) (p : PatSection), parsePat s = .ok p → e.length = s.length →
      BurstWithin e sectionHeaderLen (sectionHeaderLen + sectionLengthField s) →
        (∃ err, parsePat (List.zipWith (· ^^^ ·) s e) = .error err) ∧
        (BurstWithin e (sectionHeaderLen + syntaxHeaderLen) (sectionHeaderLen + sectionLengthField s) →
          ∃ x y, parsePat (List.zipWith (· ^^^ ·) s e) = .error (.crcMismatch .pat x y))) ∧
    (∀ (s e : List UInt8) (p : PmtSection), parsePmt s = .ok p → e.length = s.length →
      BurstWithin e sectionHeaderLen (sectionHeaderLen + sectionLengthField s) →
        ∃ err, parsePmt (List.zipWith (· ^^^ ·) s e) = .error err) := by
  constructor
  · intro s e p hs he hb
    refine ⟨error_of_burst (fun _ _ h => (parsePat_ok_verifyCrc h).1) hs
      (parsePat_ok_verifyCrc hs).2 he hb ?_, parsePat_crcMismatch_of_burst hs he⟩
    exact sectionLengthField_eq_of_take (take_xor_of_burst hb he)
  · intro s e p hs he hb
    exact error_of_burst (fun _ _ h => (parsePmt_ok_verifyCrc h).1) hs
      (parsePmt_ok_verifyCrc hs).2 he hb (sectionLengthField_eq_of_take (take_xor_of_burst hb he))

/-- A flip in the program loop of `oneProgram`'s section is a CRC mismatch. -/
theorem section_burst_rejected_oneProgram :
    ∃ x y, parsePat (List.zipWith (· ^^^ ·) PatSection.oneProgramBytes (bitError 16 100)) =
      .error (.crcMismatch .pat x y) := by
  have hparse : parsePat PatSection.oneProgramBytes =
      .ok { PatSection.oneProgram with crc := 0x4FCB33AC } := by decide +kernel
  have hfield : sectionLengthField PatSection.oneProgramBytes = 13 := by decide +kernel
  have hb : BurstWithin (bitError 16 100) (sectionHeaderLen + syntaxHeaderLen)
      (sectionHeaderLen + sectionLengthField PatSection.oneProgramBytes) := by
    rw [hfield]
    exact burstWithin_bitError (by decide) (by decide) (by decide)
  exact (section_burst_rejected.1 _ _ _ hparse (length_bitError (by decide))
    (hb.mono (by decide))).2 hb

/-! ## Single-bit flips of a one-program PAT -/

/-- The header checks of `parsePat` on the first three bytes `pre` of a section of `len` bytes:
table ID 0, syntax indicator set, and a `section_length` with room for the syntax header and
the CRC, inside the bytes. -/
def PatHeaderAccepted (pre : List UInt8) (len : Nat) : Prop :=
  bitWindow pre 0 9 = natBits 8 patTableId ++ [true] ∧
    syntaxHeaderLen + crcLen ≤ sectionLengthField pre ∧
    sectionHeaderLen + sectionLengthField pre ≤ len

instance (pre : List UInt8) (len : Nat) : Decidable (PatHeaderAccepted pre len) :=
  inferInstanceAs (Decidable (_ ∧ _ ∧ _))

theorem parsePat_ok_header {data : List UInt8} {p : PatSection} (h : parsePat data = .ok p) :
    PatHeaderAccepted (data.take 3) data.length := by
  obtain ⟨hd, -, hhd, -, hmin, -⟩ := parsePat_ok h
  have hfit := hhd.fits
  have hfront : (data.take 3).take 3 = data.take 3 := by rw [List.take_take, Nat.min_self]
  have hfield : sectionLengthField (data.take 3) = hd.sectionLength := by
    rw [sectionLengthField_eq_of_take hfront, hhd.sectionLengthField_eq]
  refine ⟨?_, by omega, by rw [hfield]; exact hfit⟩
  -- the table ID and the syntax indicator open the header's 24 bits
  have h9 : bitWindow data 0 9 = (bitWindow data 0 24).take 9 := by
    rw [bitWindow_eq, bitWindow_eq, List.take_take]
    rfl
  rw [bitWindow_congr hfront (by decide), h9, hhd.bits, SectionHeader.bitsWith, hhd.tableId,
    hhd.syntaxIndicator]
  simp [List.take_append, List.take_of_length_le]

/-- A byte clears the register exactly when the register holds that byte at the top. -/
theorem Crc.step_eq_zero_iff {c : UInt32} {b : UInt8} : Crc.step c b = 0 ↔ c = b.toUInt32 <<< 24 := by
  rw [Crc.step, Crc.repeat_shift_eq_zero_iff, UInt32.xor_eq_zero_iff]

/-- A byte at the top of the register leaves its low 24 bits clear. -/
theorem toUInt32_shiftLeft_ne {b : UInt8} {c : UInt32} (h : c.toNat % 2 ^ 24 ≠ 0) :
    b.toUInt32 <<< 24 ≠ c := by
  intro hc
  have hlow := congrArg (fun x : UInt32 => x.toNat % 2 ^ 24) hc
  simp only [UInt32.toNat_shiftLeft, UInt8.toNat_toUInt32] at hlow
  simp at hlow
  omega

/-- A one-program PAT is sixteen bytes; its header says table 0, syntax indicator set and a
thirteen-byte section. -/
theorem singleProgram_write {p : PatSection} (hone : p.programs.length = 1) {bytes : List UInt8}
    (hw : p.write = .ok bytes) :
    bytes.take 3 = [0, if p.privateIndicator then 0xF0 else 0xB0, 0x0D] ∧ bytes.length = 16 := by
  have hbody : (packBits p.bodyBits).length = 9 := by
    rw [PatSection.length_body, hone]
    rfl
  have hroom : (packBits p.bodyBits).length + crcLen ≤ maxSectionLength := by
    rw [hbody]
    decide
  rw [PatSection.write, assembleSection_eq_ok hroom] at hw
  cases hw
  have hhead : packBits (frameHeader patTableId p.privateIndicator (packBits p.bodyBits)).bits =
      [0, if p.privateIndicator then 0xF0 else 0xB0, 0x0D] := by
    rw [frameHeader, hbody]
    cases p.privateIndicator <;> decide
  rw [hhead]
  constructor
  · rw [List.append_assoc]
    exact List.take_left' rfl
  · simp [hbody, crcLen]

/-- The section length of a flipped section is read from its flipped first three bytes. -/
theorem sectionLengthField_take (data : List UInt8) :
    sectionLengthField data = sectionLengthField (data.take 3) :=
  sectionLengthField_eq_of_take (by rw [List.take_take, Nat.min_self])

/-- A sixteen-byte section that checks does not check once bit 23 is flipped and it is cut to
fifteen bytes: its register before the last byte is that byte at the top, and the flip adds a
register whose low 24 bits are not clear. -/
theorem verifyCrc_flip23 {bytes : List UInt8} (hsection : verifyCrc .pat bytes = .ok ())
    (hlen : bytes.length = 16) : verifyCrc .pat (flipBit (bytes.take 15) 23) ≠ .ok () := by
  intro hok
  have h15 : (bytes.take 15).length = 15 := by simp [hlen]
  obtain ⟨-, hzero⟩ := verifyCrc_ok_iff.1 hok
  rw [flipBit, h15, ← UInt32.xor_zero (a := Crc.init),
    Crc.update_zipWith_xor _ _ (by rw [h15, length_bitError (by decide)])] at hzero
  -- the register one byte before the end of the section is its last byte at the top
  obtain ⟨-, hregister⟩ := verifyCrc_ok_iff.1 hsection
  obtain ⟨b, hb⟩ := List.length_eq_one_iff.1 (show (bytes.drop 15).length = 1 by simp [hlen])
  rw [← List.take_append_drop 15 bytes, Crc.update_append, hb] at hregister
  rw [Crc.step_eq_zero_iff.1 hregister,
    show Crc.update 0 (bitError 15 23) = 0xE8A45605 by decide +kernel, UInt32.xor_eq_zero_iff]
    at hzero
  exact toUInt32_shiftLeft_ne (by decide) hzero

/-- Flips in the first three bytes of a one-program PAT that fail the header checks: all but
those of the private indicator, the reserved bits and bits 21 and 23 of `section_length`. -/
theorem patHeader_flip_rejected :
    ∀ b ∈ ([0xB0, 0xF0] : List UInt8), ∀ j < 24, ¬(j = 9 ∨ j = 10 ∨ j = 11) → j ≠ 21 → j ≠ 23 →
      ¬ PatHeaderAccepted (flipBit [0, b, 0x0D] j) 16 := by
  decide

/-- Every single-bit corruption of a one-program PAT is rejected, but for bit 21. The flips in
the table ID, the syntax indicator and most bits of `section_length` fail the header checks;
those of the private indicator, the reserved bits and every bit after the header fail the CRC
check of the section; a flip of bit 23 shortens the section by one byte, and the register of
the first fifteen bytes of a section that checks is its last byte at the top, never that of
the shortened section. -/
theorem singleProgram_flip_rejected {p : PatSection} (hf : p.Fits) (hone : p.programs.length = 1)
    {bytes : List UInt8} (hw : p.write = .ok bytes) {i : Nat} (hi : i < 8 * bytes.length)
    (h21 : i ≠ 21) : ∃ err, parsePat (flipBit bytes i) = .error err := by
  have hparse := (PatSection.parsePat_write p hf).2 bytes hw
  obtain ⟨hcrc, hL⟩ := parsePat_ok_verifyCrc hparse
  obtain ⟨hhead, hlen⟩ := singleProgram_write hone hw
  have hfield : sectionLengthField bytes = 13 := by
    rw [sectionLengthField_take, hhead]
    cases p.privateIndicator <;> decide
  have hcheck : ∀ d v, parsePat d = .ok v →
      verifyCrc .pat (d.take (sectionHeaderLen + sectionLengthField d)) = .ok () :=
    fun _ _ h => (parsePat_ok_verifyCrc h).1
  rw [hlen] at hi
  rcases Nat.lt_or_ge i 24 with hhdr | hbody
  · -- a flip in the section header
    have hfront : (flipBit bytes i).take 3 =
        flipBit [0, if p.privateIndicator then 0xF0 else 0xB0, 0x0D] i := by
      rw [take_flipBit hhdr (by omega), hhead]
    by_cases hkeep : i = 9 ∨ i = 10 ∨ i = 11
    · -- the private indicator and the reserved bits: the length stays, the CRC check fails
      refine error_of_burst hcheck hparse hL (length_bitError (by omega))
        (burstWithin_bitError (by omega) (show 8 * 0 ≤ i by omega) (by rw [hfield]; omega)) ?_
      change sectionLengthField (flipBit bytes i) = _
      rw [sectionLengthField_take, hfront, hfield]
      rcases hkeep with rfl | rfl | rfl <;> cases p.privateIndicator <;> decide
    cases hp : parsePat (flipBit bytes i) with
    | error err => exact ⟨err, rfl⟩
    | ok v =>
      exfalso
      by_cases h23 : i = 23
      · -- the section now ends one byte earlier
        subst h23
        have hfield' : sectionLengthField (flipBit bytes 23) = 12 := by
          rw [sectionLengthField_take, hfront]
          cases p.privateIndicator <;> decide
        have hok := hcheck _ v hp
        rw [hfield', take_flipBit (by decide) (by unfold sectionHeaderLen; omega)] at hok
        rw [hfield, List.take_of_length_le (by rw [hlen]; decide)] at hcrc
        exact verifyCrc_flip23 hcrc hlen hok
      · -- the table ID, the syntax indicator and the length fail the header checks
        have haccepted := parsePat_ok_header hp
        rw [hfront, show (flipBit bytes i).length = 16 by simp [flipBit, length_bitError hi, hlen]]
          at haccepted
        exact patHeader_flip_rejected _ (by cases p.privateIndicator <;> simp) i hhdr hkeep h21 h23
          haccepted
  · -- past the header the length field is left alone, and the CRC check fails
    have hb : BurstWithin (bitError bytes.length i) sectionHeaderLen
        (sectionHeaderLen + sectionLengthField bytes) := by
      rw [hlen, hfield]
      exact burstWithin_bitError hi (by unfold sectionHeaderLen; omega)
        (by unfold sectionHeaderLen; omega)
    exact error_of_burst hcheck hparse hL (length_bitError (by omega)) hb
      (sectionLengthField_eq_of_take (take_xor_of_burst hb (length_bitError (by omega))))

theorem singleProgram_flip_rejected_oneProgram :
    ∃ err, parsePat (flipBit PatSection.oneProgramBytes 23) = .error err :=
  singleProgram_flip_rejected PatSection.oneProgram_fits rfl (by decide +kernel) (by decide)
    (by decide)

/-- The one-program section whose flip of bit 21 is read as a section without programs: its
first eight bytes, announcing nine bytes of section, have the program entry as their CRC. -/
def flip21Program : PatSection :=
  { transportStreamId := 7, version := 3, currentNext := true, programs := [⟨0x2B1E, 0x0DD9⟩] }

theorem singleProgram_flip21_accepted :
    flip21Program.write = .ok [0x00, 0xB0, 0x0D, 0x00, 0x07, 0xC7, 0x00, 0x00, 0x2B, 0x1E, 0xED,
      0xD9, 0x0B, 0xC0, 0xBA, 0xF2] ∧
    parsePat (flipBit [0x00, 0xB0, 0x0D, 0x00, 0x07, 0xC7, 0x00, 0x00, 0x2B, 0x1E, 0xED, 0xD9,
      0x0B, 0xC0, 0xBA, 0xF2] 21) =
      .ok { transportStreamId := 7, version := 3, currentNext := true, programs := [],
            crc := 0x2B1EEDD9 } :=
  ⟨by decide +kernel, by decide +kernel⟩

end MpegTs
