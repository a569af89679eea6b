import MpegTs.Proofs.CrcBursts
import MpegTs.Proofs.SuccessfulReads

/-!
# Section framing read back

The three-byte section header, the five-byte syntax header and the CRC-32 trailer of a
long-form PSI section, in both directions. The headers carry reserved bits that the writers
set and the readers skip; `SectionHeader.bitsWith` and `SyntaxHeader.bitsWith` spell a header
with given reserved bits, and the writers' encoders are the case of all ones.

* `SectionHeader.read_eq`, `SyntaxHeader.reads_read`: the readers read back a header whatever
  its reserved bits;
* `SectionHeader.read_ok`, `SyntaxHeader.read_ok`: a header that was read is spelled by the
  bits it was read from (`SectionHeader.ReadFrom`, `SyntaxHeader.ReadFrom`);
* `verifyCrc_frame`: a frame followed by its own checksum passes the check, and
  `verifyCrc_trailer`: the last four bytes of a section that passes are the checksum of
  the rest;
* `assembleSection_eq_ok`, `assembleSection_ok_iff`, `assembleSection_ok_frame`: when framing
  succeeds, and what it writes; `assembleSection_of_read`: a section that was read is framed
  back to its own bytes from a body that spells it.
-/

namespace MpegTs

open BitCursor BitRead

/-- The `section_length` field of the section that starts a byte string. -/
def sectionLengthField (data : List UInt8) : Nat := natOfBits (bitWindow data 12 12)

/-! ## Big-endian CRC trailers -/

theorem natOfBytes_bytesOfU32 {v : Nat} (h : v < 2 ^ 32) : natOfBytes (bytesOfU32 v) = v := by
  simp only [natOfBytes, bytesOfU32, List.foldl_cons, List.foldl_nil, UInt8.toNat_ofNat',
    Nat.shiftRight_eq_div_pow]
  omega

theorem bytesOfU32_natOfBytes {t : List UInt8} (h : t.length = 4) : bytesOfU32 (natOfBytes t) = t := by
  match t, h with
  | [a, b, c, d], _ =>
    have := a.toNat_lt
    have := b.toNat_lt
    have := c.toNat_lt
    have := d.toNat_lt
    simp only [natOfBytes, bytesOfU32, List.foldl_cons, List.foldl_nil, Nat.shiftRight_eq_div_pow,
      List.cons.injEq, and_true]
    refine ⟨?_, ?_, ?_, ?_⟩ <;> apply UInt8.toNat_inj.mp <;> simp only [UInt8.toNat_ofNat'] <;>
      omega

@[simp] theorem length_bytesOfU32 (v : Nat) : (bytesOfU32 v).length = crcLen := rfl

/-- A frame followed by its own big-endian checksum passes the check. -/
theorem verifyCrc_frame (t : TableKind) (framed : List UInt8) :
    verifyCrc t (framed ++ bytesOfU32 (Crc.checksum framed).toNat) = .ok () := by
  refine verifyCrc_ok_iff.2 ⟨by simp, ?_⟩
  rw [Crc.update_append, Crc.update_eq_zero_iff (length_bytesOfU32 _),
    natOfBytes_bytesOfU32 (UInt32.toNat_lt _)]
  rfl

/-- The last four bytes of a section that passes the check are the checksum of the rest. -/
theorem verifyCrc_trailer {t : TableKind} {bytes : List UInt8} (h : verifyCrc t bytes = .ok ()) :
    bytes = bytes.take (bytes.length - crcLen) ++
      bytesOfU32 (Crc.checksum (bytes.take (bytes.length - crcLen))).toNat := by
  obtain ⟨hlen, hzero⟩ := verifyCrc_ok_iff.1 h
  have htrailer : (bytes.drop (bytes.length - crcLen)).length = crcLen := by
    rw [List.length_drop]
    omega
  rw [← List.take_append_drop (bytes.length - crcLen) bytes, Crc.update_append,
    Crc.update_eq_zero_iff htrailer] at hzero
  conv_lhs => rw [← List.take_append_drop (bytes.length - crcLen) bytes]
  rw [Crc.checksum, Crc.finalize, hzero, bytesOfU32_natOfBytes htrailer]

/-! ## The section header -/

namespace SectionHeader

/-- The header's bits with the two reserved bits `r`. -/
def bitsWith (h : SectionHeader) (r : List Bool) : List Bool :=
  natBits 8 h.tableId ++ [h.syntaxIndicator, h.privateIndicator] ++ r ++ natBits 12 h.sectionLength

theorem bits_eq (h : SectionHeader) : h.bits = h.bitsWith (natBits 2 3) := rfl

@[simp] theorem length_bitsWith (h : SectionHeader) {r : List Bool} (hr : r.length = 2) :
    (h.bitsWith r).length = 24 := by
  simp [bitsWith, hr]

@[simp] theorem length_bits (h : SectionHeader) : h.bits.length = 24 :=
  h.length_bitsWith rfl

/-- What a section header read from bit `k` of `data` is. -/
structure ReadFrom (data : List UInt8) (k expected : Nat) (hd : SectionHeader) : Prop where
  tableId : hd.tableId = expected
  syntaxIndicator : hd.syntaxIndicator = true
  length_le : hd.sectionLength ≤ maxSectionLength
  fits : (k + 24) / 8 + hd.sectionLength ≤ data.length
  bits : bitWindow data k 24 = hd.bitsWith (bitWindow data (k + 10) 2)

/-- A section header that was read is spelled by the 24 bits it was read from, and its
`section_length` is one the reader accepts. -/
theorem read_ok {t : TableKind} {x : Nat} {data : List UInt8} {k : Nat} {hd : SectionHeader}
    {c : BitCursor} (h : read t x (atBit data k) = .ok hd c) :
    c = atBit data (k + 24) ∧ hd.ReadFrom data k x := by
  unfold read at h
  obtain ⟨tid, c₁, htid, h⟩ := bind_ok h
  obtain ⟨rfl, -, -, hwin₁⟩ := readBits_ok htid
  obtain ⟨htid, h⟩ := guard_ok h
  obtain ⟨si, c₂, hsi, h⟩ := bind_ok h
  obtain ⟨rfl, -, hwin₂⟩ := readFlag_ok hsi
  obtain ⟨hsi, h⟩ := guard_ok h
  obtain ⟨pi, c₃, hpi, h⟩ := bind_ok h
  obtain ⟨rfl, -, hwin₃⟩ := readFlag_ok hpi
  obtain ⟨_, c₄, hskip, h⟩ := bind_ok h
  obtain ⟨rfl, -⟩ := skipBits_ok hskip
  obtain ⟨len, c₅, hlen, h⟩ := bind_ok h
  obtain ⟨rfl, hfit, -, hwin₅⟩ := readBits_ok hlen
  obtain ⟨hmax, h⟩ := guard_ok h
  obtain ⟨c₆, c₇, hget, h⟩ := bind_ok h
  obtain ⟨rfl, rfl⟩ := get_ok hget
  obtain ⟨hrem, h⟩ := guard_ok h
  obtain ⟨rfl, rfl⟩ := pure_ok h
  simp only [Bool.not_eq_true', Bool.not_eq_false, Decidable.not_not] at htid hsi
  refine ⟨by simp only [Nat.add_assoc], htid, by simpa using hsi, Nat.le_of_not_lt hmax, ?_, ?_⟩
  · simp only [bytesRemaining_atBit] at hrem ⊢
    omega
  · -- the header's fields lie side by side
    rw [show (24 : Nat) = 8 + 1 + 1 + 2 + 12 from rfl, bitWindow_append, bitWindow_append,
      bitWindow_append, bitWindow_append, hwin₁, hwin₂, hwin₃, hwin₅, bitsWith, htid]
    simp only [List.append_assoc, List.cons_append]
    congr 3

/-- A header read from the first three bytes of a byte string is read from any other of the
same length that starts with them. -/
theorem ReadFrom.of_take {data data' : List UInt8} {x : Nat} {hd : SectionHeader}
    (h : hd.ReadFrom data 0 x) (ht : data.take 3 = data'.take 3) (hl : data.length = data'.length) :
    hd.ReadFrom data' 0 x where
  tableId := h.tableId
  syntaxIndicator := h.syntaxIndicator
  length_le := h.length_le
  fits := hl ▸ h.fits
  bits := by
    rw [← bitWindow_congr ht (by decide), ← bitWindow_congr ht (by decide)]
    exact h.bits

/-- The `section_length` field of a header read from the start of a byte string is the one
the header holds. -/
theorem ReadFrom.sectionLengthField_eq {data : List UInt8} {x : Nat} {hd : SectionHeader}
    (h : hd.ReadFrom data 0 x) : sectionLengthField data = hd.sectionLength := by
  have hwin := h.bits
  have hfits := h.fits
  have h12 : (bitWindow data 0 12).length = 12 := length_bitWindow (by omega)
  have hr : (bitWindow data (0 + 10) 2).length = 2 := length_bitWindow (by omega)
  rw [show (24 : Nat) = 12 + 12 from rfl, bitWindow_append, bitsWith] at hwin
  -- the first twelve bits are the table ID, the two indicators and the reserved bits
  obtain ⟨-, hlen⟩ := List.append_inj hwin (by simp [h12, hr])
  have hmax := h.length_le
  unfold maxSectionLength at hmax
  rw [sectionLengthField, ← Nat.zero_add 12, hlen, natOfBits_natBits,
    Nat.mod_eq_of_lt (by omega)]

/-- A section header is read back whatever its reserved bits, when the bytes after it hold
the section it announces. -/
theorem read_eq {t : TableKind} {data : List UInt8} {hd : SectionHeader} {r rest : List Bool}
    (hb : bitsOf data = hd.bitsWith r ++ rest) (hr : r.length = 2) (htid : hd.tableId < 2 ^ 8)
    (hsi : hd.syntaxIndicator = true) (hmax : hd.sectionLength ≤ maxSectionLength)
    (hfit : 8 * hd.sectionLength ≤ rest.length) :
    read t hd.tableId (atBit data 0) = .ok hd (atBit data 24) := by
  obtain ⟨tid, si, pi, len⟩ := hd
  dsimp only at hsi htid hmax hfit ⊢
  subst hsi
  have hlen := congrArg List.length hb
  simp only [length_bitsOf, List.length_append, length_bitsWith _ hr] at hlen
  have hlt : len < 2 ^ 12 := by unfold maxSectionLength at hmax; omega
  unfold read
  -- the fields one after the other, each after the bits of those before it
  rw [Reads.bind_at (Reads.u8 htid) (k := 0)
      (show bitsOf data = [] ++ natBits 8 tid ++ ([true, pi] ++ r ++ natBits 12 len ++ rest) by
        rw [hb]; simp [bitsWith]) rfl rfl]
  rw [if_neg (by simp)]
  beta_reduce
  rw [Reads.bind_at (Reads.flag true)
      (show bitsOf data = natBits 8 tid ++ [true] ++ ([pi] ++ r ++ natBits 12 len ++ rest) by
        rw [hb]; simp [bitsWith]) (by simp) rfl]
  rw [if_neg (by simp)]
  beta_reduce
  rw [Reads.bind_at (Reads.flag pi)
      (show bitsOf data = natBits 8 tid ++ [true] ++ [pi] ++ (r ++ natBits 12 len ++ rest) by
        rw [hb]; simp [bitsWith]) (by simp) rfl]
  rw [Reads.bind_at (Reads.skip hr (by omega))
      (show bitsOf data = natBits 8 tid ++ [true] ++ [pi] ++ r ++ (natBits 12 len ++ rest) by
        rw [hb]; simp [bitsWith]) (by simp) rfl]
  rw [Reads.bind_at (Reads.bits hlt)
      (show bitsOf data = natBits 8 tid ++ [true] ++ [pi] ++ r ++ natBits 12 len ++ rest by
        rw [hb]; simp [bitsWith]) (by simp [hr]) rfl]
  rw [if_neg (by omega)]
  beta_reduce
  rw [get_bind, if_neg (by simp; omega), show 0 + (natBits 8 tid).length + [true].length +
    [pi].length + r.length + (natBits 12 len).length = 24 by simp [hr]]
  rfl

end SectionHeader

/-! ## The syntax header -/

namespace SyntaxHeader

/-- The header's bits with the two reserved bits `r`. -/
def bitsWith (h : SyntaxHeader) (r : List Bool) : List Bool :=
  natBits 16 h.idExtension ++ r ++ natBits 5 h.version ++ [h.currentNext] ++
    natBits 8 h.sectionNumber ++ natBits 8 h.lastSectionNumber

theorem bits_eq (h : SyntaxHeader) : h.bits = h.bitsWith (natBits 2 3) := rfl

@[simp] theorem length_bitsWith (h : SyntaxHeader) {r : List Bool} (hr : r.length = 2) :
    (h.bitsWith r).length = 40 := by
  simp [bitsWith, hr]

@[simp] theorem length_bits (h : SyntaxHeader) : h.bits.length = 40 :=
  h.length_bitsWith rfl

/-- A syntax header of a single-section table is read back whatever its reserved bits. -/
theorem reads_read {o : Nat} {t : TableKind} {h : SyntaxHeader} {r : List Bool}
    (hr : r.length = 2) (hid : h.idExtension < 2 ^ 16) (hv : h.version < 2 ^ 5)
    (hs : h.sectionNumber = 0) (hl : h.lastSectionNumber = 0) :
    Reads o (read t) (h.bitsWith r) h := by
  obtain ⟨id, v, cn, sn, lsn⟩ := h
  dsimp only at hid hv hs hl
  subst hs hl
  unfold read bitsWith
  simp only [List.append_assoc, List.singleton_append]
  refine Reads.bind (Reads.u16 hid) ?_
  refine Reads.bind (Reads.skip hr (by omega)) ?_
  refine Reads.bind (Reads.bits hv) ?_
  refine Reads.flag_bind ?_
  refine Reads.bind (Reads.u8 (v := 0) (by decide)) ?_
  refine Reads.bind_last (Reads.u8 (v := 0) (by decide)) ?_
  rw [if_neg (by simp)]

/-- What a syntax header read from bit `k` of `data` is. -/
structure ReadFrom (data : List UInt8) (k : Nat) (sh : SyntaxHeader) : Prop where
  idExtension_lt : sh.idExtension < 2 ^ 16
  version_lt : sh.version < 2 ^ 5
  sectionNumber : sh.sectionNumber = 0
  lastSectionNumber : sh.lastSectionNumber = 0
  bits : bitWindow data k 40 = sh.bitsWith (bitWindow data (k + 16) 2)

/-- A syntax header that was read is spelled by the 40 bits it was read from, and it
numbers the only section of its table. -/
theorem read_ok {t : TableKind} {data : List UInt8} {k : Nat} {sh : SyntaxHeader}
    {c : BitCursor} (h : read t (atBit data k) = .ok sh c) :
    c = atBit data (k + 40) ∧ sh.ReadFrom data k := by
  unfold read at h
  obtain ⟨id, c₁, hid, h⟩ := bind_ok h
  obtain ⟨rfl, -, hid, hwin₁⟩ := readBits_ok hid
  obtain ⟨_, c₂, hskip, h⟩ := bind_ok h
  obtain ⟨rfl, -⟩ := skipBits_ok hskip
  obtain ⟨v, c₃, hv, h⟩ := bind_ok h
  obtain ⟨rfl, -, hv, hwin₃⟩ := readBits_ok hv
  obtain ⟨cn, c₄, hcn, h⟩ := bind_ok h
  obtain ⟨rfl, -, hwin₄⟩ := readFlag_ok hcn
  obtain ⟨sn, c₅, hsn, h⟩ := bind_ok h
  obtain ⟨rfl, -, -, hwin₅⟩ := readBits_ok hsn
  obtain ⟨lsn, c₆, hlsn, h⟩ := bind_ok h
  obtain ⟨rfl, -, -, hwin₆⟩ := readBits_ok hlsn
  obtain ⟨hzero, h⟩ := guard_ok h
  obtain ⟨rfl, rfl⟩ := pure_ok h
  simp only [not_or, Decidable.not_not] at hzero
  refine ⟨by simp only [Nat.add_assoc], hid, hv, hzero.1, hzero.2, ?_⟩
  -- the header's fields lie side by side
  rw [show (40 : Nat) = 16 + 2 + 5 + 1 + 8 + 8 from rfl, bitWindow_append, bitWindow_append,
    bitWindow_append, bitWindow_append, bitWindow_append, hwin₁, hwin₃, hwin₄, hwin₅, hwin₆,
    bitsWith]

/-- The syntax header of a single-section table with fields that fit their widths. -/
structure Fits (sh : SyntaxHeader) : Prop where
  idExtension_lt : sh.idExtension < 2 ^ 16
  version_lt : sh.version < 2 ^ 5
  sectionNumber : sh.sectionNumber = 0
  lastSectionNumber : sh.lastSectionNumber = 0

theorem ReadFrom.fits {data : List UInt8} {k : Nat} {sh : SyntaxHeader} (h : sh.ReadFrom data k) :
    sh.Fits :=
  ⟨h.idExtension_lt, h.version_lt, h.sectionNumber, h.lastSectionNumber⟩

/-- A single-section header is the one a writer builds from its three fields. -/
theorem Fits.mk_eq {sh : SyntaxHeader} (h : sh.Fits) :
    ({ idExtension := sh.idExtension, version := sh.version, currentNext := sh.currentNext } :
      SyntaxHeader) = sh := by
  have h₁ := h.sectionNumber
  have h₂ := h.lastSectionNumber
  obtain ⟨id, v, cn, sn, lsn⟩ := sh
  simp only at h₁ h₂
  subst h₁ h₂
  rfl

/-- A syntax header read from bytes 3 to 8 of a byte string is read from any other that starts
with the same eight bytes. -/
theorem ReadFrom.of_take {data data' : List UInt8} {sh : SyntaxHeader} (h : sh.ReadFrom data 24)
    (ht : data.take 8 = data'.take 8) : sh.ReadFrom data' 24 where
  idExtension_lt := h.idExtension_lt
  version_lt := h.version_lt
  sectionNumber := h.sectionNumber
  lastSectionNumber := h.lastSectionNumber
  bits := by
    rw [← bitWindow_congr ht (by decide), ← bitWindow_congr ht (by decide)]
    exact h.bits

end SyntaxHeader

/-! ## Framing -/

/-- The header `assembleSection` writes in front of a body. -/
def frameHeader (tableId : Nat) (privateIndicator : Bool) (body : List UInt8) : SectionHeader :=
  { tableId, privateIndicator, sectionLength := body.length + crcLen }

/-- Framing a body that fits writes the header, the body and the checksum of both. -/
theorem assembleSection_eq_ok {tableId : Nat} {privateIndicator : Bool} {body : List UInt8}
    (h : body.length + crcLen ≤ maxSectionLength) :
    assembleSection tableId privateIndicator body =
      .ok (packBits (frameHeader tableId privateIndicator body).bits ++ body ++
        bytesOfU32 (Crc.checksum
          (packBits (frameHeader tableId privateIndicator body).bits ++ body)).toNat) := by
  unfold assembleSection
  rw [if_neg (by omega)]
  rfl

theorem assembleSection_ok_iff {tableId : Nat} {privateIndicator : Bool} {body : List UInt8} :
    (∃ out, assembleSection tableId privateIndicator body = .ok out) ↔
      body.length + crcLen ≤ maxSectionLength := by
  constructor
  · rintro ⟨out, hout⟩
    unfold assembleSection at hout
    dsimp only at hout
    split at hout
    · cases hout
    · omega
  · intro h
    exact ⟨_, assembleSection_eq_ok h⟩

/-- What framing writes: the header it computes, the body and a trailer of 32 bits, as long as
the header says, where the trailer is the checksum of the bytes before it and the whole passes
the CRC check. -/
theorem assembleSection_ok_frame {x : Nat} {pi : Bool} {body bytes : List UInt8} {t : TableKind}
    (h : assembleSection x pi body = .ok bytes) :
    bitsOf bytes = (frameHeader x pi body).bits ++ bitsOf body ++
        bitsOf (bytesOfU32 (Crc.checksum (bytes.take (bytes.length - crcLen))).toNat) ∧
      bytes.length = sectionHeaderLen + (frameHeader x pi body).sectionLength ∧
      (frameHeader x pi body).sectionLength ≤ maxSectionLength ∧ verifyCrc t bytes = .ok () := by
  have hroom : body.length + crcLen ≤ maxSectionLength := assembleSection_ok_iff.1 ⟨bytes, h⟩
  rw [assembleSection_eq_ok hroom] at h
  cases h
  have hheader : (packBits (frameHeader x pi body).bits).length = sectionHeaderLen := by
    rw [length_packBits (by rw [SectionHeader.length_bits]), SectionHeader.length_bits]
    rfl
  have htake : ∀ trailer : List UInt8, trailer.length = crcLen →
      (packBits (frameHeader x pi body).bits ++ body ++ trailer).take
        ((packBits (frameHeader x pi body).bits ++ body ++ trailer).length - crcLen) =
        packBits (frameHeader x pi body).bits ++ body := by
    intro trailer htrailer
    rw [List.length_append, htrailer, Nat.add_sub_cancel]
    exact List.take_left' rfl
  refine ⟨?_, ?_, hroom, verifyCrc_frame t _⟩
  · rw [htake _ (length_bytesOfU32 _), bitsOf_append, bitsOf_append,
      bitsOf_packBits (by rw [SectionHeader.length_bits])]
  · rw [List.length_append, List.length_append, hheader, length_bytesOfU32, Nat.add_assoc]
    rfl

/-- A section that was read is framed back to its own bytes from a body that spells the bits
after its header, when the reserved bits of its header are ones and its CRC passed the check:
the header is the one the framing computes, and the trailer is the checksum of the rest. -/
theorem assembleSection_of_read {data body : List UInt8} {x : Nat} {hd : SectionHeader}
    {t : TableKind} (hhd : hd.ReadFrom data 0 x) (hres : bitWindow data 10 2 = List.replicate 2 true)
    (hbody : bitsOf body = bitWindow data 24 (8 * body.length))
    (hlen : body.length + crcLen = hd.sectionLength)
    (hcrc : verifyCrc t (data.take (sectionHeaderLen + hd.sectionLength)) = .ok ()) :
    assembleSection x hd.privateIndicator body =
      .ok (data.take (sectionHeaderLen + hd.sectionLength)) := by
  have hroom : body.length + crcLen ≤ maxSectionLength := hlen ▸ hhd.length_le
  have hframe : frameHeader x hd.privateIndicator body = hd := by
    have h₁ := hhd.tableId
    have h₂ := hhd.syntaxIndicator
    obtain ⟨tid, si, pi, len⟩ := hd
    simp only at h₁ h₂ hlen ⊢
    subst h₁ h₂ hlen
    rfl
  rw [assembleSection_eq_ok hroom, hframe]
  have hframed : packBits hd.bits ++ body = data.take (sectionHeaderLen + body.length) := by
    apply bitsOf_inj
    rw [bitsOf_append, bitsOf_packBits (by rw [SectionHeader.length_bits]), hbody, SectionHeader.bits_eq,
      show natBits 2 3 = bitWindow data (0 + 10) 2 from hres.symm, ← hhd.bits, ← bitWindow_append,
      bitsOf_take_eq_bitWindow]
    congr 1
    unfold sectionHeaderLen
    omega
  -- the last four bytes of the section are the checksum of the bytes before them
  have htrail := verifyCrc_trailer hcrc
  have hsection : (data.take (sectionHeaderLen + hd.sectionLength)).take
      ((data.take (sectionHeaderLen + hd.sectionLength)).length - crcLen) =
        data.take (sectionHeaderLen + body.length) := by
    have hfit := hhd.fits
    rw [List.length_take, List.take_take]
    congr 1
    unfold sectionHeaderLen crcLen at *
    omega
  rw [hsection] at htrail
  rw [hframed, htrail]

end MpegTs
