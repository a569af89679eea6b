import MpegTs.Psi.Pmt
import MpegTs.Proofs.SectionCodec
import MpegTs.Proofs.DescriptorCodec

/-!
# The program map table read back

A PMT section holds three length-prefixed loops: the program descriptors, the ES loop, and the
descriptors of each entry. The writer recomputes every length, the reserved bits and the CRC;
the decoder reads the ES loop until only the CRC is left and insists that it ends there.

* `EsInfo.reads_read`, `readEsEntries_eq`: the decoder reads back the entries the writer encodes,
  and stops at the CRC;
* `EsInfo.read_ok`, `readEsEntries_ok`, `PmtSection.run_of_parsePmt`: what a decoder that
  succeeded has read, field by field (`PmtSection.ReadFrom`), and that it stopped at the end of
  the section with the CRC taken from its last four bytes;
* `parsePmt_eq`: over a section laid out as the writer lays it out, the decoder comes down to
  the CRC check;
* `PmtSection.parsePmt_write`, `PmtSection.write_of_parsePmt`, and both together
  `PmtSection.write_parsePmt_inverse`: writing fails exactly when the body does not fit one
  section, what is written is read back, and what is read is written back to its bytes when its
  reserved bits are ones.
-/

namespace MpegTs

open BitCursor BitRead

/-! ## Elementary stream entries -/

namespace EsInfo

/-- Stream type and PID fit their fields, and the descriptors fit. -/
structure Fits (e : EsInfo) : Prop where
  streamType_lt : e.streamType < 2 ^ 8
  pid_lt : e.pid < 2 ^ 13
  descriptors : ∀ d ∈ e.descriptors, d.Fits

instance (e : EsInfo) : Decidable e.Fits :=
  decidable_of_iff (e.streamType < 2 ^ 8 ∧ e.pid < 2 ^ 13 ∧ ∀ d ∈ e.descriptors, d.Fits)
    ⟨fun ⟨h₁, h₂, h₃⟩ => ⟨h₁, h₂, h₃⟩, fun ⟨h₁, h₂, h₃⟩ => ⟨h₁, h₂, h₃⟩⟩

/-- The bytes an entry takes: five, then its descriptors. -/
def byteLength (e : EsInfo) : Nat := 5 + descriptorsLength e.descriptors

/-- The entry's bits with reserved bits `r₁` before the PID and `r₂` before the info length. -/
def bitsWith (e : EsInfo) (r₁ r₂ : List Bool) : List Bool :=
  natBits 8 e.streamType ++ r₁ ++ natBits 13 e.pid ++ r₂ ++
    natBits 12 (descriptorsLength e.descriptors) ++ descriptorsBits e.descriptors

theorem bits_eq (e : EsInfo) : e.bits = e.bitsWith (natBits 3 7) (natBits 4 15) := rfl

theorem length_bitsWith {e : EsInfo} (hf : e.Fits) {r₁ r₂ : List Bool} (hr₁ : r₁.length = 3)
    (hr₂ : r₂.length = 4) : (e.bitsWith r₁ r₂).length = 8 * e.byteLength := by
  rw [bitsWith, byteLength, ← bitsOf_descriptorsBytes hf.descriptors]
  simp [hr₁, hr₂, length_descriptorsBytes hf.descriptors]
  omega

/-- An entry reads back from a byte boundary, whatever its reserved bits, when its info loop
is one the reader accepts. -/
theorem reads_read {o : Nat} {e : EsInfo} (ho : o % 8 = 0) (hf : e.Fits)
    (hinfo : descriptorsLength e.descriptors ≤ maxInfoLength) {r₁ r₂ : List Bool}
    (hr₁ : r₁.length = 3) (hr₂ : r₂.length = 4) : Reads o read (e.bitsWith r₁ r₂) e := by
  have hlt : descriptorsLength e.descriptors < 2 ^ 12 := by unfold maxInfoLength at hinfo; omega
  unfold read
  dsimp only
  rw [bitsWith]
  simp only [List.append_assoc]
  refine Reads.bind (Reads.u8 hf.streamType_lt) (Reads.bind (Reads.skip hr₁ (by omega))
    (Reads.bind (Reads.bits hf.pid_lt) (Reads.bind (Reads.skip hr₂ (by omega))
      (Reads.bind (Reads.bits hlt) (Reads.ite_neg (by omega)
        (Reads.bind_last (Reads.descriptors ?_ hf.descriptors (by omega)) rfl))))))
  simp [hr₁, hr₂]
  omega

/-- An entry that was read from bit `k` took the bits it spells, with the reserved bits it
holds, and its info loop was one the reader accepts. -/
theorem read_ok {data : List UInt8} {k : Nat} {e : EsInfo} {c : BitCursor}
    (h : read (atBit data k) = .ok e c) :
    c = atBit data (k + 8 * e.byteLength) ∧ k % 8 = 0 ∧ e.Fits ∧
      descriptorsLength e.descriptors ≤ maxInfoLength ∧
      bitWindow data k (8 * e.byteLength) =
        e.bitsWith (bitWindow data (k + 8) 3) (bitWindow data (k + 24) 4) := by
  unfold read at h
  dsimp only at h
  obtain ⟨st, c₁, hst, h⟩ := bind_ok h
  obtain ⟨rfl, -, hst, hwin₁⟩ := readBits_ok hst
  obtain ⟨_, c₂, hskip, h⟩ := bind_ok h
  obtain ⟨rfl, -⟩ := skipBits_ok hskip
  obtain ⟨pid, c₃, hpid, h⟩ := bind_ok h
  obtain ⟨rfl, -, hpid, hwin₃⟩ := readBits_ok hpid
  obtain ⟨_, c₄, hskip, h⟩ := bind_ok h
  obtain ⟨rfl, -⟩ := skipBits_ok hskip
  obtain ⟨len, c₅, hlen, h⟩ := bind_ok h
  obtain ⟨rfl, -, -, hwin₅⟩ := readBits_ok hlen
  obtain ⟨hmax, h⟩ := guard_ok h
  obtain ⟨ds, c₆, hds, h⟩ := bind_ok h
  obtain ⟨haligned, rfl, -, hdlen, hdfits, hwin₆⟩ := readDescriptors_ok hds
  obtain ⟨rfl, rfl⟩ := pure_ok h
  refine ⟨?_, by omega, ⟨hst, hpid, hdfits⟩, show descriptorsLength ds ≤ maxInfoLength by omega, ?_⟩
  · congr 1
    simp only [byteLength, hdlen]
    omega
  · -- the entry's fields lie side by side
    simp only [byteLength, hdlen]
    rw [show 8 * (5 + len) = 8 + 3 + 13 + 4 + 12 + 8 * len by omega, bitWindow_append,
      bitWindow_append, bitWindow_append, bitWindow_append, bitWindow_append, hwin₁, hwin₃,
      hwin₅, hwin₆, bitsWith, hdlen]

end EsInfo

/-- The bytes the ES loop takes. -/
def esLoopLength : List EsInfo → Nat
  | [] => 0
  | e :: es => e.byteLength + esLoopLength es

/-- The reserved bits of the ES loop that starts at bit `k` of `data` are all ones: three before
each elementary PID and four before each ES info length. -/
def EsReservedOnes (data : List UInt8) : Nat → List EsInfo → Prop
  | _, [] => True
  | k, e :: es => bitWindow data (k + 8) 3 = List.replicate 3 true ∧
      bitWindow data (k + 24) 4 = List.replicate 4 true ∧ EsReservedOnes data (k + 8 * e.byteLength) es

instance decidableEsReservedOnes (data : List UInt8) :
    (k : Nat) → (es : List EsInfo) → Decidable (EsReservedOnes data k es)
  | _, [] => isTrue trivial
  | k, e :: es =>
    have := decidableEsReservedOnes data (k + 8 * e.byteLength) es
    inferInstanceAs (Decidable (_ ∧ _ ∧ _))

/-- Entries that fit, ahead of the CRC of a section that ends at byte `E`, are read back by the
loop, which stops right after them. -/
theorem readEsEntries_eq {data : List UInt8} {E : Nat} :
    ∀ {es : List EsInfo} {fuel : Nat} {pre rest : List Bool},
      (∀ e ∈ es, e.Fits ∧ descriptorsLength e.descriptors ≤ maxInfoLength) →
      bitsOf data = pre ++ (es.map EsInfo.bits).flatten ++ rest → pre.length % 8 = 0 →
      pre.length / 8 + esLoopLength es + crcLen = E → es.length ≤ fuel →
      readEsEntries E fuel (atBit data pre.length) =
        .ok es (atBit data (pre.length + 8 * esLoopLength es))
  | [], 0, _, _, _, _, _, _, _ => rfl
  | [], fuel + 1, pre, rest, _, _, _, hend, _ => by
    unfold readEsEntries
    rw [get_bind, if_pos (by simp only [position_atBit, esLoopLength] at hend ⊢; omega)]
    rfl
  | e :: es, fuel + 1, pre, rest, hf, hb, hk, hend, hfuel => by
    obtain ⟨hfe, hinfo⟩ := hf e (List.mem_cons_self ..)
    have hlen := EsInfo.length_bitsWith hfe (length_natBits 3 7) (length_natBits 4 15)
    have hpos : crcLen < E - pre.length / 8 := by
      simp only [esLoopLength, EsInfo.byteLength] at hend
      omega
    have hrest := readEsEntries_eq (E := E) (fun e' h => hf e' (List.mem_cons_of_mem _ h))
      (show bitsOf data = (pre ++ e.bits) ++ (es.map EsInfo.bits).flatten ++ rest by
        rw [hb, List.map_cons, List.flatten_cons]; simp only [List.append_assoc])
      (by rw [List.length_append, EsInfo.bits_eq, hlen]; omega)
      (by rw [List.length_append, EsInfo.bits_eq, hlen, ← hend, esLoopLength]; omega)
      (show es.length ≤ fuel by simp only [List.length_cons] at hfuel; omega)
    rw [List.length_append, EsInfo.bits_eq, hlen] at hrest
    unfold readEsEntries
    rw [get_bind, if_neg (by simp only [position_atBit]; omega)]
    rw [Reads.bind_at (EsInfo.reads_read (o := pre.length) hk hfe hinfo rfl rfl)
      (show bitsOf data = pre ++ e.bitsWith (natBits 3 7) (natBits 4 15) ++
        ((es.map EsInfo.bits).flatten ++ rest) by
          rw [hb, List.map_cons, List.flatten_cons]; simp only [List.append_assoc]; rfl)
      rfl rfl, hlen, bind_of_ok hrest]
    show EStateM.Result.ok (e :: es) _ = _
    rw [esLoopLength, Nat.mul_add, Nat.add_assoc]

/-- Entries that were read from bit `k` took the bits they spell; with their reserved bits all
ones, the writer's bits. -/
theorem readEsEntries_ok {data : List UInt8} {E : Nat} :
    ∀ {fuel k : Nat} {es : List EsInfo} {c : BitCursor},
      readEsEntries E fuel (atBit data k) = .ok es c →
      c = atBit data (k + 8 * esLoopLength es) ∧
        (∀ e ∈ es, e.Fits ∧ descriptorsLength e.descriptors ≤ maxInfoLength) ∧
        (EsReservedOnes data k es →
          bitWindow data k (8 * esLoopLength es) = (es.map EsInfo.bits).flatten)
  | 0, k, es, c, h => by
    obtain ⟨rfl, rfl⟩ := pure_ok h
    exact ⟨rfl, by simp, fun _ => by simp [esLoopLength, bitWindow_eq]⟩
  | fuel + 1, k, es, c, h => by
    unfold readEsEntries at h
    rw [get_bind] at h
    split at h
    · obtain ⟨rfl, rfl⟩ := pure_ok h
      exact ⟨rfl, by simp, fun _ => by simp [esLoopLength, bitWindow_eq]⟩
    · obtain ⟨e, c₁, he, h⟩ := bind_ok h
      obtain ⟨rfl, -, hfe, hinfo, hwin⟩ := EsInfo.read_ok he
      obtain ⟨es', c₂, hes, h⟩ := bind_ok h
      obtain ⟨rfl, hfits, hbits⟩ := readEsEntries_ok hes
      obtain ⟨rfl, rfl⟩ := pure_ok h
      refine ⟨by rw [esLoopLength, Nat.mul_add, Nat.add_assoc], ?_, fun hres => ?_⟩
      · intro e' he'
        rcases List.mem_cons.1 he' with rfl | he'
        · exact ⟨hfe, hinfo⟩
        · exact hfits e' he'
      · -- this entry, then the rest
        obtain ⟨hr₁, hr₂, hrest⟩ := hres
        rw [esLoopLength, Nat.mul_add, bitWindow_append, hwin, hr₁, hr₂, hbits hrest,
          List.map_cons, List.flatten_cons]
        rfl

/-! ## Running the decoder over a section -/

theorem length_esLoopBits :
    ∀ {es : List EsInfo}, (∀ e ∈ es, e.Fits) →
      ((es.map EsInfo.bits).flatten).length = 8 * esLoopLength es
  | [], _ => rfl
  | e :: es, hf => by
    rw [List.map_cons, List.flatten_cons, List.length_append, EsInfo.bits_eq,
      EsInfo.length_bitsWith (hf e (List.mem_cons_self ..)) rfl rfl,
      length_esLoopBits fun e' h => hf e' (List.mem_cons_of_mem _ h), esLoopLength, Nat.mul_add]

/-- An entry takes at least five bytes, so the loop has no more entries than bytes. -/
theorem length_le_esLoopLength : ∀ es : List EsInfo, es.length ≤ esLoopLength es
  | [] => le_refl 0
  | e :: es => by
    have := length_le_esLoopLength es
    simp only [List.length_cons, esLoopLength, EsInfo.byteLength]
    omega

/-- Each entry of the ES loop takes its own bytes of it. -/
theorem byteLength_le_esLoopLength {e : EsInfo} {es : List EsInfo} (h : e ∈ es) :
    e.byteLength ≤ esLoopLength es := by
  induction es with
  | nil => cases h
  | cons e' es ih =>
    rw [esLoopLength]
    rcases List.mem_cons.1 h with rfl | h
    · omega
    · have := ih h
      omega

/-- A PMT section laid out as the writer lays it out, with any header, CRC and bytes after it:
the decoder reads its fields and comes down to the CRC check over the section. -/
theorem parsePmt_eq {data : List UInt8} {hd : SectionHeader} {sh : SyntaxHeader} {pcrPid : Nat}
    {ds : List Descriptor} {es : List EsInfo} {crc rest : List Bool}
    (hb : bitsOf data = hd.bits ++ sh.bits ++ natBits 3 7 ++ natBits 13 pcrPid ++ natBits 4 15 ++
      natBits 12 (descriptorsLength ds) ++ descriptorsBits ds ++ (es.map EsInfo.bits).flatten ++
      crc ++ rest)
    (htid : hd.tableId = pmtTableId) (hsi : hd.syntaxIndicator = true)
    (hmax : hd.sectionLength ≤ maxSectionLength)
    (hlen : hd.sectionLength =
      syntaxHeaderLen + 4 + descriptorsLength ds + esLoopLength es + crcLen)
    (hsh : sh.Fits) (hpcr₁ : 0x10 ≤ pcrPid) (hpcr₂ : pcrPid ≤ 0x1FFE) (hds : ∀ d ∈ ds, d.Fits)
    (hinfo : descriptorsLength ds ≤ maxInfoLength)
    (hes : ∀ e ∈ es, e.Fits ∧ descriptorsLength e.descriptors ≤ maxInfoLength)
    (hcrc : crc.length = 32) :
    parsePmt data = (verifyCrc .pmt (data.take (sectionHeaderLen + hd.sectionLength))).map
      fun _ => { privateIndicator := hd.privateIndicator, programNumber := sh.idExtension,
                 version := sh.version, currentNext := sh.currentNext, pcrPid,
                 descriptors := ds, streams := es, crc := natOfBits crc } := by
  have hdl := length_descriptorsBits hds
  have hel := length_esLoopBits fun e h => (hes e h).1
  have htotal := congrArg List.length hb
  simp only [length_bitsOf, List.length_append, SectionHeader.length_bits,
    SyntaxHeader.length_bits, length_natBits, hdl, hel, hcrc] at htotal
  unfold syntaxHeaderLen crcLen at hlen
  unfold maxInfoLength at hinfo
  have hhead : SectionHeader.read .pmt pmtTableId (atBit data 0) = .ok hd (atBit data 24) := by
    rw [← htid]
    refine SectionHeader.read_eq (show bitsOf data = hd.bitsWith (natBits 2 3) ++ (sh.bits ++
        natBits 3 7 ++ natBits 13 pcrPid ++ natBits 4 15 ++ natBits 12 (descriptorsLength ds) ++
        descriptorsBits ds ++ (es.map EsInfo.bits).flatten ++ crc ++ rest) by
          rw [hb]; simp only [List.append_assoc]; rfl) rfl (by rw [htid]; decide) hsi hmax ?_
    simp only [List.length_append, SyntaxHeader.length_bits, length_natBits, hdl, hel, hcrc]
    omega
  unfold parsePmt runOn
  rw [ofBytes_eq_atBit, EStateM.run, bind_of_ok hhead]
  unfold pmtBody
  dsimp only
  rw [if_neg (by unfold syntaxHeaderLen crcLen; omega)]
  -- the syntax header, then the PCR PID and the program info length with their reserved bits
  rw [Reads.bind_at (SyntaxHeader.reads_read (t := .pmt) (r := natBits 2 3) rfl
      hsh.idExtension_lt hsh.version_lt hsh.sectionNumber hsh.lastSectionNumber)
      (show bitsOf data = hd.bits ++ sh.bitsWith (natBits 2 3) ++ (natBits 3 7 ++
        natBits 13 pcrPid ++ natBits 4 15 ++ natBits 12 (descriptorsLength ds) ++
        descriptorsBits ds ++ (es.map EsInfo.bits).flatten ++ crc ++ rest) by
          rw [hb]; simp only [List.append_assoc]; rfl)
      (SectionHeader.length_bits hd) rfl, SyntaxHeader.length_bitsWith sh (r := natBits 2 3) rfl]
  rw [Reads.bind_at (Reads.skip (length_natBits 3 7) (by decide))
      (show bitsOf data = hd.bits ++ sh.bits ++ natBits 3 7 ++ (natBits 13 pcrPid ++
        natBits 4 15 ++ natBits 12 (descriptorsLength ds) ++ descriptorsBits ds ++
        (es.map EsInfo.bits).flatten ++ crc ++ rest) by
          rw [hb]; simp only [List.append_assoc])
      (by simp) rfl]
  rw [Reads.bind_at (Reads.bits (show pcrPid < 2 ^ 13 by omega))
      (show bitsOf data = hd.bits ++ sh.bits ++ natBits 3 7 ++ natBits 13 pcrPid ++ (
        natBits 4 15 ++ natBits 12 (descriptorsLength ds) ++ descriptorsBits ds ++
        (es.map EsInfo.bits).flatten ++ crc ++ rest) by
          rw [hb]; simp only [List.append_assoc])
      (by simp) rfl]
  rw [if_neg (by unfold nullPid; omega), if_neg (by simp only [isGeneralPurposePid]; simp; omega)]
  rw [Reads.bind_at (Reads.skip (length_natBits 4 15) (by decide))
      (show bitsOf data = hd.bits ++ sh.bits ++ natBits 3 7 ++ natBits 13 pcrPid ++
        natBits 4 15 ++ (natBits 12 (descriptorsLength ds) ++ descriptorsBits ds ++
        (es.map EsInfo.bits).flatten ++ crc ++ rest) by
          rw [hb]; simp only [List.append_assoc])
      (by simp) rfl]
  rw [Reads.bind_at (Reads.bits (show descriptorsLength ds < 2 ^ 12 by omega))
      (show bitsOf data = hd.bits ++ sh.bits ++ natBits 3 7 ++ natBits 13 pcrPid ++
        natBits 4 15 ++ natBits 12 (descriptorsLength ds) ++ (descriptorsBits ds ++
        (es.map EsInfo.bits).flatten ++ crc ++ rest) by
          rw [hb]; simp only [List.append_assoc])
      (by simp) rfl]
  rw [if_neg (by unfold maxInfoLength; omega)]
  simp only [length_natBits, Nat.reduceAdd]
  rw [Reads.bind_at (Reads.descriptors (o := 96) rfl hds (by omega))
      (show bitsOf data = hd.bits ++ sh.bits ++ natBits 3 7 ++ natBits 13 pcrPid ++
        natBits 4 15 ++ natBits 12 (descriptorsLength ds) ++ descriptorsBits ds ++
        ((es.map EsInfo.bits).flatten ++ crc ++ rest) by
          rw [hb]; simp only [List.append_assoc])
      (by simp) rfl]
  -- the ES loop runs to its end, four bytes before the end of the section
  have hloop := readEsEntries_eq (E := sectionHeaderLen + hd.sectionLength) hes
    (show bitsOf data = hd.bits ++ sh.bits ++ natBits 3 7 ++ natBits 13 pcrPid ++
      natBits 4 15 ++ natBits 12 (descriptorsLength ds) ++ descriptorsBits ds ++
      (es.map EsInfo.bits).flatten ++ (crc ++ rest) by
        rw [hb]; simp only [List.append_assoc])
    (by simp [hdl]; omega) (by simp [hdl]; unfold sectionHeaderLen crcLen; omega)
    (show es.length ≤ data.length by have := length_le_esLoopLength es; omega)
  simp only [List.length_append, SectionHeader.length_bits, SyntaxHeader.length_bits,
    length_natBits, hdl, Nat.reduceAdd] at hloop
  rw [hdl, bind_of_ok hloop, get_bind,
    if_neg (by simp only [position_atBit]; unfold sectionHeaderLen crcLen; omega)]
  unfold readU32
  rw [Reads.bind_at (Reads.bits_natOfBits hcrc)
      (show bitsOf data = hd.bits ++ sh.bits ++ natBits 3 7 ++ natBits 13 pcrPid ++
        natBits 4 15 ++ natBits 12 (descriptorsLength ds) ++ descriptorsBits ds ++
        (es.map EsInfo.bits).flatten ++ crc ++ rest from hb)
      (by simp [hdl, hel]; omega) rfl]
  cases verifyCrc .pmt (data.take (sectionHeaderLen + hd.sectionLength)) with
  | ok u => rfl
  | error e => rfl

/-! ## The section codec -/

namespace PmtSection

/-- The fields of a section fit the widths the stream gives them, and the PCR PID is one the
decoder accepts. -/
structure Fits (p : PmtSection) : Prop where
  programNumber_lt : p.programNumber < 2 ^ 16
  version_lt : p.version < 2 ^ 5
  pcrPid_ge : 0x10 ≤ p.pcrPid
  pcrPid_le : p.pcrPid ≤ 0x1FFE
  descriptors : ∀ d ∈ p.descriptors, d.Fits
  streams : ∀ e ∈ p.streams, e.Fits

instance (p : PmtSection) : Decidable p.Fits :=
  decidable_of_iff (p.programNumber < 2 ^ 16 ∧ p.version < 2 ^ 5 ∧ 0x10 ≤ p.pcrPid ∧
      p.pcrPid ≤ 0x1FFE ∧ (∀ d ∈ p.descriptors, d.Fits) ∧ ∀ e ∈ p.streams, e.Fits)
    ⟨fun ⟨h₁, h₂, h₃, h₄, h₅, h₆⟩ => ⟨h₁, h₂, h₃, h₄, h₅, h₆⟩,
      fun ⟨h₁, h₂, h₃, h₄, h₅, h₆⟩ => ⟨h₁, h₂, h₃, h₄, h₅, h₆⟩⟩

/-- The bytes of the body: the syntax header, the PCR PID and program info length, the program
descriptors and the ES loop. -/
def bodyLength (p : PmtSection) : Nat :=
  syntaxHeaderLen + 4 + descriptorsLength p.descriptors + esLoopLength p.streams

/-- The syntax header the writer puts before the PCR PID. -/
def syntaxHeader (p : PmtSection) : SyntaxHeader :=
  { idExtension := p.programNumber, version := p.version, currentNext := p.currentNext }

theorem length_bodyBits {p : PmtSection} (hf : p.Fits) : p.bodyBits.length = 8 * p.bodyLength := by
  simp only [bodyBits, List.length_append, SyntaxHeader.length_bits, length_natBits,
    length_descriptorsBits hf.descriptors, length_esLoopBits hf.streams, bodyLength]
  unfold syntaxHeaderLen
  omega

theorem bitsOf_body {p : PmtSection} (hf : p.Fits) : bitsOf (packBits p.bodyBits) = p.bodyBits :=
  bitsOf_packBits (by rw [length_bodyBits hf]; omega)

theorem length_body {p : PmtSection} (hf : p.Fits) :
    (packBits p.bodyBits).length = p.bodyLength := by
  rw [length_packBits (by rw [length_bodyBits hf]; omega), length_bodyBits hf]
  omega

/-- Writing fails exactly when the body is longer than the `0x3F9` bytes a section holds. -/
theorem write_ok_iff {p : PmtSection} (hf : p.Fits) :
    (∃ bytes, p.write = .ok bytes) ↔ p.bodyLength ≤ 0x3F9 := by
  rw [write, assembleSection_ok_iff, length_body hf]
  unfold crcLen maxSectionLength
  omega

/-- A body that fits one section keeps every info loop within the bytes the decoder accepts. -/
theorem infoLength_le {p : PmtSection} (hn : p.bodyLength ≤ 0x3F9) :
    descriptorsLength p.descriptors ≤ maxInfoLength ∧
      ∀ e ∈ p.streams, descriptorsLength e.descriptors ≤ maxInfoLength := by
  unfold bodyLength syntaxHeaderLen at hn
  unfold maxInfoLength
  refine ⟨by omega, fun e he => ?_⟩
  have := byteLength_le_esLoopLength he
  unfold EsInfo.byteLength at this
  omega

/-- Writing fails exactly when the body does not fit one section, and a section whose fields fit
their widths is read back as written, with the CRC the writer computed. -/
theorem parsePmt_write (p : PmtSection) (hf : p.Fits) :
    ((∃ bytes, p.write = .ok bytes) ↔ p.bodyLength ≤ 0x3F9) ∧
      ∀ bytes, p.write = .ok bytes →
        parsePmt bytes = .ok { p with crc := (Crc.checksum (bytes.take (bytes.length - crcLen))).toNat } := by
  refine ⟨write_ok_iff hf, fun bytes hw => ?_⟩
  obtain ⟨hinfo, hes⟩ := infoLength_le ((write_ok_iff hf).1 ⟨bytes, hw⟩)
  obtain ⟨hbits, hwhole, hmax, hcrc⟩ := assembleSection_ok_frame (t := .pmt) hw
  rw [bitsOf_body hf] at hbits
  have hsl : (frameHeader pmtTableId p.privateIndicator (packBits p.bodyBits)).sectionLength =
      p.bodyLength + crcLen := by
    rw [frameHeader, length_body hf]
  rw [parsePmt_eq (show bitsOf bytes = _ ++ p.syntaxHeader.bits ++ _ ++ _ ++ _ ++ _ ++ _ ++ _ ++ _ ++ []
    by rw [hbits, List.append_nil]; simp only [bodyBits, List.append_assoc]; rfl) rfl rfl hmax hsl
    ⟨hf.programNumber_lt, hf.version_lt, rfl, rfl⟩ hf.pcrPid_ge hf.pcrPid_le hf.descriptors hinfo
    (fun e he => ⟨hf.streams e he, hes e he⟩) (by rw [length_bitsOf, length_bytesOfU32]; rfl)]
  -- the whole section is checked, and its trailer is the checksum the writer computed
  rw [← hwhole, List.take_length, hcrc, Crc.natOfBits_bitsOf,
    natOfBytes_bytesOfU32 (UInt32.toNat_lt _)]
  rfl

/-- Where a section that was read has its fields: the two headers at the front, the PCR PID, the
program info length and the program descriptors after them, the ES loop up to the CRC, and a
CRC that the check accepted. -/
structure ReadFrom (p : PmtSection) (data : List UInt8) (hd : SectionHeader) : Prop where
  header : hd.ReadFrom data 0 pmtTableId
  syntaxHeader : p.syntaxHeader.ReadFrom data 24
  privateIndicator : p.privateIndicator = hd.privateIndicator
  fits : p.Fits
  sectionLength : hd.sectionLength = p.bodyLength + crcLen
  pcrPid : bitWindow data 67 13 = natBits 13 p.pcrPid
  infoLength : bitWindow data 84 12 = natBits 12 (descriptorsLength p.descriptors)
  descriptors : bitWindow data 96 (8 * descriptorsLength p.descriptors) = descriptorsBits p.descriptors
  streams : EsReservedOnes data (96 + 8 * descriptorsLength p.descriptors) p.streams →
    bitWindow data (96 + 8 * descriptorsLength p.descriptors) (8 * esLoopLength p.streams) =
      (p.streams.map EsInfo.bits).flatten
  crc : verifyCrc .pmt (data.take (sectionHeaderLen + hd.sectionLength)) = .ok ()

/-- A section that was read was read from the fields of its bytes, to its end: the ES loop
stopped where the CRC begins, the CRC was read from the last four bytes of the section, and the
decoder stopped at the section's end. -/
theorem run_of_parsePmt {data : List UInt8} {p : PmtSection} (h : parsePmt data = .ok p) :
    ∃ hd, p.ReadFrom data hd ∧
      readEsEntries (sectionHeaderLen + hd.sectionLength) data.length
          (atBit data (96 + 8 * descriptorsLength p.descriptors)) =
        .ok p.streams (atBit data (8 * (sectionHeaderLen + hd.sectionLength - crcLen))) ∧
      p.crc = natOfBits (bitWindow data (8 * (sectionHeaderLen + hd.sectionLength - crcLen)) 32) ∧
      (SectionHeader.read .pmt pmtTableId >>= pmtBody data) (atBit data 0) =
        .ok p (atBit data (8 * (sectionHeaderLen + hd.sectionLength))) := by
  obtain ⟨c, hrun⟩ := runOn_ok h
  obtain ⟨hd, c₁, hread, h⟩ := bind_ok hrun
  obtain ⟨rfl, hhd⟩ := SectionHeader.read_ok hread
  unfold pmtBody at h
  dsimp only at h
  obtain ⟨-, h⟩ := guard_ok h
  obtain ⟨sh, c₂, hshRead, h⟩ := bind_ok h
  obtain ⟨rfl, hsh⟩ := SyntaxHeader.read_ok hshRead
  obtain ⟨_, c₃, hskip₁, h⟩ := bind_ok h
  obtain ⟨rfl, -⟩ := skipBits_ok hskip₁
  obtain ⟨pcrPid, c₄, hpcr, h⟩ := bind_ok h
  obtain ⟨rfl, -, -, hwinPcr⟩ := readBits_ok hpcr
  obtain ⟨-, h⟩ := guard_ok h
  obtain ⟨hgp, h⟩ := guard_ok h
  obtain ⟨_, c₅, hskip₂, h⟩ := bind_ok h
  obtain ⟨rfl, -⟩ := skipBits_ok hskip₂
  obtain ⟨len, c₆, hlen, h⟩ := bind_ok h
  obtain ⟨rfl, -, -, hwinLen⟩ := readBits_ok hlen
  obtain ⟨-, h⟩ := guard_ok h
  obtain ⟨ds, c₇, hds, h⟩ := bind_ok h
  obtain ⟨-, rfl, -, rfl, hdfits, hwinDs⟩ := readDescriptors_ok hds
  obtain ⟨es, c₈, hes, h⟩ := bind_ok h
  obtain ⟨rfl, hesfits, hwinEs⟩ := readEsEntries_ok hes
  obtain ⟨c₉, c₁₀, hget, h⟩ := bind_ok h
  obtain ⟨rfl, rfl⟩ := get_ok hget
  obtain ⟨hend, h⟩ := guard_ok h
  obtain ⟨crc, c₁₁, hcrc, h⟩ := bind_ok h
  obtain ⟨rfl, -, hcrcLt, hwinCrc⟩ := readBits_ok hcrc
  obtain ⟨u, c₁₂, hcheck, h⟩ := bind_ok h
  obtain ⟨hverify, rfl⟩ := ofExcept_ok hcheck
  obtain ⟨rfl, rfl⟩ := pure_ok h
  -- the loop ended right before the CRC, so the fields fill the section
  simp only [position_atBit, ne_eq, Decidable.not_not] at hend
  simp only [isGeneralPurposePid, Bool.not_eq_true', Bool.and_eq_false_iff,
    decide_eq_false_iff_not, Nat.not_le] at hgp
  have hloop : 0 + 24 + 40 + 3 + 13 + 4 + 12 + 8 * descriptorsLength ds + 8 * esLoopLength es =
      8 * (sectionHeaderLen + hd.sectionLength - crcLen) := by
    unfold sectionHeaderLen crcLen at *
    omega
  refine ⟨hd, ⟨hhd, (hsh.fits.mk_eq).symm ▸ hsh, rfl,
    ⟨hsh.idExtension_lt, hsh.version_lt, by dsimp only; omega, by dsimp only; omega, hdfits,
      fun e he => (hesfits e he).1⟩, ?_, hwinPcr, hwinLen, hwinDs, hwinEs, hverify⟩, ?_, ?_, ?_⟩
  · dsimp only [bodyLength]
    unfold syntaxHeaderLen sectionHeaderLen crcLen at *
    omega
  · rw [← hloop]
    exact hes
  · rw [← hloop, hwinCrc, natOfBits_natBits, Nat.mod_eq_of_lt hcrcLt]
  · rw [show 8 * (sectionHeaderLen + hd.sectionLength) =
      0 + 24 + 40 + 3 + 13 + 4 + 12 + 8 * descriptorsLength ds + 8 * esLoopLength es + 32 by
        unfold sectionHeaderLen crcLen at *
        omega]
    exact hrun

/-- A section that was read was read from the fields of its bytes. -/
theorem readFrom_of_parsePmt {data : List UInt8} {p : PmtSection} (h : parsePmt data = .ok p) :
    ∃ hd, p.ReadFrom data hd := by
  obtain ⟨hd, hread, -⟩ := run_of_parsePmt h
  exact ⟨hd, hread⟩

/-- The reserved bits of a PMT section `p` read from `data` are all ones: two in the section
header, two in the syntax header, three before the PCR PID, four before the program info length,
and three and four in each entry of the ES loop. -/
def ReservedOnes (p : PmtSection) (data : List UInt8) : Prop :=
  bitWindow data 10 2 = List.replicate 2 true ∧ bitWindow data 40 2 = List.replicate 2 true ∧
    bitWindow data 64 3 = List.replicate 3 true ∧ bitWindow data 80 4 = List.replicate 4 true ∧
    EsReservedOnes data (96 + 8 * descriptorsLength p.descriptors) p.streams

instance (p : PmtSection) (data : List UInt8) : Decidable (p.ReservedOnes data) :=
  inferInstanceAs (Decidable (_ ∧ _ ∧ _ ∧ _ ∧ _))

/-- With its reserved bits all ones, the bits after the header of a section that was read are
the body the writer encodes. -/
theorem ReadFrom.bodyBits_eq {p : PmtSection} {data : List UInt8} {hd : SectionHeader}
    (h : p.ReadFrom data hd) (hres : p.ReservedOnes data) :
    p.bodyBits = bitWindow data 24 (8 * p.bodyLength) := by
  obtain ⟨-, hres₂, hres₃, hres₄, hres₅⟩ := hres
  -- the body's fields lie side by side
  rw [show 8 * p.bodyLength = 40 + (3 + (13 + (4 + (12 +
      (8 * descriptorsLength p.descriptors + 8 * esLoopLength p.streams))))) by
    unfold bodyLength syntaxHeaderLen; omega]
  rw [bitWindow_append, bitWindow_append, bitWindow_append, bitWindow_append, bitWindow_append,
    bitWindow_append]
  simp only [Nat.reduceAdd]
  rw [h.syntaxHeader.bits, show bitWindow data (24 + 16) 2 = natBits 2 3 from hres₂, hres₃,
    h.pcrPid, hres₄, h.infoLength, h.descriptors, h.streams hres₅]
  simp only [bodyBits, List.append_assoc]
  rfl

/-- A section that was read, whose reserved bits are all ones, is written back to the bytes it
was read from. -/
theorem write_of_parsePmt {data : List UInt8} {p : PmtSection} (hp : parsePmt data = .ok p)
    (hres : p.ReservedOnes data) :
    p.write = .ok (data.take (sectionHeaderLen + sectionLengthField data)) := by
  obtain ⟨hd, h⟩ := readFrom_of_parsePmt hp
  rw [h.header.sectionLengthField_eq, write, h.privateIndicator]
  refine assembleSection_of_read h.header hres.1 ?_ ?_ h.crc
  · rw [bitsOf_body h.fits, length_body h.fits]
    exact h.bodyBits_eq hres
  · rw [length_body h.fits, h.sectionLength]

/-- The PMT codec in both directions: writing fails exactly when the body does not fit one
section, what is written is read back with the CRC the writer computed, and a section that was
read is written back to its bytes when its reserved bits are ones. -/
theorem write_parsePmt_inverse :
    (∀ p : PmtSection, p.Fits →
      ((∃ bytes, p.write = .ok bytes) ↔ p.bodyLength ≤ 0x3F9) ∧
        ∀ bytes, p.write = .ok bytes →
          parsePmt bytes =
            .ok { p with crc := (Crc.checksum (bytes.take (bytes.length - crcLen))).toNat }) ∧
    (∀ (data : List UInt8) (p : PmtSection), parsePmt data = .ok p → p.ReservedOnes data →
      p.write = .ok (data.take (sectionHeaderLen + sectionLengthField data))) :=
  ⟨parsePmt_write, fun _ _ hp hres => write_of_parsePmt hp hres⟩

/-- A program with its PCR on PID `0x100`, one descriptor of its own, and two streams: video on
PID `0x100`, and audio on PID `0x101` with an English language descriptor. -/
def twoStreams : PmtSection :=
  { programNumber := 1, version := 2, currentNext := true, pcrPid := 0x100,
    descriptors := [.other 0x05 [0x48, 0x44, 0x4D, 0x56]],
    streams := [{ streamType := 0x1B, pid := 0x100 },
      { streamType := 0x0F, pid := 0x101, descriptors := [.language [⟨[0x65, 0x6E, 0x67], 0⟩]] }] }

/-- The section `twoStreams` is written to. -/
def twoStreamsBytes : List UInt8 :=
  [0x02, 0xB0, 0x23, 0x00, 0x01, 0xC5, 0x00, 0x00, 0xE1, 0x00, 0xF0, 0x06, 0x05, 0x04, 0x48, 0x44,
    0x4D, 0x56, 0x1B, 0xE1, 0x00, 0xF0, 0x00, 0x0F, 0xE1, 0x01, 0xF0, 0x06, 0x0A, 0x04, 0x65, 0x6E,
    0x67, 0x00, 0x3C, 0x58, 0x20, 0x66]

/-- `twoStreams` is read back from its section with its CRC, and written back again. -/
theorem write_parsePmt_inverse_twoStreams :
    twoStreams.write = .ok twoStreamsBytes ∧
      parsePmt twoStreamsBytes = .ok { twoStreams with crc := 0x3C582066 } ∧
      PmtSection.write { twoStreams with crc := 0x3C582066 } = .ok twoStreamsBytes := by
  have hw : twoStreams.write = .ok twoStreamsBytes := by decide +kernel
  have hcrc : (Crc.checksum (twoStreamsBytes.take (twoStreamsBytes.length - crcLen))).toNat =
      0x3C582066 := by decide +kernel
  have hp := (write_parsePmt_inverse.1 twoStreams (by decide)).2 twoStreamsBytes hw
  rw [hcrc] at hp
  have hback := write_parsePmt_inverse.2 twoStreamsBytes _ hp (by decide +kernel)
  exact ⟨hw, hp, hback.trans (by decide +kernel)⟩

end PmtSection

end MpegTs
