import MpegTs.Psi.Pat
import MpegTs.Proofs.SectionCodec
import Mathlib.Control.Monad.Basic

/-!
# The program association table read back

`PatSection.write` and `parsePat` are inverse codecs, in both directions
(`PatSection.write_parse_inverse`):

* `PatSection.parsePat_write`: writing fails exactly when more than 253 programs do not fit
  one section, and a section whose fields fit their widths is read back as written, with the
  CRC the writer computed;
* `PatSection.write_of_parsePat`: a section that was read, whose reserved bits are all ones
  and whose programs fill its `section_length` exactly, is written back to the bytes it was
  read from.

Both rest on what the decoder does with the bits of a section. `parsePat_eq` runs it over a
section whose program loop and CRC are any bits at all: it reads the headers and the entries
and comes down to the CRC check. `run_of_parsePat` says what a successful parse shows: headers
spelled by the first bits of the section, a CRC check that passed, and where the decoder
stopped, 32 bits past the entries that `section_length` holds whole.
-/

namespace MpegTs

open BitCursor BitRead

/-! ## Entries -/

namespace PatEntry

/-- The program number and PID fit their 16 and 13 bits. -/
structure Fits (e : PatEntry) : Prop where
  programNumber_lt : e.programNumber < 2 ^ 16
  pid_lt : e.pid < 2 ^ 13

/-- The entry's bits with the three reserved bits `r`. -/
def bitsWith (e : PatEntry) (r : List Bool) : List Bool :=
  natBits 16 e.programNumber ++ r ++ natBits 13 e.pid

/-- The entry that 32 bits read as: the first 16 and the last 13 of them. -/
def ofBits (bs : List Bool) : PatEntry := ⟨natOfBits (bs.take 16), natOfBits (bs.drop 19)⟩

@[simp] theorem length_bitsWith (e : PatEntry) {r : List Bool} (hr : r.length = 3) :
    (e.bitsWith r).length = 32 := by
  simp [bitsWith, hr]

theorem ofBits_bitsWith {e : PatEntry} (hf : e.Fits) {r : List Bool} (hr : r.length = 3) :
    ofBits (e.bitsWith r) = e := by
  have h16 : (natBits 16 e.programNumber ++ r ++ natBits 13 e.pid).take 16 =
      natBits 16 e.programNumber := by
    simp only [List.append_assoc]
    exact List.take_left' (length_natBits _ _)
  have h19 : (natBits 16 e.programNumber ++ r ++ natBits 13 e.pid).drop 19 = natBits 13 e.pid := by
    rw [List.drop_left']
    simp [hr]
  rw [ofBits, bitsWith, h16, h19, natOfBits_natBits, natOfBits_natBits,
    Nat.mod_eq_of_lt hf.programNumber_lt, Nat.mod_eq_of_lt hf.pid_lt]

/-- Any 32 bits read as an entry. -/
theorem reads_read {o : Nat} {bs : List Bool} (h : bs.length = 32) : Reads o read bs (ofBits bs) := by
  have hsplit : bs = bs.take 16 ++ ((bs.drop 16).take 3 ++ bs.drop 19) := by
    rw [show bs.drop 19 = (bs.drop 16).drop 3 by simp [List.drop_drop], List.take_append_drop,
      List.take_append_drop]
  rw [hsplit]
  unfold read readU16
  refine Reads.bind (Reads.bits_natOfBits ?_) (Reads.bind (Reads.skip ?_ (by decide))
    (Reads.bind_last (Reads.bits_natOfBits ?_) ?_))
  · simp [h]
  · simp [h]
  · simp [h]
  · rw [ofBits, ← hsplit]

/-- Any 32 bits of a byte string are the bits of the entry they read as, with the reserved
bits they hold. -/
theorem bitsWith_ofBits_bitWindow {data : List UInt8} {k : Nat} (h : k + 32 ≤ 8 * data.length) :
    (ofBits (bitWindow data k 32)).bitsWith (bitWindow data (k + 16) 3) = bitWindow data k 32 := by
  have hsplit : bitWindow data k 32 =
      bitWindow data k 16 ++ bitWindow data (k + 16) 3 ++ bitWindow data (k + 19) 13 := by
    rw [show (32 : Nat) = 16 + 3 + 13 from rfl, bitWindow_append, bitWindow_append]
  have h16 : (bitWindow data k 16).length = 16 := length_bitWindow (by omega)
  have h3 : (bitWindow data (k + 16) 3).length = 3 := length_bitWindow (by omega)
  have h13 : (bitWindow data (k + 19) 13).length = 13 := length_bitWindow (by omega)
  have htake : (bitWindow data k 16 ++ bitWindow data (k + 16) 3 ++ bitWindow data (k + 19) 13).take 16 =
      bitWindow data k 16 := by
    rw [List.append_assoc]
    exact List.take_left' h16
  have hdrop : (bitWindow data k 16 ++ bitWindow data (k + 16) 3 ++ bitWindow data (k + 19) 13).drop 19 =
      bitWindow data (k + 19) 13 := List.drop_left' (by simp [h16, h3])
  have hnum₁ := natBits_natOfBits (bitWindow data k 16)
  have hnum₂ := natBits_natOfBits (bitWindow data (k + 19) 13)
  rw [h16] at hnum₁
  rw [h13] at hnum₂
  rw [hsplit, ofBits, htake, hdrop, bitsWith, hnum₁, hnum₂]

end PatEntry

/-- `n` blocks of 32 bits read as `n` entries. -/
theorem reads_readPatEntries {o : Nat} :
    ∀ blocks : List (List Bool), (∀ b ∈ blocks, b.length = 32) →
      Reads o (readPatEntries blocks.length) blocks.flatten (blocks.map PatEntry.ofBits)
  | [], _ => Reads.pure _
  | b :: blocks, h => by
    have hb := h b (List.mem_cons_self ..)
    have hrest := reads_readPatEntries (o := o + 32) blocks fun b' hb' =>
      h b' (List.mem_cons_of_mem _ hb')
    rw [List.length_cons, List.flatten_cons, List.map_cons]
    exact Reads.bind (PatEntry.reads_read hb) (hb ▸ Reads.bind_last hrest rfl)

/-- An entry that was read took 32 bits. -/
theorem PatEntry.read_ok {data : List UInt8} {k : Nat} {e : PatEntry} {c : BitCursor}
    (h : PatEntry.read (atBit data k) = .ok e c) : c = atBit data (k + 32) := by
  unfold PatEntry.read readU16 at h
  obtain ⟨pn, c₁, hpn, h₁⟩ := bind_ok h
  obtain ⟨rfl, -⟩ := readBits_ok hpn
  obtain ⟨_, c₂, hskip, h₂⟩ := bind_ok h₁
  obtain ⟨rfl, -⟩ := skipBits_ok hskip
  obtain ⟨pid, c₃, hpid, h₃⟩ := bind_ok h₂
  obtain ⟨rfl, -⟩ := readBits_ok hpid
  obtain ⟨-, rfl⟩ := pure_ok h₃
  simp only [Nat.add_assoc]

/-- `n` entries that were read took `32 * n` bits. -/
theorem readPatEntries_ok {data : List UInt8} :
    ∀ {n k : Nat} {es : List PatEntry} {c : BitCursor},
      readPatEntries n (atBit data k) = .ok es c → c = atBit data (k + 32 * n)
  | 0, k, es, c, h => by
    obtain ⟨-, rfl⟩ := pure_ok h
    rfl
  | n + 1, k, es, c, h => by
    unfold readPatEntries at h
    obtain ⟨e, c₁, he, h₁⟩ := bind_ok h
    obtain rfl := PatEntry.read_ok he
    obtain ⟨es', c₂, hes, h₂⟩ := bind_ok h₁
    obtain rfl := readPatEntries_ok hes
    obtain ⟨-, rfl⟩ := pure_ok h₂
    rw [Nat.mul_succ, Nat.add_assoc, Nat.add_comm 32]

/-! ## Running the decoder over a section -/

/-- A PAT section, its header and syntax header read back, any bits in its program loop and
CRC field: the decoder reads the entries those bits spell and comes down to the CRC check
over the section. -/
theorem parsePat_eq {data : List UInt8} {hd : SectionHeader} {sh : SyntaxHeader}
    {r₁ r₂ crc rest : List Bool} {blocks : List (List Bool)}
    (hb : bitsOf data = hd.bitsWith r₁ ++ sh.bitsWith r₂ ++ blocks.flatten ++ crc ++ rest)
    (hr₁ : r₁.length = 2) (hr₂ : r₂.length = 2) (htid : hd.tableId = patTableId)
    (hsi : hd.syntaxIndicator = true) (hmax : hd.sectionLength ≤ maxSectionLength)
    (hmin : syntaxHeaderLen + crcLen ≤ hd.sectionLength)
    (hfit : sectionHeaderLen + hd.sectionLength ≤ data.length) (hsh : sh.Fits)
    (hn : blocks.length = (hd.sectionLength - syntaxHeaderLen - crcLen) / 4)
    (hblocks : ∀ b ∈ blocks, b.length = 32) (hcrc : crc.length = 32) :
    parsePat data = (verifyCrc .pat (data.take (sectionHeaderLen + hd.sectionLength))).map
      fun _ => { privateIndicator := hd.privateIndicator, transportStreamId := sh.idExtension,
                 version := sh.version, currentNext := sh.currentNext,
                 programs := blocks.map PatEntry.ofBits, crc := natOfBits crc } := by
  have hlen := congrArg List.length hb
  simp only [length_bitsOf, List.length_append, SectionHeader.length_bitsWith _ hr₁,
    SyntaxHeader.length_bitsWith _ hr₂] at hlen
  have hhead : SectionHeader.read .pat patTableId (atBit data 0) = .ok hd (atBit data 24) := by
    rw [← htid]
    refine SectionHeader.read_eq
      (show bitsOf data = hd.bitsWith r₁ ++ (sh.bitsWith r₂ ++ blocks.flatten ++ crc ++ rest) by
        rw [hb]; simp only [List.append_assoc]) hr₁ (by rw [htid]; decide) hsi hmax ?_
    simp only [List.length_append, SyntaxHeader.length_bitsWith _ hr₂]
    unfold sectionHeaderLen at hfit
    omega
  have hentries := reads_readPatEntries (o := 64) blocks hblocks
  unfold parsePat runOn
  rw [ofBytes_eq_atBit, EStateM.run, bind_of_ok hhead]
  unfold patBody
  dsimp only
  rw [if_neg (by omega), ← hn]
  rw [Reads.bind_at (SyntaxHeader.reads_read hr₂ hsh.idExtension_lt hsh.version_lt
      hsh.sectionNumber hsh.lastSectionNumber)
      (show bitsOf data = hd.bitsWith r₁ ++ sh.bitsWith r₂ ++ (blocks.flatten ++ crc ++ rest) by
        rw [hb]; simp only [List.append_assoc])
      (SectionHeader.length_bitsWith _ hr₁) rfl, SyntaxHeader.length_bitsWith _ hr₂]
  rw [Reads.bind_at hentries
      (show bitsOf data = hd.bitsWith r₁ ++ sh.bitsWith r₂ ++ blocks.flatten ++ (crc ++ rest) by
        rw [hb]; simp only [List.append_assoc])
      (by simp [hr₁, hr₂]) rfl]
  unfold readU32
  rw [Reads.bind_at (Reads.bits_natOfBits (o := 64 + blocks.flatten.length) hcrc) hb
      (by simp only [List.length_append, SectionHeader.length_bitsWith _ hr₁,
        SyntaxHeader.length_bitsWith _ hr₂]) rfl]
  cases verifyCrc .pat (data.take (sectionHeaderLen + hd.sectionLength)) with
  | ok u => rfl
  | error e => rfl

/-- A PAT section that was read was read to where its entries stop: headers spelled by its
first bits, room for the syntax header and the CRC, the entries that `section_length` holds
whole, the CRC right after them, and a CRC check that passed over the section. -/
theorem run_of_parsePat {data : List UInt8} {p : PatSection} (h : parsePat data = .ok p) :
    ∃ (hd : SectionHeader) (sh : SyntaxHeader), hd.ReadFrom data 0 patTableId ∧
      sh.ReadFrom data 24 ∧ syntaxHeaderLen + crcLen ≤ hd.sectionLength ∧
      verifyCrc .pat (data.take (sectionHeaderLen + hd.sectionLength)) = .ok () ∧
      readPatEntries ((hd.sectionLength - syntaxHeaderLen - crcLen) / 4) (atBit data 64) =
        .ok p.programs (atBit data (64 + 32 * ((hd.sectionLength - syntaxHeaderLen - crcLen) / 4))) ∧
      (SectionHeader.read .pat patTableId >>= patBody data) (atBit data 0) =
        .ok p (atBit data (96 + 32 * ((hd.sectionLength - syntaxHeaderLen - crcLen) / 4))) := by
  obtain ⟨c, hrun⟩ := runOn_ok h
  obtain ⟨hd, c₁, hread, h₁⟩ := bind_ok hrun
  obtain ⟨rfl, hhd⟩ := SectionHeader.read_ok hread
  unfold patBody at h₁
  obtain ⟨hmin, h₂⟩ := guard_ok h₁
  beta_reduce at h₂
  obtain ⟨sh, c₂, hshRead, h₃⟩ := bind_ok h₂
  obtain ⟨rfl, hsh⟩ := SyntaxHeader.read_ok hshRead
  obtain ⟨es, c₃, hes, h₄⟩ := bind_ok h₃
  obtain rfl := readPatEntries_ok hes
  obtain ⟨crc, c₄, hcrc, h₅⟩ := bind_ok h₄
  obtain ⟨rfl, -⟩ := readBits_ok hcrc
  obtain ⟨u, c₅, hcheck, h₆⟩ := bind_ok h₅
  obtain ⟨hverify, rfl⟩ := ofExcept_ok hcheck
  obtain ⟨rfl, rfl⟩ := pure_ok h₆
  set n := (hd.sectionLength - syntaxHeaderLen - crcLen) / 4
  rw [show 0 + 24 + 40 + 32 * n + 32 = 96 + 32 * n by omega] at hrun
  exact ⟨hd, sh, hhd, hsh, by omega, hverify, hes, hrun⟩

/-- A PAT section that was read has headers spelled by its first bits, room for the syntax
header and the CRC, and passes the CRC check. -/
theorem parsePat_ok {data : List UInt8} {p : PatSection} (h : parsePat data = .ok p) :
    ∃ (hd : SectionHeader) (sh : SyntaxHeader), hd.ReadFrom data 0 patTableId ∧ sh.ReadFrom data 24 ∧
      syntaxHeaderLen + crcLen ≤ hd.sectionLength ∧
      verifyCrc .pat (data.take (sectionHeaderLen + hd.sectionLength)) = .ok () := by
  obtain ⟨hd, sh, hhd, hsh, hmin, hcrc, -⟩ := run_of_parsePat h
  exact ⟨hd, sh, hhd, hsh, hmin, hcrc⟩

/-- The first `n` blocks of 32 bits of the program loop of the PAT that starts `data`. -/
def patBlocks (data : List UInt8) (n : Nat) : List (List Bool) :=
  (List.range n).map fun i => bitWindow data (64 + 32 * i) 32

theorem length_of_mem_patBlocks {data : List UInt8} {n : Nat} (hlen : 64 + 32 * n ≤ 8 * data.length)
    {b : List Bool} (hb : b ∈ patBlocks data n) : b.length = 32 := by
  obtain ⟨i, hi, rfl⟩ := List.mem_map.1 hb
  have hi := List.mem_range.1 hi
  exact length_bitWindow (by omega)

/-- The section that the bits of `data` spell as a PAT with headers `hd` and `sh`: as many
entries as `section_length` holds whole, and the 32 bits after them as its CRC. -/
def patFields (data : List UInt8) (hd : SectionHeader) (sh : SyntaxHeader) : PatSection :=
  let n := (hd.sectionLength - syntaxHeaderLen - crcLen) / 4
  { privateIndicator := hd.privateIndicator, transportStreamId := sh.idExtension,
    version := sh.version, currentNext := sh.currentNext,
    programs := (patBlocks data n).map PatEntry.ofBits,
    crc := natOfBits (bitWindow data (64 + 32 * n) 32) }

/-- Once its headers are read, a PAT section is decoded to the fields its bits spell, exactly
when its CRC checks. -/
theorem parsePat_eq_of_headers {data : List UInt8} {hd : SectionHeader} {sh : SyntaxHeader}
    (hhd : hd.ReadFrom data 0 patTableId) (hsh : sh.ReadFrom data 24)
    (hmin : syntaxHeaderLen + crcLen ≤ hd.sectionLength) :
    parsePat data = (verifyCrc .pat (data.take (sectionHeaderLen + hd.sectionLength))).map
      fun _ => patFields data hd sh := by
  have hfit := hhd.fits
  obtain ⟨n, hn⟩ : ∃ n, (hd.sectionLength - syntaxHeaderLen - crcLen) / 4 = n := ⟨_, rfl⟩
  have hlen : 96 + 32 * n ≤ 8 * data.length := by
    unfold syntaxHeaderLen crcLen at hn hmin
    omega
  -- the section's bits, field by field, then whatever follows it
  have hsplit : bitsOf data = hd.bitsWith (bitWindow data 10 2) ++
      sh.bitsWith (bitWindow data 40 2) ++ (patBlocks data n).flatten ++
      bitWindow data (64 + 32 * n) 32 ++ (bitsOf data).drop (96 + 32 * n) := by
    conv_lhs => rw [bitsOf_eq_bitWindow_append data (96 + 32 * n)]
    rw [show 96 + 32 * n = 24 + 40 + 32 * n + 32 by omega, bitWindow_append, bitWindow_append,
      bitWindow_append, hhd.bits, hsh.bits, bitWindow_blocks]
    simp only [Nat.zero_add]
    rfl
  rw [parsePat_eq hsplit (length_bitWindow (by omega)) (length_bitWindow (by omega)) hhd.tableId
    hhd.syntaxIndicator hhd.length_le hmin (by unfold sectionHeaderLen; omega) hsh.fits
    (by simp [patBlocks, hn]) (fun _ => length_of_mem_patBlocks (by omega))
    (length_bitWindow (by omega))]
  unfold patFields
  rw [hn]

/-! ## Writing, then reading -/

namespace PatSection

/-- The fields of a section fit the widths the stream gives them. -/
structure Fits (p : PatSection) : Prop where
  transportStreamId_lt : p.transportStreamId < 2 ^ 16
  version_lt : p.version < 2 ^ 5
  programs : ∀ e ∈ p.programs, e.Fits

/-- The syntax header the writer puts before the program loop. -/
def syntaxHeader (p : PatSection) : SyntaxHeader :=
  { idExtension := p.transportStreamId, version := p.version, currentNext := p.currentNext }

/-- The program loop the writer encodes, one block of 32 bits an entry. -/
def entryBlocks (p : PatSection) : List (List Bool) :=
  p.programs.map (·.bitsWith (natBits 3 7))

theorem bodyBits_eq (p : PatSection) :
    p.bodyBits = p.syntaxHeader.bitsWith (natBits 2 3) ++ p.entryBlocks.flatten := rfl

theorem length_of_mem_entryBlocks {p : PatSection} {b : List Bool} (h : b ∈ p.entryBlocks) :
    b.length = 32 := by
  obtain ⟨e, -, rfl⟩ := List.mem_map.1 h
  exact e.length_bitsWith rfl

theorem length_bodyBits (p : PatSection) : p.bodyBits.length = 40 + 32 * p.programs.length := by
  rw [bodyBits_eq, List.length_append, SyntaxHeader.length_bitsWith _ rfl,
    length_flatten_of_forall fun _ => length_of_mem_entryBlocks, entryBlocks, List.length_map]

theorem bitsOf_body (p : PatSection) : bitsOf (packBits p.bodyBits) = p.bodyBits :=
  bitsOf_packBits (by rw [length_bodyBits]; omega)

theorem length_body (p : PatSection) :
    (packBits p.bodyBits).length = syntaxHeaderLen + 4 * p.programs.length := by
  rw [length_packBits (by rw [length_bodyBits]; omega), length_bodyBits]
  unfold syntaxHeaderLen
  omega

/-- Entries that fit are read back from the blocks the writer encodes. -/
theorem ofBits_entryBlocks {p : PatSection} (hf : p.Fits) :
    p.entryBlocks.map PatEntry.ofBits = p.programs := by
  rw [entryBlocks, List.map_map]
  conv => rhs; rw [← List.map_id p.programs]
  exact List.map_congr_left fun e he => PatEntry.ofBits_bitsWith (hf.programs e he) rfl

/-- Writing fails exactly when the programs do not fit one section; 253 of them do. -/
theorem write_ok_iff (p : PatSection) :
    (∃ bytes, p.write = .ok bytes) ↔ p.programs.length ≤ 253 := by
  rw [write, assembleSection_ok_iff, length_body]
  unfold syntaxHeaderLen crcLen maxSectionLength
  omega

/-- Writing fails exactly when more than 253 programs do not fit one section, and a section
whose fields fit their widths is read back as written, with the CRC the writer computed. -/
theorem parsePat_write (p : PatSection) (hf : p.Fits) :
    ((∃ bytes, p.write = .ok bytes) ↔ p.programs.length ≤ 253) ∧
      ∀ bytes, p.write = .ok bytes →
        parsePat bytes = .ok { p with crc := (Crc.checksum (bytes.take (bytes.length - crcLen))).toNat } := by
  refine ⟨write_ok_iff p, fun bytes hw => ?_⟩
  obtain ⟨hbits, hwhole, hmax, hcrc⟩ := assembleSection_ok_frame (t := .pat) hw
  rw [bitsOf_body, bodyBits_eq] at hbits
  have hsl : (frameHeader patTableId p.privateIndicator (packBits p.bodyBits)).sectionLength =
      syntaxHeaderLen + 4 * p.programs.length + crcLen := by
    rw [frameHeader, length_body]
  rw [parsePat_eq (show bitsOf bytes = _ ++ _ ++ p.entryBlocks.flatten ++ _ ++ []
    by rw [hbits, List.append_nil]; simp only [List.append_assoc]; rfl) rfl rfl rfl rfl hmax
    (by rw [hsl]; omega) hwhole.ge ⟨hf.transportStreamId_lt, hf.version_lt, rfl, rfl⟩
    (by rw [entryBlocks, List.length_map, hsl]; omega) (fun _ => length_of_mem_entryBlocks)
    (by rw [length_bitsOf, length_bytesOfU32]; rfl)]
  -- the whole section is checked, and its trailer is the checksum the writer computed
  rw [← hwhole, List.take_length, hcrc, ofBits_entryBlocks hf, Crc.natOfBits_bitsOf,
    natOfBytes_bytesOfU32 (UInt32.toNat_lt _)]
  rfl

/-- The reserved bits of the PAT section that starts `data` are all ones: two in the section
header, two in the syntax header and three in each program entry. -/
def ReservedOnes (data : List UInt8) : Prop :=
  bitWindow data 10 2 = List.replicate 2 true ∧ bitWindow data 40 2 = List.replicate 2 true ∧
    ∀ i < (sectionLengthField data - syntaxHeaderLen - crcLen) / 4,
      bitWindow data (64 + 32 * i + 16) 3 = List.replicate 3 true

instance (data : List UInt8) : Decidable (ReservedOnes data) :=
  inferInstanceAs (Decidable (_ ∧ _ ∧ ∀ i < _, _))

/-- A section that was read, whose reserved bits are all ones and whose programs fill its
`section_length` exactly, is written back to the bytes it was read from. -/
theorem write_of_parsePat {data : List UInt8} {p : PatSection} (hp : parsePat data = .ok p)
    (hres : ReservedOnes data)
    (hfill : (sectionLengthField data - syntaxHeaderLen - crcLen) % 4 = 0) :
    p.write = .ok (data.take (sectionHeaderLen + sectionLengthField data)) := by
  obtain ⟨hd, sh, hhd, hsh, hmin, hcrc⟩ := parsePat_ok hp
  have hparse := parsePat_eq_of_headers hhd hsh hmin
  rw [hp, hcrc] at hparse
  injection hparse with hparse
  subst hparse
  obtain ⟨hres₁, hres₂, hres₃⟩ := hres
  rw [hhd.sectionLengthField_eq] at hres₃ hfill ⊢
  -- `n` programs fill the section
  obtain ⟨n, hcount⟩ : ∃ n, (hd.sectionLength - syntaxHeaderLen - crcLen) / 4 = n := ⟨_, rfl⟩
  rw [hcount] at hres₃
  have hn : hd.sectionLength = 5 + 4 * n + 4 := by
    unfold syntaxHeaderLen crcLen at hcount hfill hmin
    omega
  have hfit := hhd.fits
  have hlen : 96 + 32 * n ≤ 8 * data.length := by omega
  have hfields : patFields data hd sh = PatSection.mk hd.privateIndicator sh.idExtension sh.version
      sh.currentNext ((patBlocks data n).map PatEntry.ofBits)
      (natOfBits (bitWindow data (64 + 32 * n) 32)) := by
    unfold patFields
    rw [hcount]
  rw [hfields]
  generalize hq : PatSection.mk _ _ _ _ _ _ = q
  -- the writer encodes the entries back to the blocks they were read from
  have hentries : q.entryBlocks = patBlocks data n := by
    rw [← hq, entryBlocks]
    simp only [patBlocks, List.map_map]
    apply List.map_congr_left
    intro i hi
    have hi := List.mem_range.1 hi
    show (PatEntry.ofBits (bitWindow data (64 + 32 * i) 32)).bitsWith (natBits 3 7) = _
    rw [show natBits 3 7 = bitWindow data (64 + 32 * i + 16) 3 from (hres₃ i hi).symm]
    exact PatEntry.bitsWith_ofBits_bitWindow (by omega)
  have hsyn : q.syntaxHeader = sh := by
    rw [← hq]
    exact hsh.fits.mk_eq
  have hprograms : q.programs.length = n := by simp [← hq, patBlocks]
  have hbody : q.bodyBits = bitWindow data 24 (40 + 32 * n) := by
    rw [bodyBits_eq, hsyn, hentries,
      show natBits 2 3 = bitWindow data (24 + 16) 2 from hres₂.symm, ← hsh.bits, bitWindow_append,
      patBlocks, bitWindow_blocks]
  -- the writer frames the body with the header it was read with
  rw [write, show q.privateIndicator = hd.privateIndicator by rw [← hq]]
  refine assembleSection_of_read hhd hres₁ ?_ ?_ hcrc
  · rw [bitsOf_body, length_body, hprograms, hbody]
    congr 1
    unfold syntaxHeaderLen
    omega
  · rw [length_body, hprograms, hn]
    rfl

/-- The PAT codec in both directions: writing fails exactly when the programs do not fit one
section, what is written is read back with the CRC the writer computed, and a section that was
read is written back to its bytes when its reserved bits are ones and its programs fill it. -/
theorem write_parse_inverse :
    (∀ p : PatSection, p.Fits →
      ((∃ bytes, p.write = .ok bytes) ↔ p.programs.length ≤ 253) ∧
        ∀ bytes, p.write = .ok bytes →
          parsePat bytes =
            .ok { p with crc := (Crc.checksum (bytes.take (bytes.length - crcLen))).toNat }) ∧
    (∀ (data : List UInt8) (p : PatSection), parsePat data = .ok p → ReservedOnes data →
      (sectionLengthField data - syntaxHeaderLen - crcLen) % 4 = 0 →
        p.write = .ok (data.take (sectionHeaderLen + sectionLengthField data))) :=
  ⟨parsePat_write, fun _ _ hp hres hfill => write_of_parsePat hp hres hfill⟩

/-- One program: the network's program map on PID `0x100`. -/
def oneProgram : PatSection :=
  { transportStreamId := 1, version := 3, currentNext := true, programs := [⟨1, 0x100⟩] }

theorem oneProgram_fits : oneProgram.Fits where
  transportStreamId_lt := by decide
  version_lt := by decide
  programs := by
    rintro e (_ | ⟨_, ⟨⟩⟩)
    exact ⟨by decide, by decide⟩

/-- The section `oneProgram` is written to. -/
def oneProgramBytes : List UInt8 :=
  [0x00, 0xB0, 0x0D, 0x00, 0x01, 0xC7, 0x00, 0x00, 0x00, 0x01, 0xE1, 0x00, 0x4F, 0xCB, 0x33, 0xAC]

/-- `oneProgram` is read back from its section with its CRC, and written back again. -/
theorem write_parse_inverse_oneProgram :
    oneProgram.write = .ok oneProgramBytes ∧
      parsePat oneProgramBytes = .ok { oneProgram with crc := 0x4FCB33AC } ∧
      PatSection.write { oneProgram with crc := 0x4FCB33AC } = .ok oneProgramBytes := by
  have hw : oneProgram.write = .ok oneProgramBytes := by decide +kernel
  have hcrc : (Crc.checksum (oneProgramBytes.take (oneProgramBytes.length - crcLen))).toNat =
      0x4FCB33AC := by decide +kernel
  have hp := (write_parse_inverse.1 oneProgram oneProgram_fits).2 oneProgramBytes hw
  rw [hcrc] at hp
  have hback := write_parse_inverse.2 oneProgramBytes _ hp (by decide +kernel) (by decide +kernel)
  exact ⟨hw, hp, hback.trans (by decide +kernel)⟩

end PatSection

end MpegTs
