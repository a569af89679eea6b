import MpegTs.Proofs.PesRoundTrip
import MpegTs.Proofs.SuccessfulReads

/-!
# The length of a PES header

`PesHeader.headerLen` counts the bytes from the start code to the payload: the six fixed
bytes, and with an optional header three more and the header data block, as long as the
declared `PES_header_data_length` or, if the present fields need more, as long as they need
(`PesOptionalHeader.minDataLength`). This file compares that count with what the decoder
reads.

The decoder reads the fields of the header data block on a cursor of its own over exactly
`PES_header_data_length` bytes, so the fields can never take more than the block: a header
that decodes has `minDataLength ≤ headerDataLength`, and the decoder stops after
`headerLen` bytes. The proof is a small logic of postconditions for readers:
`BitRead.Spans r Q` says that wherever `r` succeeds it moves some `n` bits on, with `Q`
holding of the value returned and `n`; one lemma per combinator builds it up, and each
decoder gets its distance from its fields.

## Main statements

* `PesExtension.spans_read`, `PesOptionalHeader.spans_fields`, `PesOptionalHeader.spans_read`,
  `PesHeader.spans_read`: how far each decoder moves.
* `PesPacket.parse_consumes_headerLen`: a PES packet that decodes has its payload
  `headerLen` bytes in, and the payload length its header declares is counted after the
  bytes the decoder read.
-/

namespace MpegTs

open BitCursor

namespace BitRead

variable {α β : Type}

/-- Wherever `r` succeeds from a read position inside a byte string, it stops `n` bits
later, still inside, with `Q` holding of the value it returns and `n`. -/
def Spans (r : BitRead α) (Q : α → Nat → Prop) : Prop :=
  ∀ data k v c, k ≤ 8 * data.length → r (atBit data k) = .ok v c →
    ∃ n, c = atBit data (k + n) ∧ k + n ≤ 8 * data.length ∧ Q v n

variable {Q : β → Nat → Prop}

theorem Spans.mono {r : BitRead β} {P : β → Nat → Prop} (h : Spans r P)
    (hPQ : ∀ v n, P v n → Q v n) : Spans r Q := by
  intro data k v c hk hr
  obtain ⟨n, hc, hn, hP⟩ := h data k v c hk hr
  exact ⟨n, hc, hn, hPQ v n hP⟩

/-- The run lemma of the logic: the continuation's distance adds to the first step's. -/
theorem Spans.bind {x : BitRead α} {f : α → BitRead β} {P : α → Nat → Prop} (hx : Spans x P)
    (hf : ∀ a n, P a n → Spans (f a) fun b m => Q b (n + m)) : Spans (x >>= f) Q := by
  intro data k v c hk h
  obtain ⟨a, c₁, h₁, h₂⟩ := bind_ok h
  obtain ⟨n, rfl, hn, hP⟩ := hx data k a c₁ hk h₁
  obtain ⟨m, rfl, hm, hQ⟩ := hf a n hP data (k + n) v c hn h₂
  exact ⟨n + m, by rw [Nat.add_assoc], by omega, hQ⟩

/-- A first step that always moves `n` bits. -/
theorem Spans.bind_const {x : BitRead α} {f : α → BitRead β} {n : Nat}
    (hx : Spans x fun _ m => m = n) (hf : ∀ a, Spans (f a) fun b m => Q b (n + m)) :
    Spans (x >>= f) Q :=
  Spans.bind hx fun a _ hm => hm ▸ hf a

theorem Spans.pure {v : β} (h : Q v 0) : Spans (Pure.pure v) Q := by
  intro data k v' c hk hr
  obtain ⟨rfl, rfl⟩ := pure_ok hr
  exact ⟨0, rfl, hk, h⟩

theorem Spans.throw_bind {e : Error} {f : α → BitRead β} : Spans (throw e >>= f) Q := by
  intro data k v c _ h
  cases h

theorem Spans.ite {p : Prop} [Decidable p] {x y : BitRead β} (hx : p → Spans x Q)
    (hy : ¬p → Spans y Q) : Spans (if p then x else y) Q := by
  split
  · exact hx ‹_›
  · exact hy ‹_›

theorem Spans.map {r : BitRead α} {g : α → β} (h : Spans r fun a n => Q (g a) n) :
    Spans (g <$> r) Q := by
  intro data k v c hk hr
  change EStateM.map g r (atBit data k) = _ at hr
  unfold EStateM.map at hr
  split at hr
  · rename_i a c₁ heq
    cases hr
    exact h data k a c hk heq
  · cases hr

theorem Spans.ofExcept {e : Except Error β} (h : ∀ v, e = .ok v → Q v 0) :
    Spans (MonadExcept.ofExcept e) Q := by
  intro data k v c hk hr
  obtain ⟨he, rfl⟩ := ofExcept_ok hr
  exact ⟨0, rfl, hk, h v he⟩

/-! ## Primitive reads -/

theorem Spans.readBits {n : Nat} {Q : Nat → Nat → Prop} (h : ∀ v, Q v n) :
    Spans (readBits n) Q := by
  intro data k v c _ hr
  obtain ⟨rfl, hfit, -, -⟩ := readBits_ok hr
  exact ⟨n, rfl, by omega, h v⟩

theorem Spans.skipBits {n : Nat} {Q : Unit → Nat → Prop} (h : Q () n) :
    Spans (skipBits n) Q := by
  intro data k v c _ hr
  obtain ⟨rfl, hfit⟩ := skipBits_ok hr
  exact ⟨n, rfl, by omega, h⟩

theorem Spans.readFlag {Q : Bool → Nat → Prop} (h : ∀ b, Q b 1) : Spans readFlag Q := by
  intro data k v c _ hr
  obtain ⟨rfl, hfit, -⟩ := readFlag_ok hr
  exact ⟨1, rfl, by omega, h v⟩

/-- Whole bytes: the bytes returned are as many as asked for. -/
theorem Spans.readBytes {n : Nat} {Q : List UInt8 → Nat → Prop}
    (h : ∀ bytes : List UInt8, bytes.length = n → Q bytes (8 * n)) : Spans (readBytes n) Q := by
  intro data k v c _ hr
  obtain ⟨hk, rfl, hfit, rfl⟩ := readBytes_ok hr
  refine ⟨8 * n, rfl, by omega, h _ ?_⟩
  simp only [List.length_take, List.length_drop]
  omega

/-- An optional field moves as far as its reader when its flag is set, and not at all
otherwise. -/
theorem Spans.readIf {b : Bool} {r : BitRead α} {Q : Option α → Nat → Prop}
    (hr : Spans r fun a n => Q (some a) n) (hn : Q none 0) : Spans (readIf b r) Q := by
  unfold BitRead.readIf
  exact Spans.ite (fun _ => Spans.map hr) (fun _ => Spans.pure hn)

/-- An optional field whose reader takes `s a` bytes for the value `a` it returns. -/
theorem Spans.readIf_size {b : Bool} {r : BitRead α} {s : α → Nat}
    (hr : Spans r fun a n => n = 8 * s a) :
    Spans (BitRead.readIf b r) fun x n => n = 8 * optionSize s x :=
  Spans.readIf hr rfl

/-- A block of `n` bytes moves the cursor `n` bytes on, whatever its reader takes of it;
that reader stays inside the block. -/
theorem Spans.within {n : Nat} {r : BitRead α} {R : α → Nat → Prop} (hr : Spans r R) :
    Spans (within n r) fun v m => m = 8 * n ∧ ∃ j, j ≤ 8 * n ∧ R v j := by
  unfold BitRead.within
  refine Spans.bind (Spans.readBytes (Q := fun block m => block.length = n ∧ m = 8 * n)
    fun _ hlen => ⟨hlen, rfl⟩) fun block m ⟨hlen, hm⟩ => Spans.ofExcept fun v hv => ?_
  -- the block's reader ran on a cursor of its own, from the block's first bit
  obtain ⟨c, hc⟩ := runOn_ok hv
  obtain ⟨j, -, hj, hR⟩ := hr block 0 v c (Nat.zero_le _) hc
  exact ⟨by omega, j, by omega, hR⟩

theorem spans_readTimestamp : Spans readTimestamp fun _ m => m = 36 := by
  unfold readTimestamp
  refine Spans.bind_const (Spans.readBits fun _ => rfl) fun _ => ?_
  refine Spans.bind_const (Spans.skipBits rfl) fun _ => ?_
  refine Spans.bind_const (Spans.readBits fun _ => rfl) fun _ => ?_
  refine Spans.bind_const (Spans.skipBits rfl) fun _ => ?_
  refine Spans.bind_const (Spans.readBits fun _ => rfl) fun _ => ?_
  exact Spans.bind_const (Spans.skipBits rfl) fun _ => Spans.pure rfl

end BitRead

open BitRead

/-! ## How far the decoders move -/

/-- The extension decoder reads the flag byte and the fields it announces. -/
theorem PesExtension.spans_read : Spans PesExtension.read fun e n => n = 8 * e.size := by
  unfold PesExtension.read
  refine Spans.bind_const (Spans.readFlag fun _ => rfl) fun _ => ?_
  refine Spans.bind_const (Spans.readFlag fun _ => rfl) fun _ => ?_
  refine Spans.bind_const (Spans.readFlag fun _ => rfl) fun _ => ?_
  refine Spans.bind_const (Spans.readFlag fun _ => rfl) fun _ => ?_
  refine Spans.bind_const (Spans.skipBits rfl) fun _ => ?_
  refine Spans.bind_const (Spans.readFlag fun _ => rfl) fun _ => ?_
  refine Spans.bind (Spans.readIf_size (s := fun _ => 16)
    (Spans.readBytes fun _ _ => rfl)) fun privateData n₁ h₁ => ?_
  -- the pack header and the second extension carry their own length in front of them
  refine Spans.bind (Spans.readIf_size (s := (1 + ·.length))
    (Spans.bind (Spans.readBits (Q := fun _ m => m = 8) fun _ => rfl) fun _ m hm =>
      Spans.readBytes fun bytes hlen => by omega)) fun packHeader n₂ h₂ => ?_
  refine Spans.bind (Spans.readIf_size (s := fun _ => 2) ?_) fun sequenceCounter n₃ h₃ => ?_
  · refine Spans.bind_const (Spans.skipBits rfl) fun _ => ?_
    refine Spans.bind_const (Spans.readBits fun _ => rfl) fun _ => ?_
    refine Spans.bind_const (Spans.skipBits rfl) fun _ => ?_
    refine Spans.bind_const (Spans.readFlag fun _ => rfl) fun _ => ?_
    exact Spans.bind_const (Spans.readBits fun _ => rfl) fun _ => Spans.pure rfl
  refine Spans.bind (Spans.readIf_size (s := fun _ => 2) ?_) fun pStdBuffer n₄ h₄ => ?_
  · refine Spans.bind_const (Spans.skipBits rfl) fun _ => ?_
    refine Spans.bind_const (Spans.readFlag fun _ => rfl) fun _ => ?_
    exact Spans.bind_const (Spans.readBits fun _ => rfl) fun _ => Spans.pure rfl
  refine Spans.bind (Spans.readIf_size (s := (1 + ·.length)) ?_) fun extension2 n₅ h₅ => ?_
  · refine Spans.bind_const (Spans.skipBits rfl) fun _ => ?_
    exact Spans.bind (Spans.readBits (Q := fun _ m => m = 7) fun _ => rfl) fun _ m hm =>
      Spans.readBytes fun bytes hlen => by omega
  refine Spans.pure ?_
  simp only [PesExtension.size]
  omega

namespace PesOptionalHeader

/-- The fields decoder reads exactly the fields it finds announced, `minDataLength` bytes of
the value it returns, and keeps the header data length it was given. -/
theorem spans_fields (base : PesOptionalHeader) (timestampFlags : Nat)
    (escrFlag rateFlag trickFlag copyFlag crcFlag extFlag : Bool) :
    Spans (base.fields timestampFlags escrFlag rateFlag trickFlag copyFlag crcFlag extFlag)
      fun o n => n = 8 * o.minDataLength ∧ o.headerDataLength = base.headerDataLength := by
  have hstamp : Spans (do skipBits 4; readTimestamp) fun _ m => m = 8 * 5 :=
    Spans.bind_const (Spans.skipBits rfl) fun _ => spans_readTimestamp.mono fun _ _ h => by omega
  unfold fields
  refine Spans.bind (Spans.readIf_size hstamp) fun pts n₁ h₁ => ?_
  refine Spans.bind (Spans.readIf_size hstamp) fun dts n₂ h₂ => ?_
  refine Spans.bind (Spans.readIf_size (s := fun _ => 6) ?_) fun escr n₃ h₃ => ?_
  · refine Spans.bind_const (Spans.skipBits rfl) fun _ => ?_
    refine Spans.bind_const spans_readTimestamp fun _ => ?_
    refine Spans.bind_const (Spans.readBits fun _ => rfl) fun _ => ?_
    exact Spans.bind_const (Spans.skipBits rfl) fun _ => Spans.pure rfl
  refine Spans.bind (Spans.readIf_size (s := fun _ => 3) ?_) fun esRate n₄ h₄ => ?_
  · refine Spans.bind_const (Spans.skipBits rfl) fun _ => ?_
    refine Spans.bind_const (Spans.readBits fun _ => rfl) fun _ => ?_
    exact Spans.bind_const (Spans.skipBits rfl) fun _ => Spans.pure rfl
  refine Spans.bind (Spans.readIf_size (s := fun _ => 1)
    (Spans.readBits fun _ => rfl)) fun trickMode n₅ h₅ => ?_
  refine Spans.bind (Spans.readIf_size (s := fun _ => 1)
    (Spans.bind_const (Spans.skipBits rfl) fun _ => Spans.readBits fun _ => rfl))
    fun additionalCopyInfo n₆ h₆ => ?_
  refine Spans.bind (Spans.readIf_size (s := fun _ => 2)
    (Spans.readBits fun _ => rfl)) fun previousCrc n₇ h₇ => ?_
  refine Spans.bind (Spans.readIf_size PesExtension.spans_read) fun extension n₈ h₈ => ?_
  refine Spans.pure ⟨?_, rfl⟩
  simp only [minDataLength]
  omega

/-- The optional header decoder reads three bytes of flags and length, then the header data
block, whose fields fit inside it. -/
theorem spans_read : Spans PesOptionalHeader.read fun o n =>
    n = 8 * (3 + o.headerDataLength) ∧ o.minDataLength ≤ o.headerDataLength := by
  unfold PesOptionalHeader.read
  refine Spans.bind_const (Spans.readBits fun _ => rfl) fun _ => ?_
  refine Spans.ite (fun _ => Spans.throw_bind) fun _ => ?_
  refine Spans.bind_const (Spans.readBits fun _ => rfl) fun _ => ?_
  refine Spans.bind_const (Spans.readFlag fun _ => rfl) fun _ => ?_
  refine Spans.bind_const (Spans.readFlag fun _ => rfl) fun _ => ?_
  refine Spans.bind_const (Spans.readFlag fun _ => rfl) fun _ => ?_
  refine Spans.bind_const (Spans.readFlag fun _ => rfl) fun _ => ?_
  refine Spans.bind_const (Spans.readBits fun _ => rfl) fun _ => ?_
  refine Spans.bind_const (Spans.readFlag fun _ => rfl) fun _ => ?_
  refine Spans.bind_const (Spans.readFlag fun _ => rfl) fun _ => ?_
  refine Spans.bind_const (Spans.readFlag fun _ => rfl) fun _ => ?_
  refine Spans.bind_const (Spans.readFlag fun _ => rfl) fun _ => ?_
  refine Spans.bind_const (Spans.readFlag fun _ => rfl) fun _ => ?_
  refine Spans.bind_const (Spans.readFlag fun _ => rfl) fun _ => ?_
  refine Spans.bind_const (Spans.readBits fun _ => rfl) fun headerDataLength => ?_
  refine Spans.ite (fun _ => Spans.throw_bind) fun _ => ?_
  -- the fields are read inside a block of the declared length
  refine (Spans.within (spans_fields _ _ _ _ _ _ _ _)).mono fun o m ⟨hm, j, hj, hjo, hhdl⟩ => ?_
  simp only at hhdl
  rw [hhdl]
  omega

end PesOptionalHeader

/-- The header decoder reads the six fixed bytes and, for the stream IDs that carry one, the
optional header: `headerLen` bytes in all. -/
theorem PesHeader.spans_read : Spans PesHeader.read fun h n =>
    n = 8 * h.headerLen ∧ ∀ o, h.optional = some o → o.minDataLength ≤ o.headerDataLength := by
  unfold PesHeader.read
  refine Spans.bind_const (Spans.readBits fun _ => rfl) fun _ => ?_
  refine Spans.ite (fun _ => Spans.throw_bind) fun _ => ?_
  refine Spans.bind_const (Spans.readBits fun _ => rfl) fun _ => ?_
  refine Spans.bind_const (Spans.readBits fun _ => rfl) fun _ => ?_
  refine Spans.bind (Spans.readIf (Q := fun x n => n = optionSize (fun o => 8 * (3 + o.dataLength)) x ∧
    ∀ o, x = some o → o.minDataLength ≤ o.headerDataLength)
    (PesOptionalHeader.spans_read.mono fun o n ⟨hn, hmin⟩ => ?_) ⟨rfl, fun _ h => by cases h⟩)
    fun optional n ⟨hn, hmin⟩ => Spans.pure ⟨?_, hmin⟩
  · refine ⟨?_, fun o' h => by cases h; exact hmin⟩
    simp only [optionSize, PesOptionalHeader.dataLength]
    omega
  · cases optional <;> simp [headerLen, optionSize, fixedLen] at hn ⊢ <;> omega

/-- A PES packet that decodes had its header read to the byte that `headerLen` names. An
optional header's fields fit in its declared header data block, so `headerLen` is the nine
bytes up to the length byte and that block; the decoder stops after `headerLen` bytes,
which are there; the payload is everything after them; and the payload length the header
declares is `PES_packet_length` less the header bytes the decoder read after the length
field. -/
theorem PesPacket.parse_consumes_headerLen {d : List UInt8} {pes : PesPacket}
    (hp : PesPacket.parse d = .ok pes) :
    (∀ o, pes.header.optional = some o → o.minDataLength ≤ o.headerDataLength ∧
      pes.header.headerLen = PesHeader.fixedLen + 3 + o.headerDataLength) ∧
    PesHeader.read.run (BitCursor.ofBytes d) =
      .ok pes.header (atBit d (8 * pes.header.headerLen)) ∧
    pes.header.headerLen ≤ d.length ∧ pes.payload = d.drop pes.header.headerLen ∧
    ∀ n, pes.header.declaredPayloadLen = .ok n ↔
      d.length - pes.payload.length - PesHeader.fixedLen ≤ pes.header.packetLength ∧
        n = pes.header.packetLength - (d.length - pes.payload.length - PesHeader.fixedLen) := by
  unfold PesPacket.parse at hp
  split at hp
  · cases hp
  rename_i header c hread
  cases hp
  dsimp only
  obtain ⟨n, rfl, hn, hlen, hmin⟩ := PesHeader.spans_read d 0 header c (Nat.zero_le _) hread
  have hfit : header.headerLen ≤ d.length := by omega
  -- the bytes the decoder read are the ones before the payload
  have hread_len : d.length - (d.drop header.headerLen).length = header.headerLen := by
    rw [List.length_drop]
    omega
  have hpos : (atBit d (0 + n)).position = header.headerLen := by
    rw [position_atBit]
    omega
  refine ⟨fun o ho => ⟨hmin o ho, ?_⟩, ?_, hfit, by rw [hpos], fun m => ?_⟩
  · have hdata : o.dataLength = o.headerDataLength := Nat.max_eq_left (hmin o ho)
    simp only [PesHeader.headerLen, ho, hdata]
  · rw [Nat.zero_add, hlen] at hread
    exact hread
  · rw [hpos, hread_len]
    dsimp only [PesHeader.declaredPayloadLen]
    split
    · rename_i hle
      simp only [Except.ok.injEq]
      omega
    · rename_i hgt
      simp only [reduceCtorEq, false_iff, not_and]
      intro hle
      exact absurd hle hgt

/-- A video PES packet whose header holds a PTS and three bytes of stuffing, and two payload
bytes. -/
def stuffedPtsPacket : List UInt8 :=
  [0x00, 0x00, 0x01, 0xE0, 0x00, 0x0D, 0x80, 0x80, 0x08, 0x21, 0x00, 0x01, 0x00, 0x01, 0xFF,
    0xFF, 0xFF, 0xAA, 0xBB]

/-- The header `stuffedPtsPacket` decodes to. -/
def stuffedPtsHeader : PesHeader :=
  { streamId := 0xE0, packetLength := 13, optional := some { pts := some 0, headerDataLength := 8 } }

theorem parse_consumes_headerLen_stuffedPts :
    PesPacket.parse stuffedPtsPacket = .ok ⟨stuffedPtsHeader, [0xAA, 0xBB]⟩ ∧
      ((∀ o, stuffedPtsHeader.optional = some o → o.minDataLength ≤ o.headerDataLength ∧
        stuffedPtsHeader.headerLen = PesHeader.fixedLen + 3 + o.headerDataLength) ∧
      PesHeader.read.run (BitCursor.ofBytes stuffedPtsPacket) =
        .ok stuffedPtsHeader (atBit stuffedPtsPacket (8 * stuffedPtsHeader.headerLen)) ∧
      stuffedPtsHeader.headerLen ≤ stuffedPtsPacket.length ∧
      [0xAA, 0xBB] = stuffedPtsPacket.drop stuffedPtsHeader.headerLen ∧
      ∀ n, stuffedPtsHeader.declaredPayloadLen = .ok n ↔
        stuffedPtsPacket.length - [0xAA, 0xBB].length - PesHeader.fixedLen ≤
            stuffedPtsHeader.packetLength ∧
          n = stuffedPtsHeader.packetLength -
            (stuffedPtsPacket.length - [0xAA, 0xBB].length - PesHeader.fixedLen)) :=
  have hparse : PesPacket.parse stuffedPtsPacket = .ok ⟨stuffedPtsHeader, [0xAA, 0xBB]⟩ := by rfl
  ⟨hparse, PesPacket.parse_consumes_headerLen hparse⟩

/-! ## What the encoder writes -/

/-- The byte whose bits stand at a whole byte offset of a byte string's bits. -/
theorem getElem?_of_bitsOf {bytes : List UInt8} {pre rest : List Bool} {v : Nat}
    (h : bitsOf bytes = pre ++ natBits 8 v ++ rest) (hpre : pre.length % 8 = 0) :
    bytes[pre.length / 8]? = some (UInt8.ofNat v) := by
  have hdrop : bitsOf (bytes.drop (pre.length / 8)) = natBits 8 v ++ rest := by
    rw [bitsOf_drop, h, List.append_assoc, List.drop_left' (by omega)]
  -- the eight bits of a byte spell the byte of their number, whatever lies above them
  have hv : byteBits (UInt8.ofNat v) = natBits 8 v := by
    have hlow := natBits_natOfBits (natBits 8 v)
    rw [length_natBits, natOfBits_natBits] at hlow
    rw [byteBits_eq_natBits, UInt8.toNat_ofNat', hlow]
  cases hb : bytes.drop (pre.length / 8) with
  | nil =>
    rw [hb] at hdrop
    have hlen := congrArg List.length hdrop
    simp only [bitsOf_nil, List.length_nil, List.length_append, length_natBits] at hlen
    omega
  | cons b t =>
    rw [hb, bitsOf_cons] at hdrop
    have hbyte : byteBits b = natBits 8 v :=
      (List.append_inj hdrop (by rw [length_byteBits, length_natBits])).1
    rw [← Nat.add_zero (pre.length / 8), ← List.getElem?_drop, hb, List.getElem?_cons_zero,
      byteBits_injective (hbyte.trans hv.symm)]

namespace PesOptionalHeader

/-- The header data bytes of a DTS that comes without a PTS: `minDataLength` counts them, and
the encoder does not write them. -/
def unwrittenLength (o : PesOptionalHeader) : Nat :=
  match o.pts, o.dts with
  | none, some _ => 5
  | _, _ => 0

theorem minDataLength_writtenDts (o : PesOptionalHeader) :
    { o with dts := o.writtenDts }.minDataLength + o.unwrittenLength = o.minDataLength := by
  cases hp : o.pts <;> cases hd : o.dts <;>
    simp only [minDataLength, writtenDts, unwrittenLength, optionSize, hp, hd] <;> omega

/-- The encoder writes the three bytes up to the length byte, then the header data block less
the bytes of a DTS that it leaves out. -/
theorem length_bits_add {o : PesOptionalHeader}
    (hpd : ∀ e, o.extension = some e → ∀ d, e.privateData = some d → d.length = 16) :
    o.bits.length + 8 * o.unwrittenLength = 8 * (3 + o.dataLength) := by
  have hmin : o.minDataLength ≤ o.dataLength := Nat.le_max_right _ _
  have hfields := @length_fieldBits { o with dts := o.writtenDts } hpd
  have hwritten := minDataLength_writtenDts o
  rw [bits_eq_written]
  simp only [List.length_append, List.length_cons, List.length_nil, length_natBits, hfields,
    length_stuffing]
  omega

end PesOptionalHeader

namespace PesHeader

variable {h : PesHeader} {o : PesOptionalHeader}

/-- A written header with an optional header is `headerLen` bytes long, less those of a DTS
that the encoder leaves out. -/
theorem length_bits_add (ho : h.optional = some o)
    (hpd : ∀ e, o.extension = some e → ∀ d, e.privateData = some d → d.length = 16) :
    h.bits.length + 8 * o.unwrittenLength = 8 * h.headerLen := by
  have hopt := PesOptionalHeader.length_bits_add hpd
  rw [bits_eq]
  simp only [List.length_append, length_natBits, ho, optionBits, headerLen, fixedLen]
  omega

/-- The ninth byte of a written header with an optional header is `PES_header_data_length`:
eight bytes of start code, stream ID, packet length and flags come before it. -/
theorem bits_lengthByte (ho : h.optional = some o) :
    ∃ pre rest, h.bits = pre ++ natBits 8 o.dataLength ++ rest ∧ pre.length = 64 := by
  refine ⟨natBits 24 startCode ++ natBits 8 h.streamId ++ natBits 16 h.packetLength ++
    natBits 2 2 ++ natBits 2 o.scrambling ++
    [o.priority, o.dataAlignment, o.copyright, o.uncopied] ++ natBits 2 o.timestampFlags ++
    [o.escr.isSome, o.esRate.isSome, o.trickMode.isSome, o.additionalCopyInfo.isSome,
      o.previousCrc.isSome, o.extension.isSome],
    { o with dts := o.writtenDts }.fieldBits ++
      (List.replicate (o.dataLength - o.minDataLength) (natBits 8 0xFF)).flatten, ?_, by simp⟩
  rw [bits_eq, ho, optionBits, PesOptionalHeader.bits_eq_written]
  simp only [List.append_assoc]

end PesHeader

/-- What the encoder writes for a header with an optional header, its private data the
sixteen bytes of its field: the header bytes, then the payload. The header is `headerLen`
bytes less those of a DTS without a PTS, which `minDataLength` counts and the encoder leaves
out, and its ninth byte, `PES_header_data_length`, holds the header data length modulo 256.
So the written header is as long as `headerLen` says and its length byte counts the bytes
after it exactly when every DTS comes with a PTS and the header data length fits one byte. -/
theorem PesPacket.write_header_layout (h : PesHeader) (o : PesOptionalHeader)
    (ho : h.optional = some o)
    (hpd : ∀ e, o.extension = some e → ∀ d, e.privateData = some d → d.length = 16)
    (x : List UInt8) :
    ∃ hdr, PesPacket.write h x = hdr ++ x ∧ hdr.length + o.unwrittenLength = h.headerLen ∧
      hdr[8]? = some (UInt8.ofNat o.dataLength) ∧
      (hdr.length = h.headerLen ∧ hdr[8]?.map UInt8.toNat = some (hdr.length - 9) ↔
        o.unwrittenLength = 0 ∧ o.dataLength < 256) := by
  have hlen := PesHeader.length_bits_add ho hpd
  have h8 : h.bits.length % 8 = 0 := by omega
  have hhdr : (packBits h.bits).length = h.bits.length / 8 := length_packBits h8
  have hheader : h.headerLen = PesHeader.fixedLen + 3 + o.dataLength := by
    simp only [PesHeader.headerLen, ho]
  have hunwritten : o.unwrittenLength = 0 ∨ o.unwrittenLength = 5 := by
    unfold PesOptionalHeader.unwrittenLength
    split
    · exact Or.inr rfl
    · exact Or.inl rfl
  -- the length byte, eight bytes into the header
  have hbyte : (packBits h.bits)[8]? = some (UInt8.ofNat o.dataLength) := by
    obtain ⟨pre, rest, hbits, hpre⟩ := PesHeader.bits_lengthByte ho
    have hget : (packBits h.bits)[pre.length / 8]? = some (UInt8.ofNat o.dataLength) :=
      getElem?_of_bitsOf (by rw [bitsOf_packBits h8, hbits]) (by rw [hpre])
    rwa [hpre] at hget
  refine ⟨packBits h.bits, ?_, by omega, hbyte, ?_⟩
  · apply bitsOf_inj
    rw [PesPacket.write, bitsOf_packBits (by rw [List.length_append, length_bitsOf]; omega),
      bitsOf_append, bitsOf_packBits h8]
  · rw [hbyte, Option.map_some, Option.some.injEq, UInt8.toNat_ofNat']
    simp only [PesHeader.fixedLen] at hheader
    omega

/-- The optional header of `loneDtsHeader`: a DTS and no PTS. -/
def loneDtsOptional : PesOptionalHeader := { dts := some 1000 }

/-- A video PES header whose optional header has a DTS and no PTS. -/
def loneDtsHeader : PesHeader := { streamId := 0xE0, optional := some loneDtsOptional }

theorem write_header_layout_loneDts :
    loneDtsHeader.optional = some loneDtsOptional ∧
      (∀ e, loneDtsOptional.extension = some e → ∀ d, e.privateData = some d → d.length = 16) ∧
      ∃ hdr, PesPacket.write loneDtsHeader [0xAA] = hdr ++ [0xAA] ∧
        hdr.length + loneDtsOptional.unwrittenLength = loneDtsHeader.headerLen ∧
        hdr[8]? = some (UInt8.ofNat loneDtsOptional.dataLength) ∧
        (hdr.length = loneDtsHeader.headerLen ∧
            hdr[8]?.map UInt8.toNat = some (hdr.length - 9) ↔
          loneDtsOptional.unwrittenLength = 0 ∧ loneDtsOptional.dataLength < 256) :=
  ⟨rfl, fun _ he => (by cases he),
    PesPacket.write_header_layout loneDtsHeader loneDtsOptional rfl (fun _ he => (by cases he))
      [0xAA]⟩

/-- A header with a DTS and no PTS is written short: its header data length byte says five,
no byte of header data follows it, and the packet is ten bytes where `headerLen` and the
payload make fifteen. -/
theorem write_loneDts_short :
    PesPacket.write loneDtsHeader [0xAA] = [0x00, 0x00, 0x01, 0xE0, 0x00, 0x00, 0x80, 0x00, 0x05, 0xAA] ∧
      loneDtsHeader.headerLen = 14 := by
  decide

end MpegTs
