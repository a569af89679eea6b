import MpegTs.Proofs.ExpGolomb

/-!
# Writer and cursor agree at every alignment

A `BitWriter` appends fields of fixed width, flags, whole bytes, stuffing and timestamps,
each at whatever bit offset the writes before it left. This module reads them back with the
cursor's matching reads and shows that the two agree:

* `BitWriter.Write`: a write as data, `BitWriter.write` makes it, `Write.code` is the bit
  string it appends and `Write.width` its length read off its arguments;
* `Write.read o`: the read that matches a write started at bit offset `o`: `readBits n` for
  `writeBits n`, `readFlag`, `readU8` … `readU32`, `readBytes` on a byte boundary and one
  `readU8` per byte off it (as the writer writes them there), one `readU8` per stuffing byte,
  a four-bit read then `readTimestamp` for a prefixed time, `readTimestamp` for a marked one;
* `Write.field`: what that read returns, the value written reduced to its field's width;
* `Write.reads_read`, `reads_readBack`: one read, and the reads of a whole sequence, read
  their writes back wherever they stand;
* `writer_reader_agree`: after every sequence of writes the writer counts the bits written
  rounded up to bytes, its bytes are those bits padded with zero bits, and the matching
  reads return every field.
-/

namespace MpegTs

open BitCursor BitRead

namespace BitWriter

/-- One write of a `BitWriter`, with its arguments. -/
inductive Write where
  | bits (n v : Nat)
  | flag (b : Bool)
  | u8 (v : Nat)
  | u16 (v : Nat)
  | u32 (v : Nat)
  | bytes (bs : List UInt8)
  | stuffing (byte count : Nat)
  | timestamp (pfx t : Nat)
  | markedTimestamp (t : Nat)
  deriving Repr, DecidableEq

/-- What a read of the cursor returns. -/
inductive Field where
  | num (v : Nat)
  | flag (b : Bool)
  | bytes (bs : List UInt8)
  | nums (vs : List Nat)
  | stamped (pfx t : Nat)
  deriving Repr, DecidableEq

/-- Makes one write. -/
def write (w : BitWriter) : Write → BitWriter
  | .bits n v => w.writeBits n v
  | .flag b => w.writeFlag b
  | .u8 v => w.writeU8 v
  | .u16 v => w.writeU16 v
  | .u32 v => w.writeU32 v
  | .bytes bs => w.writeBytes bs
  | .stuffing byte count => w.writeStuffing byte count
  | .timestamp pfx t => w.writeTimestamp pfx t
  | .markedTimestamp t => w.writeMarkedTimestamp t

namespace Write

/-- The bits a write appends. -/
def code : Write → List Bool
  | bits n v => natBits n v
  | flag b => [b]
  | u8 v => natBits 8 v
  | u16 v => natBits 16 v
  | u32 v => natBits 32 v
  | bytes bs => bitsOf bs
  | stuffing byte count => (List.replicate count (natBits 8 byte)).flatten
  | timestamp pfx t => timestampBits pfx t
  | markedTimestamp t => markedTimestampBits t

/-- How many bits a write appends, read off its arguments. -/
def width : Write → Nat
  | bits n _ => n
  | flag _ => 1
  | u8 _ => 8
  | u16 _ => 16
  | u32 _ => 32
  | bytes bs => 8 * bs.length
  | stuffing _ count => 8 * count
  | timestamp _ _ => 40
  | markedTimestamp _ => 36

/-- The field a write leaves, as its matching read returns it: each value reduced to the
width of its field, and times to 33 bits. -/
def field : Write → Field
  | bits n v => .num (v % 2 ^ n)
  | flag b => .flag b
  | u8 v => .num (v % 2 ^ 8)
  | u16 v => .num (v % 2 ^ 16)
  | u32 v => .num (v % 2 ^ 32)
  | bytes bs => .bytes bs
  | stuffing byte count => .nums (List.replicate count (byte % 2 ^ 8))
  | timestamp pfx t => .stamped (pfx % 2 ^ 4) (t % 2 ^ 33)
  | markedTimestamp t => .num (t % 2 ^ 33)

/-- The read that matches a write started at bit offset `o`. -/
def read (o : Nat) : Write → BitRead Field
  | bits n _ => Field.num <$> readBits n
  | flag _ => Field.flag <$> readFlag
  | u8 _ => Field.num <$> readU8
  | u16 _ => Field.num <$> readU16
  | u32 _ => Field.num <$> readU32
  | bytes bs =>
    if o % 8 = 0 then Field.bytes <$> readBytes bs.length
    else (fun vs => Field.bytes (vs.map UInt8.ofNat)) <$> readMany readU8 bs.length
  | stuffing _ count => Field.nums <$> readMany readU8 count
  | timestamp _ _ => do
    let pfx ← readBits 4
    let t ← readTimestamp
    return .stamped pfx t
  | markedTimestamp _ => Field.num <$> readTimestamp

end Write

/-- The matching reads of a sequence of writes that starts at bit offset `o`, in order. -/
def readBack : Nat → List Write → BitRead (List Field)
  | _, [] => pure []
  | o, x :: xs => do
    let f ← x.read o
    let fs ← readBack (o + x.width) xs
    return f :: fs

/-- The bits a sequence of writes appends, counted from their widths. -/
def bitsWritten : List Write → Nat
  | [] => 0
  | x :: xs => x.width + bitsWritten xs

/-! ## Writing -/

@[simp] theorem write_eq_append (w : BitWriter) (x : Write) : w.write x = w.append x.code := by
  cases x <;> rfl

theorem length_stuffingBits (byte count : Nat) :
    (List.replicate count (natBits 8 byte)).flatten.length = 8 * count := by
  induction count with
  | zero => rfl
  | succ count ih =>
    rw [List.replicate_succ, List.flatten_cons, List.length_append, ih, length_natBits]
    omega

@[simp] theorem Write.length_code (x : Write) : x.code.length = x.width := by
  cases x with
  | bits n v => exact length_natBits n v
  | flag b => rfl
  | u8 v => exact length_natBits 8 v
  | u16 v => exact length_natBits 16 v
  | u32 v => exact length_natBits 32 v
  | bytes bs => exact length_bitsOf bs
  | stuffing byte count => exact length_stuffingBits byte count
  | timestamp pfx t => simp [code, width, timestampBits, markedTimestampBits]
  | markedTimestamp t => simp [code, width, markedTimestampBits]

theorem length_codes : ∀ xs : List Write, (xs.map Write.code).flatten.length = bitsWritten xs
  | [] => rfl
  | x :: xs => by
    rw [List.map_cons, List.flatten_cons, List.length_append, Write.length_code, length_codes xs,
      bitsWritten]

/-- The writer holds the codes of its writes, in order. -/
theorem bits_foldl_write (w : BitWriter) (xs : List Write) :
    (xs.foldl write w).bits.toList = w.bits.toList ++ (xs.map Write.code).flatten :=
  toList_bits_foldl write_eq_append xs w

/-- Packing bits into bytes takes the bits rounded up to whole bytes. -/
theorem length_packBits_ceil (bs : List Bool) : (packBits bs).length = (bs.length + 7) / 8 := by
  have hlen := congrArg List.length (bitsOf_packBits_pad bs)
  rw [length_bitsOf, List.length_append, List.length_replicate] at hlen
  omega

/-! ## Reading back -/

/-- The matching read of a write reads it back, at any offset, when a run of whole bytes is
short enough for the cursor to skip its bits. -/
theorem Write.reads_read (o : Nat) (x : Write)
    (hx : ∀ bs, x = .bytes bs → 8 * bs.length < 0x100000000) :
    Reads o (x.read o) x.code x.field := by
  cases x with
  | bits n v => exact Reads.map Field.num (Reads.bits_mod n v)
  | flag b => exact Reads.map Field.flag (Reads.flag b)
  | u8 v => exact Reads.map Field.num (Reads.bits_mod 8 v)
  | u16 v => exact Reads.map Field.num (Reads.bits_mod 16 v)
  | u32 v => exact Reads.map Field.num (Reads.bits_mod 32 v)
  | bytes bs =>
    by_cases ho : o % 8 = 0
    · simp only [read, if_pos ho]
      exact Reads.map Field.bytes (Reads.bytes ho bs (hx bs rfl))
    · -- off a byte boundary each byte is an eight-bit field of its own
      have hcodes : ((bs.map UInt8.toNat).map (natBits 8)).flatten = bitsOf bs := by
        rw [List.map_map, bitsOf, List.flatMap_def]
        rfl
      have hmany := Reads.many (r := readU8) (bs.map UInt8.toNat)
        (fun v hv _ => Reads.u8 (by
          obtain ⟨b, -, rfl⟩ := List.mem_map.1 hv
          exact b.toNat_lt)) o
      rw [hcodes, List.length_map] at hmany
      have hread := Reads.map (fun vs => Field.bytes (vs.map UInt8.ofNat)) hmany
      simp only [List.map_map, Function.comp_def, UInt8.ofNat_toNat, List.map_id'] at hread
      simp only [read, if_neg ho]
      exact hread
  | stuffing byte count =>
    have hcodes : ((List.replicate count (byte % 2 ^ 8)).map (natBits 8)).flatten =
        (List.replicate count (natBits 8 byte)).flatten := by
      rw [List.map_replicate, natBits_mod_two_pow]
    have hmany := Reads.many (r := readU8) (List.replicate count (byte % 2 ^ 8))
      (fun v hv _ => Reads.u8 (by
        rw [List.eq_of_mem_replicate hv]
        exact Nat.mod_lt _ (by decide))) o
    rw [hcodes, List.length_replicate] at hmany
    exact Reads.map Field.nums hmany
  | timestamp pfx t =>
    exact Reads.bind (Reads.bits_mod 4 pfx) (Reads.bind_last (Reads.timestamp_mod t) rfl)
  | markedTimestamp t => exact Reads.map Field.num (Reads.timestamp_mod t)

/-- The run lemma: the matching reads of a sequence of writes read their codes back in a row. -/
theorem reads_readBack :
    ∀ (o : Nat) (xs : List Write), (∀ bs, Write.bytes bs ∈ xs → 8 * bs.length < 0x100000000) →
      Reads o (readBack o xs) (xs.map Write.code).flatten (xs.map Write.field)
  | _, [], _ => Reads.pure []
  | o, x :: xs, hxs => by
    -- the rest is read from where this write's code ends
    have hrest : Reads (o + x.code.length) (readBack (o + x.width) xs) (xs.map Write.code).flatten
        (xs.map Write.field) :=
      Reads.of_mod (by rw [Write.length_code])
        (reads_readBack (o + x.width) xs fun bs hb => hxs bs (List.mem_cons_of_mem x hb))
    have hx : Reads o (x.read o) x.code x.field :=
      x.reads_read o fun bs hb => hxs bs (hb ▸ List.mem_cons_self)
    rw [List.map_cons, List.flatten_cons, List.map_cons]
    exact Reads.bind hx (Reads.bind_last hrest rfl)

/-- Writer and cursor agree. After any sequence of writes from a fresh writer (fields of any
width up to their values' low bits, flags, bytes at any offset, stuffing, prefixed and marked
timestamps), the writer counts the bits written, rounded up to whole bytes; its bytes are
that many, holding the codes of the writes in order padded with zero bits; and the matching
reads, each started where its write started, return every value reduced to its field's width.
The reads agree with the writes wherever the codes stand, at every bit alignment, provided
each run of whole bytes is fewer than `2^29` bytes: read from a byte boundary, such a run is
skipped by a 32-bit count of its bits. -/
theorem writer_reader_agree (xs : List Write)
    (hbytes : ∀ bs, Write.bytes bs ∈ xs → 8 * bs.length < 0x100000000) :
    (xs.foldl write {}).byteLen = (bitsWritten xs + 7) / 8 ∧
    (xs.foldl write {}).toBytes.length = (xs.foldl write {}).byteLen ∧
    bitsOf (xs.foldl write {}).toBytes =
      (xs.map Write.code).flatten ++ List.replicate ((8 - bitsWritten xs % 8) % 8) false ∧
    (readBack 0 xs).runOn (xs.foldl write {}).toBytes = .ok (xs.map Write.field) ∧
    ∀ o, Reads o (readBack o xs) (xs.map Write.code).flatten (xs.map Write.field) := by
  have hbits : (xs.foldl write {}).bits.toList = (xs.map Write.code).flatten :=
    bits_foldl_write {} xs
  have hsize : (xs.foldl write {}).bits.size = bitsWritten xs := by
    rw [← Array.length_toList, hbits, length_codes]
  have hcode : bitsOf (xs.foldl write {}).toBytes =
      (xs.map Write.code).flatten ++ List.replicate ((8 - bitsWritten xs % 8) % 8) false := by
    rw [toBytes, bitsOf_packBits_pad, hbits, length_codes]
  refine ⟨by rw [byteLen, hsize], ?_, hcode, ?_, fun o => reads_readBack o xs hbytes⟩
  · rw [toBytes, length_packBits_ceil, byteLen, Array.length_toList]
  · unfold runOn
    rw [Reads.run (reads_readBack 0 xs hbytes) hcode]

/-- Three bits, a byte off a byte boundary, a flag, a 16-bit field given too wide a value, a
marked time past 33 bits, and two bytes from a byte boundary. -/
def mixedWrites : List Write :=
  [.bits 3 13, .bytes [0xAB], .flag true, .u16 0x12345, .markedTimestamp (2 ^ 33 + 5),
    .bytes [0xCD, 0xEF]]

theorem writer_reader_agree_mixedWrites :
    (∀ bs, Write.bytes bs ∈ mixedWrites → 8 * bs.length < 0x100000000) ∧
      (readBack 0 mixedWrites).runOn (mixedWrites.foldl write {}).toBytes =
        .ok [.num 5, .bytes [0xAB], .flag true, .num 0x2345, .num 5, .bytes [0xCD, 0xEF]] := by
  have hbytes : ∀ bs, Write.bytes bs ∈ mixedWrites → 8 * bs.length < 0x100000000 := by
    intro bs hb
    simp only [mixedWrites, List.mem_cons, Write.bytes.injEq, reduceCtorEq, List.not_mem_nil,
      false_or, or_false] at hb
    rcases hb with rfl | rfl <;> decide
  exact ⟨hbytes, (writer_reader_agree mixedWrites hbytes).2.2.2.1⟩

end BitWriter

end MpegTs
