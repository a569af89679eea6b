import MpegTs.Bits.Cursor
import MpegTs.Packet.AdaptationField
import MpegTs.Proofs.BitStrings

/-!
# What a reader reads

A reader of `MpegTs.Bits.Cursor` and a bit string that a writer produced fit together when
the reader, started at those bits, returns the written value and stops right after them.
This module states that as `BitRead.Reads o r bs v` and builds it up combinator by
combinator:

* between reads the cursor is `BitCursor.atBit bytes k`: position `k`, and in the window
  the rest of the current byte, as every successful read leaves it;
* `Reads o r bs v`: wherever `bs` stands in a byte string, at a bit offset congruent to `o`
  modulo 8, `r` started there returns `v` and stops right after `bs`;
* `ReadsPrefix o r bs v`: `r` reads `v` off a beginning of `bs`, as the decoder of a
  length-prefixed block does when stuffing follows the fields;
* one lemma per combinator: `Reads.bind` (the run lemma: a reader and its continuation read
  two bit strings one after the other), `Reads.bits`, `Reads.flag`, `Reads.skip`,
  `Reads.bytes`, `Reads.timestamp`, `Reads.optional` (an optional field reads back exactly
  when its flag was written) and `Reads.block` (a block whose fields the inner reader
  reads, stuffing after them);
* `Reads.run`: a reader that reads the front of a byte string's bits, run on a cursor of
  its own.
-/

namespace MpegTs

namespace BitCursor

/-- The cursor `k` bits into `bytes`, with the window a successful read leaves there: the
rest of the current byte. -/
def atBit (bytes : List UInt8) (k : Nat) : BitCursor :=
  { bytes, consumed := k, window := windowAfter k }

theorem ofBytes_eq_atBit (bytes : List UInt8) : ofBytes bytes = atBit bytes 0 := rfl

@[simp] theorem bytes_atBit (bytes : List UInt8) (k : Nat) : (atBit bytes k).bytes = bytes :=
  rfl

@[simp] theorem consumed_atBit (bytes : List UInt8) (k : Nat) : (atBit bytes k).consumed = k :=
  rfl

@[simp] theorem advance_atBit (bytes : List UInt8) (k n : Nat) :
    (atBit bytes k).advance n = atBit bytes (k + n) := rfl

@[simp] theorem position_atBit (bytes : List UInt8) (k : Nat) :
    (atBit bytes k).position = k / 8 := rfl

@[simp] theorem bitsRemaining_atBit (bytes : List UInt8) (k : Nat) :
    (atBit bytes k).bitsRemaining = bytes.length * 8 - k := rfl

@[simp] theorem bytesRemaining_atBit (bytes : List UInt8) (k : Nat) :
    (atBit bytes k).bytesRemaining = bytes.length - k / 8 := rfl

theorem isByteAligned_atBit {bytes : List UInt8} {k : Nat} (h : k % 8 = 0) :
    (atBit bytes k).isByteAligned = true := by
  simp [atBit, isByteAligned, windowAfter, h]

end BitCursor

namespace BitRead

open BitCursor

variable {α β : Type} {o : Nat} {bs rest : List Bool}

/-- `r` reads `v` off the bits `bs`: in any byte string whose bits are `pre ++ bs ++ rest`,
with `pre` as long as `o` modulo 8, `r` started after `pre` returns `v` and stops right
after `bs`. -/
def Reads (o : Nat) (r : BitRead α) (bs : List Bool) (v : α) : Prop :=
  ∀ data pre rest, pre.length % 8 = o % 8 → bitsOf data = pre ++ bs ++ rest →
    r (atBit data pre.length) = .ok v (atBit data (pre.length + bs.length))

/-- `r` reads `v` off a beginning of `bs` and leaves the rest of `bs` unread. -/
def ReadsPrefix (o : Nat) (r : BitRead α) (bs : List Bool) (v : α) : Prop :=
  ∃ used left, bs = used ++ left ∧ Reads o r used v

/-- Only the offset within a byte matters. -/
theorem Reads.of_mod {o' : Nat} {r : BitRead α} {v : α} (h : o % 8 = o' % 8)
    (hr : Reads o r bs v) : Reads o' r bs v :=
  fun data pre rest hk hb => hr data pre rest (hk.trans h.symm) hb

/-- The run lemma of the combinators: a reader followed by its continuation reads the two
bit strings one after the other. -/
theorem Reads.bind {bs₁ bs₂ : List Bool} {x : BitRead α} {f : α → BitRead β} {a : α}
    {b : β}
    (hx : Reads o x bs₁ a) (hf : Reads (o + bs₁.length) (f a) bs₂ b) :
    Reads o (x >>= f) (bs₁ ++ bs₂) b := by
  intro data pre rest hk hb
  have h₁ : x (atBit data pre.length) = .ok a (atBit data (pre.length + bs₁.length)) :=
    hx data pre (bs₂ ++ rest) hk (by simp only [hb, List.append_assoc])
  have h₂ : f a (atBit data (pre.length + bs₁.length)) =
      .ok b (atBit data (pre.length + bs₁.length + bs₂.length)) := by
    have h := hf data (pre ++ bs₁) rest (by rw [List.length_append]; omega)
      (by simp only [hb, List.append_assoc])
    rwa [List.length_append] at h
  show EStateM.bind x f (atBit data pre.length) = _
  simp only [EStateM.bind, h₁, h₂, List.length_append, Nat.add_assoc]

theorem Reads.pure (v : α) : Reads o (Pure.pure v) [] v :=
  fun _ _ _ _ _ => rfl

theorem Reads.pure_of_eq {v w : α} (h : v = w) : Reads o (Pure.pure v) [] w :=
  h ▸ Reads.pure v

/-- The last read of a decoder, whose continuation returns the value built. -/
theorem Reads.bind_last {x : BitRead α} {f : α → BitRead β} {a : α} {w : β}
    (hx : Reads o x bs a) (hf : f a = Pure.pure w) : Reads o (x >>= f) bs w := by
  have h := Reads.bind hx (hf ▸ Reads.pure (o := o + bs.length) w)
  rwa [List.append_nil] at h

theorem Reads.map {r : BitRead α} {a : α} (g : α → β) (h : Reads o r bs a) :
    Reads o (g <$> r) bs (g a) := by
  intro data pre rest hk hb
  show EStateM.map g r (atBit data pre.length) = _
  simp only [EStateM.map, h data pre rest hk hb]

/-- A guard that does not fire passes the read on. -/
theorem Reads.ite_neg {c : Prop} [Decidable c] {t e : BitRead α} {v : α} (hc : ¬c)
    (h : Reads o e bs v) : Reads o (if c then t else e) bs v := by
  rw [if_neg hc]
  exact h

/-! ## Fixed-width fields -/

/-- `n` bits read back as the low `n` bits of the number written. -/
theorem Reads.bits_mod (n v : Nat) : Reads o (readBits n) (natBits n v) (v % 2 ^ n) := by
  intro data pre rest _ hb
  have hlen := congrArg List.length hb
  simp only [length_bitsOf, List.length_append, length_natBits] at hlen
  have hfit : n ≤ (atBit data pre.length).bitsRemaining := by
    rw [bitsRemaining_atBit]
    omega
  have hwin : bitWindow data pre.length n = natBits n v := by
    rw [bitWindow_eq, hb, List.append_assoc, List.drop_left,
      List.take_left' (length_natBits n v)]
  simp only [BitRead.readBits, if_pos hfit, bytes_atBit, consumed_atBit, hwin,
    natOfBits_natBits, advance_atBit, length_natBits]

theorem Reads.bits {n v : Nat} (h : v < 2 ^ n) : Reads o (readBits n) (natBits n v) v := by
  have hr := Reads.bits_mod (o := o) n v
  rwa [Nat.mod_eq_of_lt h] at hr

/-- Any `n` bits read as the number they spell. -/
theorem Reads.bits_natOfBits {n : Nat} (h : bs.length = n) :
    Reads o (readBits n) bs (natOfBits bs) := by
  have hr := Reads.bits (o := o) (natOfBits_lt bs)
  rwa [natBits_natOfBits, h] at hr

theorem Reads.u8 {v : Nat} (h : v < 2 ^ 8) : Reads o readU8 (natBits 8 v) v :=
  Reads.bits h

theorem Reads.u16 {v : Nat} (h : v < 2 ^ 16) : Reads o readU16 (natBits 16 v) v :=
  Reads.bits h

theorem Reads.u24 {v : Nat} (h : v < 2 ^ 24) : Reads o readU24 (natBits 24 v) v :=
  Reads.bits h

/-- A skip over the bits, of fewer than `2^32` of them. -/
theorem Reads.skip {n : Nat} (h : bs.length = n) (hn : n < 0x100000000) :
    Reads o (skipBits n) bs () := by
  intro data pre rest _ hb
  have hlen := congrArg List.length hb
  simp only [length_bitsOf, List.length_append] at hlen
  have hfit : n ≤ (atBit data pre.length).bitsRemaining ∧ n < 0x100000000 := by
    rw [bitsRemaining_atBit]
    omega
  simp only [BitRead.skipBits, if_pos hfit, advance_atBit, h]

theorem Reads.flag (b : Bool) : Reads o readFlag [b] b := by
  cases b
  · exact Reads.bind (Reads.bits (v := 0) (by decide)) (Reads.pure _)
  · exact Reads.bind (Reads.bits (v := 1) (by decide)) (Reads.pure _)

/-- A flag read off the head of the bits, the continuation reading the rest. -/
theorem Reads.flag_bind {f : Bool → BitRead α} {b : Bool} {v : α}
    (hf : Reads (o + 1) (f b) rest v) : Reads o (readFlag >>= f) (b :: rest) v :=
  Reads.bind (Reads.flag b) hf

/-- A one-bit skip over the head of the bits, the continuation reading the rest. -/
theorem Reads.skip_bind {f : Unit → BitRead α} {b : Bool} {v : α}
    (hf : Reads (o + 1) (f ()) rest v) : Reads o (skipBits 1 >>= f) (b :: rest) v :=
  Reads.bind (Reads.skip (rfl : [b].length = 1) (by decide : 1 < 0x100000000)) hf

/-- Whole bytes read back, from a byte boundary, fewer than `2^29` of them so that their bits
can be skipped. -/
theorem Reads.bytes (ho : o % 8 = 0) (ys : List UInt8) (hn : 8 * ys.length < 0x100000000) :
    Reads o (readBytes ys.length) (bitsOf ys) ys := by
  intro data pre rest hk hb
  have hk0 : pre.length % 8 = 0 := by omega
  have hlen := congrArg List.length hb
  simp only [length_bitsOf, List.length_append] at hlen
  have hfit : pre.length / 8 + ys.length ≤ data.length := by omega
  have hys : (data.drop (pre.length / 8)).take ys.length = ys := by
    apply bitsOf_inj
    rw [bitsOf_take, bitsOf_drop, show 8 * (pre.length / 8) = pre.length by omega, hb,
      List.append_assoc, List.drop_left, List.take_left' (by simp)]
  -- the bytes cut out are `ys`, and the skip over their bits goes through
  have hskip := (Reads.skip (o := o) (length_bitsOf ys) hn).map (fun _ => ys) data pre rest hk hb
  simp only [BitRead.readBytes, isByteAligned_atBit hk0, Bool.not_true, Bool.false_eq_true,
    if_false, bytes_atBit, position_atBit, if_pos hfit, hys]
  exact hskip

/-- A marker-split time reads back as its low 33 bits; the markers are skipped unread. -/
theorem Reads.timestamp_mod (t : Nat) :
    Reads o readTimestamp (markedTimestampBits t) (t % 2 ^ 33) := by
  unfold readTimestamp markedTimestampBits
  simp only [List.append_assoc, List.singleton_append]
  refine Reads.bind (Reads.bits_mod 3 _) (Reads.skip_bind ?_)
  refine Reads.bind (Reads.bits_mod 15 _) (Reads.skip_bind ?_)
  refine Reads.bind (Reads.bits_mod 15 _) (Reads.skip_bind (Reads.pure_of_eq ?_))
  -- the three pieces put back together
  simp only [Nat.shiftRight_eq_div_pow, Nat.shiftLeft_eq]
  omega

/-- A marker-split 33-bit time reads back. -/
theorem Reads.timestamp {t : Nat} (h : t < 2 ^ 33) :
    Reads o readTimestamp (markedTimestampBits t) t := by
  have hr := Reads.timestamp_mod (o := o) t
  rwa [Nat.mod_eq_of_lt h] at hr

/-- A time after a four-bit prefix, which the reader skips. -/
theorem Reads.prefixedTimestamp {pfx t : Nat} (h : t < 2 ^ 33) :
    Reads o (skipBits 4 >>= fun _ => readTimestamp) (timestampBits pfx t) t :=
  Reads.bind (Reads.skip (length_natBits 4 pfx) (by decide)) (Reads.timestamp h)

/-! ## Optional fields -/

/-- An optional field reads back as written: when its flag is set the field's reader reads
it, otherwise nothing is read and the field is absent. -/
theorem Reads.optional_map {r : BitRead β} {f : α → List Bool} {g : α → β} (x : Option α)
    (hr : ∀ a, x = some a → Reads o r (f a) (g a)) :
    Reads o (readIf x.isSome r) (optionBits f x) (x.map g) := by
  cases x with
  | none => exact Reads.pure none
  | some a => exact Reads.map some (hr a rfl)

theorem Reads.optional {r : BitRead α} {f : α → List Bool} (x : Option α)
    (hr : ∀ a, x = some a → Reads o r (f a) a) :
    Reads o (readIf x.isSome r) (optionBits f x) x := by
  have h := Reads.optional_map (g := id) x hr
  rwa [Option.map_id] at h

theorem length_optionBits_mod {f : α → List Bool} (x : Option α)
    (h : ∀ a, x = some a → (f a).length % 8 = 0) : (optionBits f x).length % 8 = 0 := by
  cases x with
  | none => rfl
  | some a => exact h a rfl

/-- An optional field of whole bytes, the continuation reading what follows it. -/
theorem Reads.optional_bind {r : BitRead α} {f : α → List Bool} {g : Option α → BitRead β}
    {v : β} (x : Option α) (hr : ∀ a, x = some a → Reads o r (f a) a ∧ (f a).length % 8 = 0)
    (hg : Reads o (g x) rest v) :
    Reads o (readIf x.isSome r >>= g) (optionBits f x ++ rest) v := by
  refine Reads.bind (Reads.optional x fun a ha => (hr a ha).1) (Reads.of_mod ?_ hg)
  have := length_optionBits_mod x fun a ha => (hr a ha).2
  omega

/-- A decoder that asks how many bytes remain, for a read that fits in them. -/
theorem Reads.remaining_bind {f : Nat → BitRead α} {v : α}
    (hf : ∀ n, bs.length ≤ 8 * n → Reads o (f n) bs v) :
    Reads o (get >>= fun c => f c.bytesRemaining) bs v := by
  intro data pre rest hk hb
  have hlen := congrArg List.length hb
  simp only [length_bitsOf, List.length_append] at hlen
  -- the decoder is handed the bytes from the cursor's byte to the end
  exact hf (atBit data pre.length).bytesRemaining (by rw [bytesRemaining_atBit]; omega) data pre
    rest hk hb

/-! ## Blocks with stuffing -/

theorem ReadsPrefix.of_append {r : BitRead α} {v : α} (h : Reads o r bs v) (left : List Bool) :
    ReadsPrefix o r (bs ++ left) v :=
  ⟨bs, left, rfl, h⟩

theorem ReadsPrefix.of_reads {r : BitRead α} {v : α} (h : Reads o r bs v) :
    ReadsPrefix o r bs v :=
  ⟨bs, [], (List.append_nil bs).symm, h⟩

/-- A block of `n` bytes, from a byte boundary, whose beginning the inner reader reads. -/
theorem Reads.block {r : BitRead α} {v : α} {n : Nat} (ho : o % 8 = 0)
    (hlen : bs.length = 8 * n) (hsmall : 8 * n < 0x100000000) (hr : ReadsPrefix 0 r bs v) :
    Reads o (within n r) bs v := by
  intro data pre rest hk hb
  obtain ⟨used, left, rfl, hu⟩ := hr
  have hk0 : pre.length % 8 = 0 := by omega
  -- the bytes of the block, as the reader cuts them out
  have hblock : bitsOf ((data.drop (pre.length / 8)).take n) = used ++ left := by
    rw [bitsOf_take, bitsOf_drop, show 8 * (pre.length / 8) = pre.length by omega, hb,
      List.append_assoc, List.drop_left, ← hlen, List.take_left' rfl]
  have hn : ((data.drop (pre.length / 8)).take n).length = n := by
    have h := congrArg List.length hblock
    rw [length_bitsOf, hlen] at h
    omega
  have hread := Reads.bytes ho ((data.drop (pre.length / 8)).take n) (by rw [hn]; exact hsmall)
    data pre rest hk (by rw [hb, hblock])
  have hinner : r (atBit ((data.drop (pre.length / 8)).take n) 0) =
      .ok v (atBit ((data.drop (pre.length / 8)).take n) used.length) := by
    have h := hu _ [] left rfl (by rw [hblock]; rfl)
    simpa only [List.length_nil, Nat.zero_add] using h
  rw [hn, hblock] at hread
  show EStateM.bind (readBytes n) _ (atBit data pre.length) = _
  simp only [EStateM.bind, hread, runOn, EStateM.run, ofBytes_eq_atBit, hinner,
    MonadExcept.ofExcept]
  rfl

/-- A read in a given byte string, followed by its continuation. -/
theorem Reads.bind_at {x : BitRead α} {f : α → BitRead β} {a : α} {data : List UInt8}
    {pre : List Bool} {k : Nat} (h : Reads o x bs a) (hb : bitsOf data = pre ++ bs ++ rest)
    (hk : pre.length = k) (hmod : k % 8 = o % 8) :
    (x >>= f) (atBit data k) = f a (atBit data (k + bs.length)) := by
  subst hk
  show EStateM.bind x f _ = _
  simp only [EStateM.bind, h data pre rest hmod hb]

/-- On a byte boundary, the rest of the byte string, without moving. -/
theorem remainingSlice_atBit {data : List UInt8} {k : Nat} (h : k % 8 = 0) :
    remainingSlice (atBit data k) = .ok (data.drop (k / 8)) (atBit data k) := by
  simp [remainingSlice, isByteAligned_atBit h]

theorem remainingSlice_bind_atBit {f : List UInt8 → BitRead α} {data : List UInt8} {k : Nat}
    (h : k % 8 = 0) :
    (remainingSlice >>= f) (atBit data k) = f (data.drop (k / 8)) (atBit data k) := by
  show EStateM.bind remainingSlice f _ = _
  simp only [EStateM.bind, remainingSlice_atBit h]

/-- A reader that reads the front of a byte string's bits, run on a cursor of its own. -/
theorem Reads.run {r : BitRead α} {v : α} {data : List UInt8} (h : Reads 0 r bs v)
    (hb : bitsOf data = bs ++ rest) :
    r.run (BitCursor.ofBytes data) = .ok v (atBit data bs.length) := by
  have h' := h data [] rest rfl (by rw [hb]; rfl)
  simp only [List.length_nil, Nat.zero_add] at h'
  exact h'

/-- The bytes after a read that stopped on a byte boundary are the bytes whose bits follow. -/
theorem drop_eq_of_bitsOf {data ys : List UInt8} (hb : bitsOf data = bs ++ bitsOf ys)
    (h8 : bs.length % 8 = 0) : data.drop (bs.length / 8) = ys := by
  apply bitsOf_inj
  rw [bitsOf_drop, hb, show 8 * (bs.length / 8) = bs.length by omega, List.drop_left]

end BitRead

end MpegTs
