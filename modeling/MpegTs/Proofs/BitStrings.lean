import MpegTs.Bits.Basic
import Mathlib.Data.List.Induction
import Mathlib.Algebra.Group.Nat.Defs

/-!
# Bit strings read back

The bit strings of `MpegTs.Bits.Basic` are codes, and this module reads them back:

* `natOfBits_natBits`: the number spelled by the low `n` bits of `v` is `v` modulo `2^n`,
  and `natBits_natOfBits`: a bit string spells its own number at its own length;
* `bitsOf_packBits`: packing a bit string of whole bytes loses no bit, and `bitsOf_inj`: a
  byte string is determined by its bits;
* `bitsOf_take`, `bitsOf_drop` and `bitWindow_eq`: the bits of a part of a byte string are
  that part of its bits, so the window a cursor computes from the few bytes that hold it is
  a plain window of the bits of all of them.
-/

namespace MpegTs

/-! ## Numbers and their bits -/

@[simp] theorem length_natBits (n v : Nat) : (natBits n v).length = n := by
  simp [natBits]

/-- The low `n + 1` bits of `v`: the low `n` bits of `v / 2`, then the lowest bit of `v`. -/
theorem natBits_succ (n v : Nat) :
    natBits (n + 1) v = natBits n (v / 2) ++ [v.testBit 0] := by
  rw [natBits, List.range_succ, List.map_append, natBits]
  congr 1
  · apply List.map_congr_left
    intro i hi
    have hi : i < n := List.mem_range.1 hi
    rw [Nat.testBit_div_two]
    congr 1
    omega
  · simp

theorem natOfBits_append_singleton (bs : List Bool) (b : Bool) :
    natOfBits (bs ++ [b]) = 2 * natOfBits bs + b.toNat := by
  simp [natOfBits, List.foldl_append]

/-- The bits of `xs` count `2 ^ ys.length` times as much in front of `ys`. -/
theorem natOfBits_append (xs ys : List Bool) :
    natOfBits (xs ++ ys) = natOfBits xs * 2 ^ ys.length + natOfBits ys := by
  induction ys using List.reverseRecOn with
  | nil => simp [natOfBits]
  | append_singleton ys y ih =>
    rw [← List.append_assoc, natOfBits_append_singleton, ih, natOfBits_append_singleton,
      List.length_append, List.length_singleton, Nat.pow_succ, Nat.mul_add,
      Nat.mul_left_comm, Nat.mul_comm 2]
    omega

theorem natOfBits_cons (b : Bool) (bs : List Bool) :
    natOfBits (b :: bs) = b.toNat * 2 ^ bs.length + natOfBits bs := by
  have h := natOfBits_append [b] bs
  simpa [natOfBits] using h

/-- The number spelled by the low `n` bits of `v` is `v` modulo `2^n`. -/
theorem natOfBits_natBits (n v : Nat) : natOfBits (natBits n v) = v % 2 ^ n := by
  induction n generalizing v with
  | zero => simp [natBits, natOfBits, Nat.mod_one]
  | succ n ih =>
    rw [natBits_succ, natOfBits_append_singleton, ih, Nat.pow_succ', Nat.mod_mul,
      Nat.testBit_zero]
    -- the lowest bit is `v % 2`, whichever it is
    rcases Nat.mod_two_eq_zero_or_one v with h | h
    · simp [h]
    · simp [h]
      omega

theorem natOfBits_lt (bs : List Bool) : natOfBits bs < 2 ^ bs.length := by
  induction bs using List.reverseRecOn with
  | nil => simp [natOfBits]
  | append_singleton bs b ih =>
    rw [natOfBits_append_singleton, List.length_append, List.length_singleton, Nat.pow_succ]
    cases b <;> simp only [Bool.toNat_false, Bool.toNat_true] <;> omega

/-- A bit string spells its own number at its own length. -/
theorem natBits_natOfBits (bs : List Bool) : natBits bs.length (natOfBits bs) = bs := by
  induction bs using List.reverseRecOn with
  | nil => rfl
  | append_singleton bs b ih =>
    have hdiv : (2 * natOfBits bs + b.toNat) / 2 = natOfBits bs := by
      cases b <;> simp only [Bool.toNat_false, Bool.toNat_true] <;> omega
    have hbit : (2 * natOfBits bs + b.toNat).testBit 0 = b := by
      cases b <;> simp [Nat.testBit_zero]
    rw [List.length_append, List.length_singleton, natBits_succ, natOfBits_append_singleton,
      hdiv, hbit, ih]

/-- Stuffing: `n` bytes of ones. -/
@[simp] theorem length_stuffing (n : Nat) :
    (List.replicate n (natBits 8 0xFF)).flatten.length = 8 * n := by
  induction n with
  | zero => rfl
  | succ n ih =>
    rw [List.replicate_succ, List.flatten_cons, List.length_append, ih, length_natBits]
    omega

/-! ## Bytes and their bits -/

theorem byteBits_eq_natBits (b : UInt8) : byteBits b = natBits 8 b.toNat := rfl

@[simp] theorem length_byteBits (b : UInt8) : (byteBits b).length = 8 := by
  simp [byteBits]

@[simp] theorem bitsOf_nil : bitsOf [] = [] := rfl

@[simp] theorem bitsOf_cons (b : UInt8) (bs : List UInt8) :
    bitsOf (b :: bs) = byteBits b ++ bitsOf bs := rfl

@[simp] theorem bitsOf_append (xs ys : List UInt8) :
    bitsOf (xs ++ ys) = bitsOf xs ++ bitsOf ys := by
  simp [bitsOf]

@[simp] theorem length_bitsOf (bs : List UInt8) : (bitsOf bs).length = 8 * bs.length := by
  induction bs with
  | nil => rfl
  | cons b bs ih =>
    rw [bitsOf_cons, List.length_append, ih, length_byteBits, List.length_cons]
    omega

theorem bitsOf_take (bs : List UInt8) (m : Nat) :
    bitsOf (bs.take m) = (bitsOf bs).take (8 * m) := by
  induction bs generalizing m with
  | nil => simp
  | cons b bs ih =>
    cases m with
    | zero => simp
    | succ m =>
      rw [List.take_succ_cons, bitsOf_cons, bitsOf_cons, ih, List.take_append, length_byteBits,
        List.take_of_length_le (l := byteBits b) (by rw [length_byteBits]; omega)]
      congr 2

theorem bitsOf_drop (bs : List UInt8) (m : Nat) :
    bitsOf (bs.drop m) = (bitsOf bs).drop (8 * m) := by
  induction bs generalizing m with
  | nil => simp
  | cons b bs ih =>
    cases m with
    | zero => simp
    | succ m =>
      rw [List.drop_succ_cons, bitsOf_cons, ih, List.drop_append, length_byteBits,
        List.drop_of_length_le (l := byteBits b) (by rw [length_byteBits]; omega),
        List.nil_append]
      congr 1

/-- The window a cursor reads off the bytes that hold it is the window of all the bits. -/
theorem bitWindow_eq (bytes : List UInt8) (start n : Nat) :
    bitWindow bytes start n = ((bitsOf bytes).drop start).take n := by
  rw [bitWindow, bitsOf_take, bitsOf_drop, List.drop_take, List.take_take, List.drop_drop]
  congr 1
  · omega
  · congr 1
    omega

/-- A byte is read back from its eight bits. -/
theorem byteOfBits_byteBits (b : UInt8) : byteOfBits (byteBits b) = b := by
  rw [byteOfBits, length_byteBits, Nat.sub_self, List.replicate_zero, List.append_nil,
    byteBits_eq_natBits, natOfBits_natBits]
  simp

/-- Eight bits are the bits of the byte they spell. -/
theorem byteBits_byteOfBits {bs : List Bool} (h : bs.length = 8) :
    byteBits (byteOfBits bs) = bs := by
  have hlt : natOfBits bs < 2 ^ 8 := h ▸ natOfBits_lt bs
  rw [byteOfBits, h, Nat.sub_self, List.replicate_zero, List.append_nil, byteBits_eq_natBits,
    UInt8.toNat_ofNat', Nat.mod_eq_of_lt hlt, ← h, natBits_natOfBits]

/-- Packing a bit string of `n` whole bytes loses no bit. -/
theorem bitsOf_packBits_of_length (n : Nat) :
    ∀ bs : List Bool, bs.length = 8 * n → bitsOf (packBits bs) = bs := by
  induction n with
  | zero =>
    intro bs h
    rw [List.eq_nil_of_length_eq_zero (by omega : bs.length = 0)]
    rfl
  | succ n ih =>
    intro bs h
    -- a string of `8 * (n + 1)` bits starts with a whole byte
    rcases bs with _ | ⟨b0, _ | ⟨b1, _ | ⟨b2, _ | ⟨b3, _ | ⟨b4, _ | ⟨b5, _ | ⟨b6, _ |
      ⟨b7, rest⟩⟩⟩⟩⟩⟩⟩⟩ <;>
      simp only [List.length_cons, List.length_nil] at h <;> try omega
    rw [packBits, bitsOf_cons, byteBits_byteOfBits rfl, ih rest (by omega)]
    rfl

theorem bitsOf_packBits {bs : List Bool} (h : bs.length % 8 = 0) : bitsOf (packBits bs) = bs :=
  bitsOf_packBits_of_length (bs.length / 8) bs (by omega)

/-- Fewer than eight bits, padded with zeros to a byte, are the bits of that byte. -/
theorem byteBits_byteOfBits_pad {bs : List Bool} (h : bs.length ≤ 8) :
    byteBits (byteOfBits bs) = bs ++ List.replicate (8 - bs.length) false := by
  have hpad : (bs ++ List.replicate (8 - bs.length) false).length = 8 := by simp; omega
  rw [← byteBits_byteOfBits hpad, byteOfBits, byteOfBits, hpad, Nat.sub_self, List.replicate_zero,
    List.append_nil]

/-- A last byte of fewer than eight bits is packed alone. -/
theorem packBits_short {bs : List Bool} (h : bs.length < 8) (hne : bs ≠ []) :
    packBits bs = [byteOfBits bs] := by
  unfold packBits
  split
  · simp only [List.length_cons] at h
    omega
  · contradiction
  · rfl

/-- Packing a bit string pads its last byte with zero bits and loses no bit. -/
theorem bitsOf_packBits_pad_of_length (n : Nat) :
    ∀ bs : List Bool, bs.length < 8 * (n + 1) →
      bitsOf (packBits bs) = bs ++ List.replicate ((8 - bs.length % 8) % 8) false := by
  induction n with
  | zero =>
    intro bs h
    by_cases hne : bs = []
    · subst hne
      rfl
    · have hpos : 0 < bs.length := List.length_pos_iff.2 hne
      rw [packBits_short (by omega) hne, bitsOf_cons, bitsOf_nil, List.append_nil,
        byteBits_byteOfBits_pad (by omega)]
      congr 2
      omega
  | succ n ih =>
    intro bs h
    by_cases hshort : bs.length < 8 * (n + 1)
    · exact ih bs hshort
    -- a string of at least eight bits starts with a whole byte
    rcases bs with _ | ⟨b0, _ | ⟨b1, _ | ⟨b2, _ | ⟨b3, _ | ⟨b4, _ | ⟨b5, _ | ⟨b6, _ |
      ⟨b7, rest⟩⟩⟩⟩⟩⟩⟩⟩ <;>
      simp only [List.length_cons, List.length_nil] at h hshort <;> try omega
    rw [packBits, bitsOf_cons, byteBits_byteOfBits rfl, ih rest (by omega)]
    simp only [List.length_cons, List.cons_append, List.nil_append]
    congr 10
    omega

theorem bitsOf_packBits_pad (bs : List Bool) :
    bitsOf (packBits bs) = bs ++ List.replicate ((8 - bs.length % 8) % 8) false :=
  bitsOf_packBits_pad_of_length bs.length bs (by omega)

theorem length_packBits {bs : List Bool} (h : bs.length % 8 = 0) :
    (packBits bs).length = bs.length / 8 := by
  have hlen := congrArg List.length (bitsOf_packBits h)
  rw [length_bitsOf] at hlen
  omega

theorem byteBits_injective {a b : UInt8} (h : byteBits a = byteBits b) : a = b := by
  rw [← byteOfBits_byteBits a, h, byteOfBits_byteBits]

/-- A byte string is determined by its bits. -/
theorem bitsOf_inj {xs ys : List UInt8} (h : bitsOf xs = bitsOf ys) : xs = ys := by
  induction xs generalizing ys with
  | nil =>
    cases ys with
    | nil => rfl
    | cons y ys =>
      have := congrArg List.length h
      simp only [length_bitsOf, List.length_cons, List.length_nil] at this
      omega
  | cons x xs ih =>
    cases ys with
    | nil =>
      have := congrArg List.length h
      simp only [length_bitsOf, List.length_cons, List.length_nil] at this
      omega
    | cons y ys =>
      rw [bitsOf_cons, bitsOf_cons] at h
      obtain ⟨hxy, hrest⟩ := List.append_inj h (by simp)
      rw [byteBits_injective hxy, ih hrest]

end MpegTs
