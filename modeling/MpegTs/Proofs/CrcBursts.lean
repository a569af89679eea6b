import MpegTs.Psi.Section
import MpegTs.Proofs.BitStrings
import Mathlib.Tactic.Ring

/-!
# What the CRC-32 of a section detects

The register of `Crc.update` is polynomial division over GF(2) by the generator `0x04C11DB7`,
one bit at a time. This module takes it apart bit by bit and proves what the check of a
section detects:

* `Crc.step_eq_feedBits`, `Crc.update_eq_feedBits`: the byte-wise register is the bit-wise one,
  `Crc.feedBits`, and up to 32 bits fed at once are the same bits put at the top and shifted
  (`Crc.feedBits_eq_shifts`);
* `Crc.shift_xor`, `Crc.feedBits_xor`, `Crc.update_zipWith_xor`: the register is linear in the
  register and the message together;
* `Crc.shift_eq_zero_iff`: one shift loses nothing, so a register of zero was zero before;
* `verifyCrc_ok_iff`: a section passes exactly when the register over all of it, its CRC
  included, is zero;
* `verifyCrc_burst`: no burst of at most 32 flipped bits turns a section that passes into one
  that passes, since such a burst alone leaves a register that is not zero.
-/

namespace MpegTs

namespace Crc

/-! ## One shift of the register -/

theorem getLsbD_top (i : Nat) : (0x80000000#32).getLsbD i = decide (i = 31) := by
  rw [BitVec.getLsbD_ofNat, show (0x80000000 : Nat) = 2 ^ 31 from rfl, Nat.testBit_two_pow]
  by_cases h : i = 31 <;> simp [h, eq_comm (a := 31)]

theorem and_top_eq_zero (c : UInt32) : (c &&& 0x80000000 = 0) ↔ c.toBitVec.msb = false := by
  rw [← UInt32.toBitVec_inj, BitVec.msb_eq_getLsbD_last]
  constructor
  · intro h
    have := congrArg (fun x : BitVec 32 => x.getLsbD 31) h
    simpa [getLsbD_top] using this
  · intro h
    apply BitVec.eq_of_getLsbD_eq
    intro i hi
    simp only [UInt32.toBitVec_and, BitVec.getLsbD_and, UInt32.toBitVec_ofNat, getLsbD_top]
    by_cases h31 : i = 31
    · subst h31
      simp_all
    · simp [h31]

/-- A shift as bit vectors: move up one place, and subtract the generator when the top bit
falls out. -/
theorem toBitVec_shift (c : UInt32) :
    (shift c).toBitVec =
      if c.toBitVec.msb then (c.toBitVec <<< 1) ^^^ poly.toBitVec else c.toBitVec <<< 1 := by
  unfold shift
  by_cases h : c.toBitVec.msb <;> simp [and_top_eq_zero, h]

/-- A shift is linear over GF(2). -/
theorem shift_xor (a b : UInt32) : shift (a ^^^ b) = shift a ^^^ shift b := by
  apply UInt32.toBitVec_inj.mp
  simp only [toBitVec_shift, UInt32.toBitVec_xor, BitVec.msb_xor, BitVec.shiftLeft_xor_distrib]
  -- the generator is subtracted once for each top bit that falls out
  cases a.toBitVec.msb <;> cases b.toBitVec.msb <;> simp
  · ac_rfl
  · ac_rfl
  · calc a.toBitVec <<< 1 ^^^ b.toBitVec <<< 1
        = (a.toBitVec <<< 1 ^^^ b.toBitVec <<< 1) ^^^ (poly.toBitVec ^^^ poly.toBitVec) := by
          rw [BitVec.xor_self, BitVec.xor_zero]
      _ = a.toBitVec <<< 1 ^^^ poly.toBitVec ^^^ (b.toBitVec <<< 1 ^^^ poly.toBitVec) := by
          ac_rfl

theorem shift_zero : shift 0 = 0 := rfl

/-- Only the zero register shifts to zero: the generator's lowest bit is set, so a register
whose top bit falls out never shifts to zero. -/
theorem shift_eq_zero_iff {c : UInt32} : shift c = 0 ↔ c = 0 := by
  constructor
  · intro h
    have hb := congrArg UInt32.toBitVec h
    rw [toBitVec_shift] at hb
    split at hb
    · have hlow := congrArg (fun x : BitVec 32 => x.getLsbD 0) hb
      have hpoly : poly.toBitVec[0] = true := by decide
      simp [hpoly] at hlow
    · rename_i htop
      apply UInt32.toBitVec_inj.mp
      apply BitVec.eq_of_getLsbD_eq
      intro i hi
      by_cases h31 : i = 31
      · subst h31
        simpa [BitVec.msb_eq_getLsbD_last] using htop
      · have := congrArg (fun x : BitVec 32 => x.getLsbD (i + 1)) hb
        simpa [BitVec.getLsbD_shiftLeft, show i + 1 < 32 by omega, hi] using this
  · rintro rfl
    exact shift_zero

/-- A register whose top bit is clear just moves up one place. -/
theorem toNat_shift_of_lt {c : UInt32} (h : c.toNat < 2 ^ 31) : (shift c).toNat = 2 * c.toNat := by
  have htop : c.toBitVec.msb = false := by
    rw [BitVec.msb_eq_false_iff_two_mul_lt]
    simp only [UInt32.toNat_toBitVec]
    omega
  rw [← UInt32.toNat_toBitVec, toBitVec_shift, htop, if_neg Bool.false_ne_true,
    BitVec.toNat_shiftLeft, UInt32.toNat_toBitVec, Nat.shiftLeft_eq, Nat.mod_eq_of_lt (by omega)]
  omega

/-! ## Repeated shifts -/

theorem repeat_shift_eq_zero_iff {n : Nat} {c : UInt32} : Nat.repeat shift n c = 0 ↔ c = 0 := by
  induction n with
  | zero => rfl
  | succ n ih => simp only [Nat.repeat, shift_eq_zero_iff, ih]

theorem repeat_shift_shift (n : Nat) (c : UInt32) :
    Nat.repeat shift n (shift c) = Nat.repeat shift (n + 1) c := by
  induction n with
  | zero => rfl
  | succ n ih => simp only [Nat.repeat, ih]

/-! ## Feeding bits -/

/-- The register whose top `bs.length` bits are `bs` and whose other bits are zero. -/
def topBits (bs : List Bool) : UInt32 := UInt32.ofNat (natOfBits bs * 2 ^ (32 - bs.length))

/-- Feeds one message bit: it enters the top of the register, which then shifts. -/
def feedBit (c : UInt32) (b : Bool) : UInt32 := shift (c ^^^ topBits [b])

/-- Feeds a bit string, first bit first. -/
def feedBits (c : UInt32) (bs : List Bool) : UInt32 := bs.foldl feedBit c

@[simp] theorem feedBits_nil (c : UInt32) : feedBits c [] = c := rfl

@[simp] theorem feedBits_cons (c : UInt32) (b : Bool) (bs : List Bool) :
    feedBits c (b :: bs) = feedBits (feedBit c b) bs := rfl

theorem feedBits_append (c : UInt32) (xs ys : List Bool) :
    feedBits c (xs ++ ys) = feedBits (feedBits c xs) ys := by
  simp [feedBits, List.foldl_append]

theorem toNat_topBits {bs : List Bool} (h : bs.length ≤ 32) :
    (topBits bs).toNat = natOfBits bs * 2 ^ (32 - bs.length) := by
  have hlt := natOfBits_lt bs
  have hpow : 2 ^ bs.length * 2 ^ (32 - bs.length) = 2 ^ 32 := by
    rw [← Nat.pow_add]
    congr 1
    omega
  unfold topBits
  rw [UInt32.toNat_ofNat', Nat.mod_eq_of_lt]
  calc natOfBits bs * 2 ^ (32 - bs.length)
      < 2 ^ bs.length * 2 ^ (32 - bs.length) :=
        Nat.mul_lt_mul_of_pos_right hlt (Nat.two_pow_pos _)
    _ = 2 ^ 32 := hpow

/-- Below a power of two, adding the power is setting its bit. -/
theorem two_pow_mul_add_eq_xor {n y : Nat} (hy : y < 2 ^ n) (a : Nat) :
    2 ^ n * a + y = 2 ^ n * a ^^^ y := by
  apply Nat.eq_of_testBit_eq
  intro j
  rw [Nat.testBit_two_pow_mul_add _ hy, Nat.testBit_xor, Nat.testBit_two_pow_mul]
  by_cases hj : j < n
  · simp [hj, Nat.not_le_of_lt hj]
  · have hyj : y < 2 ^ j := Nat.lt_of_lt_of_le hy (Nat.pow_le_pow_right Nat.zero_lt_two (by omega))
    simp [hj, Nat.le_of_not_lt hj, Nat.testBit_lt_two_pow hyj]

/-- The top bit of a register that holds `b :: bs` at its top, and the rest. -/
theorem topBits_cons {b : Bool} {bs : List Bool} (h : bs.length < 32) :
    topBits (b :: bs) =
      topBits [b] ^^^ UInt32.ofNat (natOfBits bs * 2 ^ (31 - bs.length)) := by
  have hlt := natOfBits_lt bs
  have hpow : 2 ^ bs.length * 2 ^ (31 - bs.length) = 2 ^ 31 := by
    rw [← Nat.pow_add]
    congr 1
    omega
  have hlow : natOfBits bs * 2 ^ (31 - bs.length) < 2 ^ 31 :=
    hpow ▸ Nat.mul_lt_mul_of_pos_right hlt (Nat.two_pow_pos _)
  have hb : natOfBits [b] = b.toNat := by simp [natOfBits]
  apply UInt32.toNat_inj.mp
  rw [toNat_topBits (by simp; omega), UInt32.toNat_xor, toNat_topBits (by simp),
    UInt32.toNat_ofNat', Nat.mod_eq_of_lt (by omega), natOfBits_cons, hb, List.length_cons,
    List.length_singleton, show 32 - (bs.length + 1) = 31 - bs.length by omega, Nat.add_mul,
    Nat.mul_assoc, hpow, Nat.mul_comm b.toNat, two_pow_mul_add_eq_xor hlow]

/-- Feeding at most 32 bits is xoring them into the top of the register and shifting as
often: a bit fed later enters one place lower and meets no reduction on its way up. -/
theorem feedBits_eq_shifts (c : UInt32) {bs : List Bool} (h : bs.length ≤ 32) :
    feedBits c bs = Nat.repeat shift bs.length (c ^^^ topBits bs) := by
  induction bs generalizing c with
  | nil => simp [topBits, natOfBits, Nat.repeat]
  | cons b bs ih =>
    have hk : bs.length < 32 := by simp at h; omega
    set low := UInt32.ofNat (natOfBits bs * 2 ^ (31 - bs.length))
    -- the bits after `b` were placed one position lower, so one more shift lifts them
    have hlow : shift low = topBits bs := by
      have hlt := natOfBits_lt bs
      have hpow : 2 ^ bs.length * 2 ^ (31 - bs.length) = 2 ^ 31 := by
        rw [← Nat.pow_add]
        congr 1
        omega
      have hsmall : natOfBits bs * 2 ^ (31 - bs.length) < 2 ^ 31 :=
        hpow ▸ Nat.mul_lt_mul_of_pos_right hlt (Nat.two_pow_pos _)
      apply UInt32.toNat_inj.mp
      rw [toNat_shift_of_lt (by rw [UInt32.toNat_ofNat', Nat.mod_eq_of_lt (by omega)]; exact hsmall),
        UInt32.toNat_ofNat', Nat.mod_eq_of_lt (by omega), toNat_topBits (by omega),
        show 32 - bs.length = 31 - bs.length + 1 by omega, Nat.pow_succ]
      ring
    rw [feedBits_cons, ih _ (by omega), feedBit, ← hlow, ← shift_xor, repeat_shift_shift,
      topBits_cons hk, List.length_cons, UInt32.xor_assoc]

/-- The byte-wise register of `Crc.step` is the bit-wise one. -/
theorem step_eq_feedBits (c : UInt32) (b : UInt8) : step c b = feedBits c (byteBits b) := by
  have htop : b.toUInt32 <<< 24 = topBits (byteBits b) := by
    apply UInt32.toNat_inj.mp
    rw [toNat_topBits (by simp), length_byteBits, byteBits_eq_natBits, natOfBits_natBits,
      Nat.mod_eq_of_lt b.toNat_lt, UInt32.toNat_shiftLeft, UInt8.toNat_toUInt32]
    have := b.toNat_lt
    simp only [Nat.shiftLeft_eq, show (24 : UInt32).toNat % 32 = 24 from rfl]
    omega
  rw [step, feedBits_eq_shifts c (by simp), length_byteBits, htop]

theorem update_eq_feedBits (c : UInt32) (bytes : List UInt8) :
    update c bytes = feedBits c (bitsOf bytes) := by
  induction bytes generalizing c with
  | nil => rfl
  | cons b bytes ih =>
    rw [bitsOf_cons, feedBits_append, ← step_eq_feedBits, ← ih]
    rfl

/-! ## Linearity -/

theorem topBits_xor (x y : Bool) : topBits [x ^^ y] = topBits [x] ^^^ topBits [y] := by
  cases x <;> cases y <;> decide

theorem feedBit_xor (c d : UInt32) (x y : Bool) :
    feedBit (c ^^^ d) (x ^^ y) = feedBit c x ^^^ feedBit d y := by
  rw [feedBit, feedBit, feedBit, ← shift_xor, topBits_xor]
  congr 1
  ac_rfl

/-- The register over the bitwise xor of two messages of one length is the xor of their
registers. -/
theorem feedBits_xor (c d : UInt32) {xs ys : List Bool} (h : xs.length = ys.length) :
    feedBits (c ^^^ d) (List.zipWith (· ^^ ·) xs ys) = feedBits c xs ^^^ feedBits d ys := by
  induction xs generalizing ys c d with
  | nil =>
    rw [List.eq_nil_of_length_eq_zero h.symm]
    rfl
  | cons x xs ih =>
    cases ys with
    | nil => simp at h
    | cons y ys =>
      rw [List.zipWith_cons_cons, feedBits_cons, feedBit_xor, ih _ _ (by simpa using h)]
      rfl

/-! ## Zeros -/

theorem feedBits_replicate_false (c : UInt32) (n : Nat) :
    feedBits c (List.replicate n false) = Nat.repeat shift n c := by
  induction n generalizing c with
  | zero => rfl
  | succ n ih =>
    rw [List.replicate_succ, feedBits_cons, ih, feedBit, show topBits [false] = 0 from rfl,
      UInt32.xor_zero, repeat_shift_shift]

theorem eq_false_of_natOfBits_eq_zero {bs : List Bool} (h : natOfBits bs = 0) :
    ∀ b ∈ bs, b = false := by
  intro b hb
  rw [← natBits_natOfBits bs, h] at hb
  obtain ⟨i, -, rfl⟩ := List.mem_map.1 hb
  exact Nat.zero_testBit _

/-- A register fed from zero by a burst of at most 32 bits between zeros ends at zero only
when the burst is all zeros. -/
theorem burst_eq_false_of_feedBits_eq_zero {start rest : Nat} {run : List Bool}
    (hlen : run.length ≤ 32)
    (h : feedBits 0 (List.replicate start false ++ run ++ List.replicate rest false) = 0) :
    ∀ b ∈ run, b = false := by
  have hzero : feedBits 0 (List.replicate start false) = 0 := by
    rw [feedBits_replicate_false, repeat_shift_eq_zero_iff]
  rw [feedBits_append, feedBits_append, hzero, feedBits_eq_shifts 0 hlen, UInt32.zero_xor,
    feedBits_replicate_false, repeat_shift_eq_zero_iff, repeat_shift_eq_zero_iff] at h
  have h0 := congrArg UInt32.toNat h
  rw [toNat_topBits hlen, UInt32.toNat_zero, Nat.mul_eq_zero] at h0
  exact eq_false_of_natOfBits_eq_zero (h0.resolve_right (Nat.two_pow_pos _).ne')

/-! ## The residue of a codeword -/

theorem natOfBits_bitsOf (bytes : List UInt8) : natOfBits (bitsOf bytes) = natOfBytes bytes := by
  induction bytes using List.reverseRecOn with
  | nil => rfl
  | append_singleton bytes b ih =>
    rw [bitsOf_append, natOfBits_append, ih, bitsOf_cons, bitsOf_nil, List.append_nil,
      length_byteBits, byteBits_eq_natBits, natOfBits_natBits, Nat.mod_eq_of_lt b.toNat_lt]
    simp [natOfBytes, List.foldl_append]

/-- Four bytes fed to a register clear it exactly when they spell the register's value. -/
theorem update_eq_zero_iff {c : UInt32} {t : List UInt8} (ht : t.length = 4) :
    update c t = 0 ↔ c.toNat = natOfBytes t := by
  have h32 : (bitsOf t).length = 32 := by simp [ht]
  have htop : (topBits (bitsOf t)).toNat = natOfBytes t := by
    rw [toNat_topBits (by omega), h32, natOfBits_bitsOf, Nat.sub_self, Nat.pow_zero,
      Nat.mul_one]
  rw [update_eq_feedBits, feedBits_eq_shifts c (by omega), repeat_shift_eq_zero_iff,
    UInt32.xor_eq_zero_iff, ← htop, UInt32.toNat_inj]

end Crc

/-- A section passes its check exactly when the register run over all of it, its CRC
included, ends at zero. -/
theorem verifyCrc_ok_iff {t : TableKind} {bytes : List UInt8} :
    verifyCrc t bytes = .ok () ↔ crcLen ≤ bytes.length ∧ Crc.update Crc.init bytes = 0 := by
  unfold verifyCrc
  by_cases hlen : bytes.length < crcLen
  · simp only [if_pos hlen, reduceCtorEq, false_iff, not_and]
    omega
  · rw [if_neg hlen]
    have htrailer : (bytes.drop (bytes.length - crcLen)).length = 4 := by
      unfold crcLen at hlen ⊢
      rw [List.length_drop]
      omega
    have hsplit : Crc.update Crc.init bytes = Crc.update
        (Crc.update Crc.init (bytes.take (bytes.length - crcLen)))
        (bytes.drop (bytes.length - crcLen)) := by
      rw [← Crc.update_append, List.take_append_drop]
    simp only [Crc.checksum, Crc.finalize, hsplit, Crc.update_eq_zero_iff htrailer]
    by_cases hc : (Crc.update Crc.init (bytes.take (bytes.length - crcLen))).toNat =
        natOfBytes (bytes.drop (bytes.length - crcLen))
    · simp [hc]
      omega
    · simp [hc]

/-- A check over enough bytes that does not pass reports a CRC mismatch. -/
theorem verifyCrc_crcMismatch {t : TableKind} {bytes : List UInt8} (hlen : crcLen ≤ bytes.length)
    (h : verifyCrc t bytes ≠ .ok ()) : ∃ x y, verifyCrc t bytes = .error (.crcMismatch t x y) := by
  unfold verifyCrc at h ⊢
  rw [if_neg (by omega)] at h ⊢
  dsimp only at h ⊢
  split
  · exact ⟨_, _, rfl⟩
  · rename_i hc
    rw [if_neg hc] at h
    exact absurd rfl h

/-! ## Bursts -/

theorem byteBits_xor (a b : UInt8) :
    byteBits (a ^^^ b) = List.zipWith (· ^^ ·) (byteBits a) (byteBits b) := by
  simp only [byteBits, List.zipWith_map, List.zipWith_self, UInt8.toNat_xor, Nat.testBit_xor]

theorem bitsOf_zipWith_xor {s e : List UInt8} (h : s.length = e.length) :
    bitsOf (List.zipWith (· ^^^ ·) s e) = List.zipWith (· ^^ ·) (bitsOf s) (bitsOf e) := by
  induction s generalizing e with
  | nil => rfl
  | cons a s ih =>
    cases e with
    | nil => simp at h
    | cons b e =>
      rw [List.zipWith_cons_cons, bitsOf_cons, bitsOf_cons, bitsOf_cons, byteBits_xor,
        ih (by simpa using h), List.zipWith_append (by simp)]

/-- The register over the bytewise xor of two messages of one length is the xor of their
registers. -/
theorem Crc.update_zipWith_xor (c d : UInt32) {xs ys : List UInt8} (h : xs.length = ys.length) :
    Crc.update (c ^^^ d) (List.zipWith (· ^^^ ·) xs ys) = Crc.update c xs ^^^ Crc.update d ys := by
  rw [Crc.update_eq_feedBits, Crc.update_eq_feedBits, Crc.update_eq_feedBits, bitsOf_zipWith_xor h,
    Crc.feedBits_xor c d (by simp [h])]

/-- The error pattern `e` flips at least one bit, and the bits it flips lie in one run of at
most 32 bits inside bytes `[lo, hi)`. A run of flipped bits is such a burst, and so is any
pattern whose first and last flips are at most 32 bits apart. -/
def BurstWithin (e : List UInt8) (lo hi : Nat) : Prop :=
  ∃ start run rest, bitsOf e = List.replicate start false ++ run ++ List.replicate rest false ∧
    8 * lo ≤ start ∧ start + run.length ≤ 8 * hi ∧ run.length ≤ 32 ∧ true ∈ run

/-- No burst of at most 32 bits turns a section that passes its check into another that
does: the check of the corrupted section reports a CRC mismatch. -/
theorem verifyCrc_burst {t : TableKind} {w e : List UInt8} (hw : verifyCrc t w = .ok ())
    (he : e.length = w.length) (hb : BurstWithin e 0 w.length) :
    ∃ x y, verifyCrc t (List.zipWith (· ^^^ ·) w e) = .error (.crcMismatch t x y) := by
  obtain ⟨hlen, hzero⟩ := verifyCrc_ok_iff.1 hw
  obtain ⟨start, run, rest, hbits, -, -, hrun, htrue⟩ := hb
  refine verifyCrc_crcMismatch (by simp [he, hlen]) fun hok => ?_
  obtain ⟨-, hzero'⟩ := verifyCrc_ok_iff.1 hok
  -- the register of the corrupted section is that of the section plus that of the error
  have herr : Crc.update 0 e = 0 := by
    rw [← UInt32.xor_zero (a := Crc.init), Crc.update_zipWith_xor _ _ he.symm, hzero,
      UInt32.zero_xor] at hzero'
    exact hzero'
  rw [Crc.update_eq_feedBits, hbits] at herr
  exact absurd (Crc.burst_eq_false_of_feedBits_eq_zero hrun herr true htrue) (by decide)

end MpegTs
