import MpegTs.Bits.Writer
import MpegTs.Proofs.SuccessfulReads
import Mathlib.Algebra.Group.Int.Defs

/-!
# Exp-Golomb codes read back

The code of `v` is `v + 1` in binary after as many zero bits as `v + 1` has bits past its
leading one. `readUe` counts the zeros, refuses more than 31 of them, and rebuilds the value
from the bits after the one, so the codes it accepts are those of the values below `2^32 - 1`.
On that range writer and reader are inverse, in both directions:

* `ueBits_eq`: the code of `v` is `z` zeros, a one and the low `z` bits of `v + 1`, where
  `z = log2 (v + 1)`; `length_ueBits`: it takes `2 z + 1` bits;
* `Reads.ue`, `Reads.se`: the code of a value in range is read back wherever it stands, and
  `Reads.many` reads the codes of a list written in a row;
* `readUe_ok`, `readSe_ok`: what the reader accepted is the writer's code of the value read;
* `expGolomb_codec_inverse`: the codec as a whole, and `readUe_refuses_maxCode`: the 65-bit code
  that the writer emits for `2^32 - 1` has 32 leading zeros, which the reader refuses.
-/

namespace MpegTs

open BitCursor BitRead

/-! ## Bit strings of codes -/

/-- The low `n + 1` bits of `v`: bit `n`, then the low `n` bits. -/
theorem natBits_succ_left (n v : Nat) : natBits (n + 1) v = v.testBit n :: natBits n v := by
  rw [natBits, List.range_succ_eq_map, List.map_cons, List.map_map, natBits]
  congr 1
  apply List.map_congr_left
  intro i _
  simp only [Function.comp_apply]
  congr 1
  omega

theorem natBits_zero_value (n : Nat) : natBits n 0 = List.replicate n false := by
  simp [natBits, List.map_const']

/-- Only the low `n` bits of a number are written in `n` bits. -/
theorem natBits_mod_two_pow (n v : Nat) : natBits n (v % 2 ^ n) = natBits n v := by
  apply List.map_congr_left
  intro i hi
  rw [Nat.testBit_mod_two_pow, decide_eq_true (by have := List.mem_range.1 hi; omega),
    Bool.true_and]

/-- The code of `v`: `log2 (v + 1)` zeros, a one, and the bits of `v + 1` below its leading one. -/
theorem ueBits_eq (v : Nat) :
    ueBits v = List.replicate (Nat.log2 (v + 1)) false ++ true :: natBits (Nat.log2 (v + 1)) (v + 1) := by
  rw [ueBits, Nat.add_sub_cancel, natBits_zero_value, natBits_succ_left,
    Nat.testBit_log2 (Nat.add_one_ne_zero v)]

/-- A code takes twice as many bits as its leading zeros, and one more. -/
theorem length_ueBits (v : Nat) : (ueBits v).length = 2 * Nat.log2 (v + 1) + 1 := by
  rw [ueBits_eq]
  simp only [List.length_append, List.length_replicate, List.length_cons, length_natBits]
  omega

/-- The code of the value `2^z - 1 + s`, for `s` below `2^z`: `z` zeros, a one, and `s`. -/
theorem ueBits_of_lt {z s : Nat} (hs : s < 2 ^ z) :
    ueBits (2 ^ z - 1 + s) = List.replicate z false ++ true :: natBits z s := by
  have hpos := Nat.two_pow_pos z
  have hv : 2 ^ z - 1 + s + 1 = 2 ^ z + s := by omega
  have hlog : Nat.log2 (2 ^ z + s) = z := by
    rw [Nat.log2_eq_iff (by omega), Nat.pow_succ]
    omega
  rw [ueBits_eq, hv, hlog, ← natBits_mod_two_pow z (2 ^ z + s), Nat.add_mod_left,
    Nat.mod_eq_of_lt hs]

/-- A value below `2^32 - 1` has a code of at most 31 leading zeros. -/
theorem log2_lt_of_lt {v : Nat} (h : v < 2 ^ 32 - 1) : Nat.log2 (v + 1) ≤ 31 := by
  have := (Nat.log2_lt (Nat.add_one_ne_zero v) (k := 32)).2 (by omega)
  omega

/-! ## The prefix scan -/

theorem findIdx?_replicate_false (z : Nat) (rest : List Bool) :
    (List.replicate z false ++ true :: rest).findIdx? id = some z := by
  induction z with
  | zero => simp [List.findIdx?_cons]
  | succ z ih => simp [List.replicate_succ, List.findIdx?_cons, ih]

/-- The first one bit of a bit string at `z` means `z` zeros before it. -/
theorem eq_replicate_of_findIdx? :
    ∀ {bs : List Bool} {z : Nat}, bs.findIdx? id = some z →
      bs = List.replicate z false ++ true :: bs.drop (z + 1)
  | [], _, h => by simp at h
  | b :: bs, z, h => by
    rw [List.findIdx?_cons] at h
    cases b with
    | true =>
      simp only [id, if_true, Option.some.injEq] at h
      subst h
      rfl
    | false =>
      simp only [id, Bool.false_eq_true, if_false, Option.map_eq_some_iff] at h
      obtain ⟨z', hz', rfl⟩ := h
      rw [List.replicate_succ, List.cons_append, List.drop_succ_cons]
      exact congrArg (false :: ·) (eq_replicate_of_findIdx? hz')

/-- The bits after the cursor are the bits of the byte string from the cursor on. -/
theorem restBits_atBit (data : List UInt8) (k : Nat) :
    restBits (atBit data k) = (bitsOf data).drop k := by
  rw [restBits, bytes_atBit, position_atBit, consumed_atBit, bitsOf_drop, List.drop_drop]
  congr 1
  omega

/-- The scan reads `z` zeros and the one after them as `z`. -/
theorem Reads.scanPrefix {o : Nat} (z : Nat) :
    Reads o scanPrefix (List.replicate z false ++ [true]) z := by
  intro data pre rest _ hb
  have hrest : restBits (atBit data pre.length) = List.replicate z false ++ true :: rest := by
    rw [restBits_atBit, hb, List.append_assoc, List.drop_left]
    simp
  simp only [BitRead.scanPrefix, hrest, findIdx?_replicate_false, advance_atBit]
  simp

/-- A scan that found the one bit stopped right after it, past the zeros it counted. -/
theorem scanPrefix_ok {data : List UInt8} {k z : Nat} {c : BitCursor}
    (h : BitRead.scanPrefix (atBit data k) = .ok z c) :
    c = atBit data (k + (z + 1)) ∧ k + (z + 1) ≤ 8 * data.length ∧
      bitWindow data k (z + 1) = List.replicate z false ++ [true] := by
  unfold BitRead.scanPrefix at h
  split at h
  · rename_i z' hfind
    cases h
    rw [restBits_atBit] at hfind
    have hbits := eq_replicate_of_findIdx? hfind
    have hlen := congrArg List.length hbits
    simp only [List.length_drop, length_bitsOf, List.length_append, List.length_replicate,
      List.length_cons] at hlen
    refine ⟨rfl, by omega, ?_⟩
    rw [bitWindow_eq, hbits, List.take_append, List.length_replicate,
      List.take_of_length_le (by simp), Nat.add_sub_cancel_left]
    rfl
  · cases h

/-! ## Unsigned codes -/

/-- The code of a value below `2^32 - 1` is read back, wherever it stands. -/
theorem Reads.ue {o v : Nat} (h : v < 2 ^ 32 - 1) : Reads o readUe (ueBits v) v := by
  have hz := log2_lt_of_lt h
  have hle := Nat.log2_self_le (Nat.add_one_ne_zero v)
  have hlt := Nat.lt_log2_self (n := v + 1)
  rw [Nat.pow_succ] at hlt
  -- the bits of `v + 1` below its leading one are `v + 1 - 2^z`
  have hval : (1 <<< Nat.log2 (v + 1)) - 1 + (v + 1) % 2 ^ Nat.log2 (v + 1) = v := by
    rw [Nat.shiftLeft_eq, Nat.one_mul, Nat.mod_eq_sub_mod hle, Nat.mod_eq_of_lt (by omega)]
    omega
  rw [ueBits_eq, ← List.singleton_append, ← List.append_assoc]
  unfold readUe
  dsimp only
  exact Reads.bind (Reads.scanPrefix _) (Reads.ite_neg (by omega)
    (Reads.bind_last (Reads.bits_mod _ _) (by rw [hval])))

/-- A code that was read is the writer's code of the value read, a value below `2^32 - 1`. -/
theorem readUe_ok {data : List UInt8} {k v : Nat} {c : BitCursor}
    (h : readUe (atBit data k) = .ok v c) :
    v < 2 ^ 32 - 1 ∧ c = atBit data (k + (ueBits v).length) ∧
      bitWindow data k (ueBits v).length = ueBits v := by
  unfold readUe fault at h
  dsimp only at h
  obtain ⟨z, c₁, hscan, h⟩ := bind_ok h
  obtain ⟨rfl, -, hzeros⟩ := scanPrefix_ok hscan
  obtain ⟨hz, h⟩ := guard_ok h
  obtain ⟨s, c₂, hs, h⟩ := bind_ok h
  obtain ⟨rfl, -, hslt, hsuffix⟩ := readBits_ok hs
  obtain ⟨rfl, rfl⟩ := pure_ok h
  have hpos := Nat.two_pow_pos z
  have hcode : 1 <<< z - 1 + s = 2 ^ z - 1 + s := by rw [Nat.shiftLeft_eq, Nat.one_mul]
  rw [hcode, ueBits_of_lt hslt]
  have hlen : (List.replicate z false ++ true :: natBits z s).length = z + 1 + z := by
    simp only [List.length_append, List.length_replicate, List.length_cons, length_natBits]
    omega
  refine ⟨?_, by rw [hlen, Nat.add_assoc], ?_⟩
  · -- at most 31 zeros: the value is below `2^32 - 1`
    have h31 : 2 ^ z ≤ 2 ^ 31 := Nat.pow_le_pow_right (by decide) (by omega)
    omega
  · rw [hlen, bitWindow_append, hzeros, hsuffix, List.append_assoc, List.singleton_append]

/-! ## Signed codes -/

/-- The code number of a value in the range of a signed 32-bit code. -/
theorem seCodeNum_lt {v : Int} (h₁ : -2 ^ 31 < v) (h₂ : v < 2 ^ 31) :
    seCodeNum v < 2 ^ 32 - 1 := by
  unfold seCodeNum
  split <;> omega

/-- The value that `readSe` decodes from a code number, as a mathematical integer. -/
theorem seValue_seCodeNum {v : Int} (h₁ : -2 ^ 31 < v) (h₂ : v < 2 ^ 31) :
    (if seCodeNum v % 2 = 1 then (((seCodeNum v + 1) / 2 : Nat) : Int)
      else -((seCodeNum v / 2 : Nat) : Int)) = v := by
  unfold seCodeNum
  split
  · rename_i hv
    rw [if_pos (by omega)]
    omega
  · rename_i hv
    rw [if_neg (by omega)]
    omega

/-- The code of a value strictly inside the signed 32-bit range is read back. -/
theorem Reads.se {o : Nat} {v : Int} (h₁ : -2 ^ 31 < v) (h₂ : v < 2 ^ 31) :
    Reads o readSe (seBits v) v := by
  unfold readSe
  refine Reads.bind_last (Reads.ue (seCodeNum_lt h₁ h₂)) ?_
  rw [seValue_seCodeNum h₁ h₂]
  exact congrArg Pure.pure (Int.bmod_eq_of_le (by omega) (by omega))

/-- A signed code that was read is the writer's code of the value read, which lies strictly
inside the signed 32-bit range. -/
theorem readSe_ok {data : List UInt8} {k : Nat} {v : Int} {c : BitCursor}
    (h : readSe (atBit data k) = .ok v c) :
    (-2 ^ 31 < v ∧ v < 2 ^ 31) ∧ c = atBit data (k + (seBits v).length) ∧
      bitWindow data k (seBits v).length = seBits v := by
  unfold readSe at h
  obtain ⟨n, c₁, hn, h⟩ := bind_ok h
  obtain ⟨hlt, rfl, hwin⟩ := readUe_ok hn
  obtain ⟨rfl, rfl⟩ := pure_ok h
  -- the decoded value is odd codes up, even codes down, and stays inside the range
  have hvalue : -2 ^ 31 < (if n % 2 = 1 then (((n + 1) / 2 : Nat) : Int) else -((n / 2 : Nat) : Int)) ∧
      (if n % 2 = 1 then (((n + 1) / 2 : Nat) : Int) else -((n / 2 : Nat) : Int)) < 2 ^ 31 := by
    split <;> omega
  have hcode : seCodeNum (if n % 2 = 1 then (((n + 1) / 2 : Nat) : Int)
      else -((n / 2 : Nat) : Int)) = n := by
    unfold seCodeNum
    split <;> split <;> omega
  rw [Int.bmod_eq_of_le (by omega) (by omega)]
  exact ⟨hvalue, by rw [seBits, hcode], by rw [seBits, hcode, hwin]⟩

/-! ## Codes in a row -/

/-- `r` run `n` times in a row, its results in order, as a caller's loop of reads runs it. -/
def readMany {α : Type} (r : BitRead α) : Nat → BitRead (List α)
  | 0 => pure []
  | n + 1 => do
    let a ← r
    let as ← readMany r n
    return a :: as

/-- The codes of a list of values, written in a row, are read back in a row. -/
theorem Reads.many {α : Type} {r : BitRead α} {code : α → List Bool} :
    ∀ (vs : List α), (∀ v ∈ vs, ∀ o, Reads o r (code v) v) →
      ∀ o, Reads o (readMany r vs.length) (vs.map code).flatten vs
  | [], _, _ => Reads.pure []
  | v :: vs, h, o => by
    have hrest := Reads.many vs (fun v' hv' => h v' (List.mem_cons_of_mem _ hv'))
    rw [List.length_cons, List.map_cons, List.flatten_cons]
    exact Reads.bind (h v (List.mem_cons_self ..) o) (Reads.bind_last (hrest _) rfl)

/-- Writes that append a code each leave the codes of the values in a row. -/
theorem toList_bits_foldl {β : Type} {write : BitWriter → β → BitWriter} {code : β → List Bool}
    (hw : ∀ w v, write w v = w.append (code v)) :
    ∀ (vs : List β) (w : BitWriter),
      (vs.foldl write w).bits.toList = w.bits.toList ++ (vs.map code).flatten
  | [], w => by simp
  | v :: vs, w => by
    rw [List.foldl_cons, toList_bits_foldl hw vs, hw, List.map_cons, List.flatten_cons]
    simp [BitWriter.append]

/-- Codes written in a row by a fresh writer are read back in a row from its bytes. -/
theorem runOn_readMany_foldl {β : Type} {r : BitRead β} {write : BitWriter → β → BitWriter}
    {code : β → List Bool} (hw : ∀ w v, write w v = w.append (code v)) (vs : List β)
    (hr : ∀ v ∈ vs, ∀ o, Reads o r (code v) v) :
    (readMany r vs.length).runOn (vs.foldl write {}).toBytes = .ok vs := by
  have hbits : bitsOf (vs.foldl write {}).toBytes = (vs.map code).flatten ++
      List.replicate ((8 - (vs.map code).flatten.length % 8) % 8) false := by
    rw [BitWriter.toBytes, toList_bits_foldl hw, bitsOf_packBits_pad]
    rfl
  unfold runOn
  rw [Reads.run (Reads.many vs hr 0) hbits]

/-! ## The codec -/

/-- Exp-Golomb writer and reader are inverse on the values whose codes have at most 31 leading
zeros. Unsigned values below `2^32 - 1`, written in a row, are read back in a row, and so are
signed values strictly inside the 32-bit range; each code takes `2 log2 (v + 1) + 1` bits of
its code number `v`. Conversely every code the reader accepts, unsigned or signed, is the
writer's code of the value it decodes, bit for bit, and the reader stops at its end. -/
theorem expGolomb_codec_inverse :
    (∀ vs : List Nat, (∀ v ∈ vs, v < 2 ^ 32 - 1) →
      (readMany readUe vs.length).runOn (vs.foldl BitWriter.writeUe {}).toBytes = .ok vs) ∧
    (∀ vs : List Int, (∀ v ∈ vs, -2 ^ 31 < v ∧ v < 2 ^ 31) →
      (readMany readSe vs.length).runOn (vs.foldl BitWriter.writeSe {}).toBytes = .ok vs) ∧
    (∀ (w : BitWriter) (v : Nat),
      (w.writeUe v).bits.size = w.bits.size + (2 * Nat.log2 (v + 1) + 1)) ∧
    (∀ (w : BitWriter) (v : Int),
      (w.writeSe v).bits.size = w.bits.size + (2 * Nat.log2 (seCodeNum v + 1) + 1)) ∧
    (∀ (data : List UInt8) (k v : Nat) (c : BitCursor), readUe (atBit data k) = .ok v c →
      v < 2 ^ 32 - 1 ∧ c = atBit data (k + (ueBits v).length) ∧
        bitWindow data k (ueBits v).length = ueBits v) ∧
    (∀ (data : List UInt8) (k : Nat) (v : Int) (c : BitCursor), readSe (atBit data k) = .ok v c →
      (-2 ^ 31 < v ∧ v < 2 ^ 31) ∧ c = atBit data (k + (seBits v).length) ∧
        bitWindow data k (seBits v).length = seBits v) := by
  refine ⟨fun vs hvs => ?_, fun vs hvs => ?_, fun w v => ?_, fun w v => ?_,
    fun _ _ _ _ h => readUe_ok h, fun _ _ _ _ h => readSe_ok h⟩
  · exact runOn_readMany_foldl (fun _ _ => rfl) vs fun v hv _ => Reads.ue (hvs v hv)
  · exact runOn_readMany_foldl (fun _ _ => rfl) vs fun v hv _ => Reads.se (hvs v hv).1 (hvs v hv).2
  · simp [BitWriter.writeUe, BitWriter.append, length_ueBits]
  · simp [BitWriter.writeSe, BitWriter.append, seBits, length_ueBits]

/-- Zero, four and the largest value the reader takes, then minus three and the smallest signed
value it takes, as written in a row and read back. -/
theorem expGolomb_codec_inverse_extremes :
    (readMany readUe 3).runOn (([0, 4, 0xFFFFFFFE] : List Nat).foldl BitWriter.writeUe {}).toBytes =
        .ok [0, 4, 0xFFFFFFFE] ∧
      (readMany readSe 2).runOn (([-3, -0x7FFFFFFF] : List Int).foldl BitWriter.writeSe {}).toBytes =
        .ok [-3, -0x7FFFFFFF] :=
  ⟨expGolomb_codec_inverse.1 [0, 4, 0xFFFFFFFE] (by decide),
    expGolomb_codec_inverse.2.1 [-3, -0x7FFFFFFF] (by decide)⟩

/-- The code of `2^32 - 1`, which the writer emits with 32 leading zeros, is refused. -/
theorem readUe_refuses_maxCode :
    (readMany readUe 1).runOn (([0xFFFFFFFF] : List Nat).foldl BitWriter.writeUe {}).toBytes =
      .error (.read (.expGolombOverflow 32)) := by
  decide

end MpegTs
