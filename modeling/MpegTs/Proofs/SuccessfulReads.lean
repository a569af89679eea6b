import MpegTs.Proofs.Readers

/-!
# What a successful read shows

`MpegTs.Proofs.Readers` runs readers forward over bits that a writer produced. This module
goes the other way: a reader that succeeds from a read position `BitCursor.atBit data k` has
consumed bits of `data` that spell its result. Each lemma says what the success of one
combinator guarantees:

* `BitRead.bind_ok`, `BitRead.guard_ok`, `BitRead.pure_ok`, `BitRead.get_ok`,
  `BitRead.ofExcept_ok`, `BitRead.runOn_ok`: a sequence that succeeded succeeded at every
  step, a guard that let it through did not fire, and a run on a byte string of its own
  started at its first bit;
* `BitRead.readBits_ok`, `readFlag_ok`, `skipBits_ok`, `readBytes_ok`: a primitive read moved
  the cursor past the bits it read, and those bits spell the value read;
* `bitWindow_append`, `length_bitWindow`: windows side by side make one window, and a window
  inside the bytes is as long as asked.
-/

namespace MpegTs

open BitCursor

/-! ## Windows of bits -/

theorem length_bitWindow {data : List UInt8} {k n : Nat} (h : n ≤ 8 * data.length - k) :
    (bitWindow data k n).length = n := by
  rw [bitWindow_eq, List.length_take, List.length_drop, length_bitsOf]
  omega

/-- Two windows side by side are one window. -/
theorem bitWindow_append (data : List UInt8) (k m n : Nat) :
    bitWindow data k (m + n) = bitWindow data k m ++ bitWindow data (k + m) n := by
  rw [bitWindow_eq, bitWindow_eq, bitWindow_eq, List.take_add, List.drop_drop]

/-- Blocks of one length, side by side. -/
theorem length_flatten_of_forall {α : Type} {blocks : List (List α)} {m : Nat}
    (h : ∀ b ∈ blocks, b.length = m) : blocks.flatten.length = m * blocks.length := by
  rw [List.length_flatten, List.map_congr_left h, List.map_const', List.sum_replicate_nat,
    Nat.mul_comm]

/-- A window inside the first `m` bytes depends on those bytes only. -/
theorem bitWindow_congr {data data' : List UInt8} {m k n : Nat} (h : data.take m = data'.take m)
    (hk : k + n ≤ 8 * m) : bitWindow data k n = bitWindow data' k n := by
  have hbits : (bitsOf data).take (8 * m) = (bitsOf data').take (8 * m) := by
    rw [← bitsOf_take, ← bitsOf_take, h]
  have hinside : ∀ bits : List Bool, (bits.drop k).take n = ((bits.take (8 * m)).drop k).take n := by
    intro bits
    rw [List.drop_take, List.take_take]
    congr 1
    omega
  rw [bitWindow_eq, bitWindow_eq, hinside, hinside (bitsOf data'), hbits]

/-- A window of `n` blocks of `m` bits is those blocks side by side. -/
theorem bitWindow_blocks (data : List UInt8) (k m : Nat) :
    ∀ n, bitWindow data k (m * n) =
      ((List.range n).map fun i => bitWindow data (k + m * i) m).flatten
  | 0 => by simp [bitWindow_eq]
  | n + 1 => by
    rw [Nat.mul_succ, bitWindow_append, bitWindow_blocks data k m n, List.range_succ,
      List.map_append, List.flatten_append]
    simp

/-- The bits of a byte string: a window that starts it, then the rest. -/
theorem bitsOf_eq_bitWindow_append (data : List UInt8) (n : Nat) :
    bitsOf data = bitWindow data 0 n ++ (bitsOf data).drop n := by
  rw [bitWindow_eq, List.drop_zero, List.take_append_drop]

/-- The bits of the first bytes of a byte string are the window that starts it. -/
theorem bitsOf_take_eq_bitWindow (data : List UInt8) (n : Nat) :
    bitsOf (data.take n) = bitWindow data 0 (8 * n) := by
  rw [bitsOf_take, bitWindow_eq, List.drop_zero]

namespace BitRead

variable {α β : Type}

/-! ## Sequencing -/

/-- A sequence that succeeded succeeded at its first step, and its continuation from there. -/
theorem bind_ok {x : BitRead α} {f : α → BitRead β} {s s' : BitCursor} {v : β}
    (h : (x >>= f) s = .ok v s') : ∃ a s₁, x s = .ok a s₁ ∧ f a s₁ = .ok v s' := by
  change EStateM.bind x f s = _ at h
  unfold EStateM.bind at h
  split at h
  · exact ⟨_, _, ‹_›, h⟩
  · cases h

/-- A mapped reader that succeeded: the reader succeeded where it stopped, and its value
mapped is the result. -/
theorem map_ok {x : BitRead α} {f : α → β} {s s' : BitCursor} {v : β}
    (h : (f <$> x) s = .ok v s') : ∃ a, x s = .ok a s' ∧ f a = v := by
  change EStateM.map f x s = _ at h
  unfold EStateM.map at h
  split at h
  · cases h
    exact ⟨_, ‹_›, rfl⟩
  · cases h

/-- A first step that succeeded hands its result and cursor to the continuation. -/
theorem bind_of_ok {x : BitRead α} {f : α → BitRead β} {s s₁ : BitCursor} {a : α}
    (h : x s = .ok a s₁) : (x >>= f) s = f a s₁ := by
  show EStateM.bind x f s = _
  simp only [EStateM.bind, h]

/-- A guard of a decoder, as `if … then throw …` compiles, let the run through only when it
did not fire. -/
theorem guard_ok {c : Prop} [Decidable c] {e : Error} {k : Unit → BitRead α} {j : BitRead α}
    {s s' : BitCursor} {v : α} (h : (if c then throw e >>= k else j) s = .ok v s') :
    ¬c ∧ j s = .ok v s' := by
  by_cases hc : c
  · rw [if_pos hc] at h
    cases h
  · rw [if_neg hc] at h
    exact ⟨hc, h⟩

theorem pure_ok {a v : α} {s s' : BitCursor} (h : (Pure.pure a : BitRead α) s = .ok v s') :
    v = a ∧ s' = s := by
  cases h
  exact ⟨rfl, rfl⟩

theorem get_bind {f : BitCursor → BitRead α} {s : BitCursor} :
    ((MonadState.get : BitRead BitCursor) >>= f) s = f s s := rfl

theorem get_ok {v s s' : BitCursor} (h : (MonadState.get : BitRead BitCursor) s = .ok v s') :
    v = s ∧ s' = s := by
  cases h
  exact ⟨rfl, rfl⟩

theorem ofExcept_ok {r : Except Error α} {v : α} {s s' : BitCursor}
    (h : (MonadExcept.ofExcept r : BitRead α) s = .ok v s') : r = .ok v ∧ s' = s := by
  cases r with
  | error e => cases h
  | ok a =>
    cases h
    exact ⟨rfl, rfl⟩

/-- A run on a byte string of its own started at its first bit. -/
theorem runOn_ok {r : BitRead α} {data : List UInt8} {v : α} (h : r.runOn data = .ok v) :
    ∃ c, r (atBit data 0) = .ok v c := by
  unfold runOn at h
  split at h
  · cases h
    exact ⟨_, ‹_›⟩
  · cases h

/-! ## Primitive reads -/

variable {data : List UInt8} {k n : Nat} {c : BitCursor}

/-- A read of `n` bits that succeeded read `n` bits that were there, and they spell the value
read. -/
theorem readBits_ok {v : Nat} (h : readBits n (atBit data k) = .ok v c) :
    c = atBit data (k + n) ∧ n ≤ 8 * data.length - k ∧ v < 2 ^ n ∧
      bitWindow data k n = natBits n v := by
  unfold readBits at h
  split at h
  · rename_i hfit
    simp only [bitsRemaining_atBit] at hfit
    have hfit : n ≤ 8 * data.length - k := by omega
    have hlen := length_bitWindow hfit
    cases h
    refine ⟨rfl, hfit, ?_, ?_⟩
    · have hlt := natOfBits_lt (bitWindow data k n)
      rwa [hlen] at hlt
    have hbits := natBits_natOfBits (bitWindow data k n)
    rw [hlen] at hbits
    exact hbits.symm
  · cases h

theorem skipBits_ok {u : Unit} (h : skipBits n (atBit data k) = .ok u c) :
    c = atBit data (k + n) ∧ n ≤ 8 * data.length - k := by
  unfold skipBits at h
  split at h
  · rename_i hfit
    simp only [bitsRemaining_atBit] at hfit
    cases h
    exact ⟨rfl, by omega⟩
  · cases h

/-- A flag that was read is the bit it was read from. -/
theorem readFlag_ok {b : Bool} (h : readFlag (atBit data k) = .ok b c) :
    c = atBit data (k + 1) ∧ 1 ≤ 8 * data.length - k ∧ bitWindow data k 1 = [b] := by
  obtain ⟨v, c₁, hv, hb⟩ := bind_ok h
  obtain ⟨rfl, hfit, hlt, hwin⟩ := readBits_ok hv
  obtain ⟨rfl, rfl⟩ := pure_ok hb
  refine ⟨rfl, hfit, ?_⟩
  -- one bit spells `0` or `1`
  rw [hwin]
  rcases v with _ | _ | v
  · rfl
  · rfl
  · omega

/-- Whole bytes read from a byte boundary are the bytes there. -/
theorem readBytes_ok {v : List UInt8} (h : readBytes n (atBit data k) = .ok v c) :
    k % 8 = 0 ∧ c = atBit data (k + 8 * n) ∧ k / 8 + n ≤ data.length ∧
      v = (data.drop (k / 8)).take n := by
  unfold readBytes at h
  split at h
  · cases h
  · rename_i haligned
    have hk : k % 8 = 0 := by
      simp [isByteAligned, atBit, windowAfter] at haligned
      omega
    split at h
    · rename_i hfit
      -- the bytes were there, and the skip over them went through
      obtain ⟨u, hskip, rfl⟩ := map_ok h
      obtain ⟨rfl, -⟩ := skipBits_ok hskip
      exact ⟨hk, rfl, by simpa using hfit, rfl⟩
    · cases h

end BitRead

end MpegTs
