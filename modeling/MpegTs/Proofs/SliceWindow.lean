import MpegTs.Avc.Nal
import MpegTs.Proofs.ExpGolomb

/-!
# The window of a slice header

A slice header's first three fields are decoded from the first 32 bytes of the slice's body,
emulation prevention removed from those bytes only. The window never changes a decode that
succeeds: `SliceHeader.ofBody_ok_iff_whole_body` says the header decodes from the window exactly
when it decodes, to the same fields, from the whole body with emulation prevention removed.

Two facts carry it.

* The scan that removes emulation prevention writes a prefix of its output from a prefix of its
  input (`removeEmulationPrevention.go_take_prefix`), so what decodes from the window decodes from
  the whole body.
* A dropped `03` needs two zero bytes written since the last drop, so input is at most half as
  long again as the output between two nonzero output bytes, less one for the nonzero byte
  (`removeEmulationPrevention.split_after_nonzero`, `length_le_of_cuts`). The three codes of a
  header that decodes end with their stop bits in nonzero bytes at most eight bytes apart, the
  first within four bytes of the start and the header within five bytes after the last. Such
  output cannot be made from 32 input bytes without covering the whole header
  (`length_ge_of_stopBytes`); the bound is reached at 31 bytes.
-/

namespace MpegTs

open BitCursor BitRead

namespace removeEmulationPrevention

/-! ## The scan on part of its input -/

/-- The scan of the first bytes of a byte string writes the first bytes of its output. -/
theorem go_take_prefix : ∀ (z : Nat) (xs : List UInt8) (n : Nat), go z (xs.take n) <+: go z xs
  | _, [], n => by simp [go]
  | z, b :: rest, 0 => by simp [go]
  | z, b :: rest, n + 1 => by
    rw [List.take_succ_cons]
    by_cases h : 2 ≤ z ∧ b = 3
    · simp only [go, if_pos h]
      exact go_take_prefix 0 rest n
    · simp only [go, if_neg h]
      exact List.cons_prefix_cons.2 ⟨rfl, go_take_prefix _ rest n⟩

/-- Each dropped byte follows two zero bytes written since the count was last reset, so the input
is at most half as long again as the output, with the zeros already counted as credit. -/
theorem two_mul_length_le : ∀ (z : Nat) (xs : List UInt8),
    2 * xs.length ≤ 3 * (go z xs).length + min z 2
  | z, [] => by simp [go]
  | z, b :: rest => by
    by_cases h : 2 ≤ z ∧ b = 3
    · have ih := two_mul_length_le 0 rest
      simp only [go, if_pos h, List.length_cons]
      omega
    · have ih := two_mul_length_le (if b = 0 then z + 1 else 0) rest
      have hz : min (if b = 0 then z + 1 else 0) 2 ≤ min z 2 + 1 := by split <;> omega
      simp only [go, if_neg h, List.length_cons]
      omega

/-- The input splits right after the byte that a nonzero output byte was copied from: the part
before makes the output up to that byte, at most half as long again less one, and the part after
is scanned afresh. -/
theorem split_after_nonzero {x : UInt8} (hx0 : x ≠ 0) :
    ∀ {z : Nat} {xs : List UInt8} {j : Nat}, (go z xs)[j]? = some x →
      ∃ T V, xs = T ++ V ∧ 2 * T.length + 1 ≤ 3 * (j + 1) + min z 2 ∧
        go 0 V = (go z xs).drop (j + 1)
  | _, [], _, hx => by simp [go] at hx
  | z, b :: rest, j, hx => by
    by_cases h : 2 ≤ z ∧ b = 3
    · -- the byte is dropped and the scan starts afresh on the rest
      rw [show go z (b :: rest) = go 0 rest by simp only [go, if_pos h]] at hx ⊢
      obtain ⟨T, V, rfl, hT, hV⟩ := split_after_nonzero hx0 hx
      refine ⟨b :: T, V, rfl, ?_, hV⟩
      simp only [List.length_cons]
      omega
    · have hgo : go z (b :: rest) = b :: go (if b = 0 then z + 1 else 0) rest := by
        simp only [go, if_neg h]
      rw [hgo] at hx ⊢
      cases j with
      | zero =>
        -- the nonzero byte is `b` itself, after which the count is reset
        have hb : b = x := by simpa using hx
        subst hb
        refine ⟨[b], rest, rfl, by simp, ?_⟩
        rw [if_neg hx0]
        rfl
      | succ j =>
        obtain ⟨T, V, rfl, hT, hV⟩ := split_after_nonzero hx0 (by simpa using hx)
        refine ⟨b :: T, V, rfl, ?_, by rw [hV, List.drop_succ_cons]⟩
        simp only [List.length_cons]
        split at hT <;> omega

/-! ## Cutting the output after nonzero bytes -/

/-- Cuts of an output at the given distances, one after another, each right after a nonzero
byte or where the cut before it was; a cut that falls past the end of the output asks nothing. -/
def CutsAt : List Nat → List UInt8 → Prop
  | [], _ => True
  | c :: cs, out => c ≤ out.length → (out.take c).getLast? ≠ some 0 ∧ CutsAt cs (out.drop c)

/-- The output bytes that the cuts pass over. -/
def cutsSpan : List Nat → Nat
  | [] => 0
  | c :: cs => c + cutsSpan cs

/-- The most input bytes that the output between the cuts can be scanned from: half as many again
as each stretch, less one for the nonzero byte that ends it. -/
def cutsCost : List Nat → Nat
  | [] => 0
  | c :: cs => (3 * c - 1) / 2 + cutsCost cs

/-- The last of the first `c` bytes of a byte string, for a cut inside it. -/
theorem getLast?_take {l : List UInt8} {c : Nat} (hpos : 0 < c) (hc : c ≤ l.length) :
    (l.take c).getLast? = l[c - 1]? := by
  rw [List.getLast?_eq_getElem?, List.length_take, Nat.min_eq_left hc, List.getElem?_take,
    if_pos (by omega)]

/-- Input scanned afresh whose output is cut after nonzero bytes, and ends within three bytes of
the last cut, is no longer than the cost of the cuts and four more bytes. -/
theorem length_le_of_cuts : ∀ (cs : List Nat) (xs : List UInt8),
    CutsAt cs (go 0 xs) → (go 0 xs).length ≤ cutsSpan cs + 3 → xs.length ≤ cutsCost cs + 4
  | [], xs, _, hlen => by
    have := two_mul_length_le 0 xs
    simp only [cutsSpan, cutsCost] at hlen ⊢
    omega
  | c :: cs, xs, hcuts, hlen => by
    simp only [cutsSpan, cutsCost] at hlen ⊢
    by_cases hc : c ≤ (go 0 xs).length
    · obtain ⟨hlast, hrest⟩ := hcuts hc
      rcases Nat.eq_zero_or_pos c with rfl | hpos
      · -- a cut where the one before was
        rw [List.drop_zero] at hrest
        have := length_le_of_cuts cs xs hrest (by omega)
        omega
      · -- split the input after the byte that the cut follows
        obtain ⟨x, hx⟩ : ∃ x, (go 0 xs)[c - 1]? = some x :=
          ⟨_, List.getElem?_eq_getElem (by omega)⟩
        have hx0 : x ≠ 0 := by
          rintro rfl
          exact hlast (by rw [getLast?_take hpos hc, hx])
        obtain ⟨T, V, rfl, hT, hV⟩ := split_after_nonzero hx0 hx
        rw [Nat.sub_add_cancel hpos] at hT hV
        have hVlen : (go 0 V).length = (go 0 (T ++ V)).length - c := by
          rw [hV, List.length_drop]
        have := length_le_of_cuts cs V (hV ▸ hrest) (by omega)
        rw [List.length_append]
        omega
    · -- the output ends before the cut
      have := two_mul_length_le 0 xs
      omega

/-- Output scanned from 32 input bytes with nonzero bytes at `b₁ ≤ 3`, `b₂` and `b₃`, each at
most eight after the one before, wherever it reaches them, runs at least five bytes past `b₃`. -/
theorem length_ge_of_stopBytes {p : List UInt8} (hp : p.length = 32) {b₁ b₂ b₃ : Nat}
    (h₁ : b₁ ≤ 3) (h₂ : b₁ ≤ b₂ ∧ b₂ ≤ b₁ + 8) (h₃ : b₂ ≤ b₃ ∧ b₃ ≤ b₂ + 8)
    (hnz : ∀ b ∈ [b₁, b₂, b₃], ∀ x, (go 0 p)[b]? = some x → x ≠ 0) :
    b₃ + 5 ≤ (go 0 p).length := by
  -- a cut `a` bytes into the output, right after a nonzero byte or where the cut before it was
  have hcut : ∀ {a c : Nat}, a + c - 1 ∈ [b₁, b₂, b₃] → c ≤ ((go 0 p).drop a).length →
      (((go 0 p).drop a).take c).getLast? ≠ some 0 := by
    intro a c hmem hc hlast
    rcases Nat.eq_zero_or_pos c with rfl | hpos
    · simp at hlast
    · rw [getLast?_take hpos hc, List.getElem?_drop, show a + (c - 1) = a + c - 1 by omega]
        at hlast
      exact hnz _ hmem 0 hlast rfl
  have hcuts : CutsAt [b₁ + 1, b₂ - b₁, b₃ - b₂] (go 0 p) := by
    refine fun hc₁ => ⟨?_, fun hc₂ => ⟨?_, fun hc₃ => ⟨?_, trivial⟩⟩⟩
    · have h := hcut (a := 0) (c := b₁ + 1) (by simp) (by simpa using hc₁)
      rwa [List.drop_zero] at h
    · exact hcut (by rw [show b₁ + 1 + (b₂ - b₁) - 1 = b₂ by omega]; simp) hc₂
    · rw [List.drop_drop] at hc₃ ⊢
      exact hcut (by rw [show b₁ + 1 + (b₂ - b₁) + (b₃ - b₂) - 1 = b₃ by omega]; simp) hc₃
  by_contra hshort
  have hbound := length_le_of_cuts _ p hcuts (by simp only [cutsSpan]; omega)
  simp only [cutsCost] at hbound
  omega

end removeEmulationPrevention

/-! ## Slice headers and their bits -/

/-- An element of a list is the element at the same place of any list it starts. -/
theorem getElem?_of_starts {l₁ l₂ : List α} (h : l₁ <+: l₂) {i : Nat} {x : α}
    (hx : l₁[i]? = some x) : l₂[i]? = some x := by
  obtain ⟨hi, rfl⟩ := List.getElem?_eq_some_iff.1 hx
  exact List.prefix_iff_getElem?.1 h i hi

namespace SliceHeader

/-- The three codes a slice header starts with. -/
def bits (h : SliceHeader) : List Bool := ueBits h.firstMb ++ ueBits h.sliceType ++ ueBits h.ppsId

/-- Fields whose codes the reader accepts: each below `2^32 - 1`. -/
def Fits (h : SliceHeader) : Prop :=
  h.firstMb < 2 ^ 32 - 1 ∧ h.sliceType < 2 ^ 32 - 1 ∧ h.ppsId < 2 ^ 32 - 1

theorem reads_read {o : Nat} {h : SliceHeader} (hf : h.Fits) : Reads o read h.bits h := by
  rw [bits, List.append_assoc]
  unfold read
  exact Reads.bind (Reads.ue hf.1) (Reads.bind (Reads.ue hf.2.1)
    (Reads.bind_last (Reads.ue hf.2.2) rfl))

/-- A header that was read has fields that fit, and the bits it was read from are its codes. -/
theorem read_ok {data : List UInt8} {k : Nat} {h : SliceHeader} {c : BitCursor}
    (hr : read (atBit data k) = .ok h c) :
    h.Fits ∧ c = atBit data (k + h.bits.length) ∧ bitWindow data k h.bits.length = h.bits := by
  unfold read at hr
  obtain ⟨a, c₁, hra, hr₁⟩ := bind_ok hr
  obtain ⟨ha, rfl, hwa⟩ := readUe_ok hra
  obtain ⟨b, c₂, hrb, hr₂⟩ := bind_ok hr₁
  obtain ⟨hb, rfl, hwb⟩ := readUe_ok hrb
  obtain ⟨d, c₃, hrd, hr₃⟩ := bind_ok hr₂
  obtain ⟨hd, rfl, hwd⟩ := readUe_ok hrd
  obtain ⟨rfl, rfl⟩ := pure_ok hr₃
  refine ⟨⟨ha, hb, hd⟩, by simp [bits, Nat.add_assoc], ?_⟩
  simp only [bits, List.length_append]
  rw [bitWindow_append, bitWindow_append, hwa, hwb, ← Nat.add_assoc, hwd]

/-- A header decodes from a byte string exactly when its fields fit and their codes start the
byte string's bits. -/
theorem runOn_read_eq_ok {data : List UInt8} {h : SliceHeader} :
    read.runOn data = .ok h ↔ h.Fits ∧ h.bits <+: bitsOf data := by
  constructor
  · intro hr
    obtain ⟨c, hr⟩ := runOn_ok hr
    obtain ⟨hf, hc, hwin⟩ := read_ok hr
    have hsplit := bitsOf_eq_bitWindow_append data h.bits.length
    rw [hwin] at hsplit
    exact ⟨hf, ⟨_, hsplit.symm⟩⟩
  · rintro ⟨hf, rest, hrest⟩
    unfold runOn
    rw [Reads.run (reads_read hf) hrest.symm]

/-- Decoding from the first 32 bytes of a body is decoding their bytes with emulation prevention
removed, its faults reported against the NAL unit type. -/
theorem ofBody_eq_ok_iff {nalType : Nat} {body : List UInt8} {h : SliceHeader} :
    ofBody nalType body = .ok h ↔ read.runOn (removeEmulationPrevention (body.take 32)) = .ok h := by
  unfold ofBody
  split
  · rename_i _ hrun
    rw [hrun]
  · rename_i _ hrun
    rw [hrun]
    simp
  · rename_i _ _ hrun
    rw [hrun]

/-- The bit at the stop of the code of `v`. -/
theorem getElem?_ueBits_stop (v : Nat) : (ueBits v)[Nat.log2 (v + 1)]? = some true := by
  rw [ueBits_eq, List.getElem?_append_right (by simp)]
  simp

/-- A set bit of a byte string lies in a nonzero byte. -/
theorem ne_zero_of_getElem?_bitsOf {bytes : List UInt8} {P : Nat}
    (hP : (bitsOf bytes)[P]? = some true) : ∃ x, bytes[P / 8]? = some x ∧ x ≠ 0 := by
  have hlt : P < 8 * bytes.length := by
    have := (List.getElem?_eq_some_iff.1 hP).1
    rwa [length_bitsOf] at this
  obtain ⟨x, hx⟩ : ∃ x, bytes[P / 8]? = some x := ⟨_, List.getElem?_eq_getElem (by omega)⟩
  refine ⟨x, hx, ?_⟩
  rintro rfl
  -- the eight bits of the byte that holds bit `P` are those of a zero byte
  have hbyte : (bytes.drop (P / 8)).take 1 = [0] := by
    rw [List.take_one, List.head?_drop, hx]
    rfl
  have hwin := bitsOf_take (bytes.drop (P / 8)) 1
  rw [hbyte, bitsOf_drop] at hwin
  have hbit : ((bitsOf bytes).drop (8 * (P / 8))).take (8 * 1) = List.replicate 8 false := by
    rw [← hwin]
    rfl
  have hget := congrArg (·[P % 8]?) hbit
  simp only [List.getElem?_take, List.getElem?_drop, List.getElem?_replicate] at hget
  rw [if_pos (by omega), show 8 * (P / 8) + P % 8 = P by omega, hP, if_pos (by omega)] at hget
  cases hget

/-- The stop bits of the three codes of a header: each code's first set bit, after its
leading zeros. -/
theorem getElem?_bits_stop (h : SliceHeader) :
    h.bits[Nat.log2 (h.firstMb + 1)]? = some true ∧
      h.bits[(2 * Nat.log2 (h.firstMb + 1) + 1) + Nat.log2 (h.sliceType + 1)]? = some true ∧
      h.bits[(2 * Nat.log2 (h.firstMb + 1) + 1) + (2 * Nat.log2 (h.sliceType + 1) + 1) +
        Nat.log2 (h.ppsId + 1)]? = some true := by
  refine ⟨?_, ?_, ?_⟩
  · rw [bits, List.append_assoc, List.getElem?_append_left (by rw [length_ueBits]; omega),
      getElem?_ueBits_stop]
  · rw [bits, List.append_assoc, List.getElem?_append_right (by rw [length_ueBits]; omega),
      length_ueBits, Nat.add_sub_cancel_left,
      List.getElem?_append_left (by rw [length_ueBits]; omega), getElem?_ueBits_stop]
  · rw [bits, List.getElem?_append_right (by simp only [List.length_append, length_ueBits]; omega),
      List.length_append, length_ueBits, length_ueBits, Nat.add_sub_cancel_left,
      getElem?_ueBits_stop]

/-- The codes of a header that start the bits of the scanned body fit inside the scan of its
first 32 bytes. -/
theorem length_bits_le_of_prefix {h : SliceHeader} (hf : h.Fits) {body : List UInt8}
    (hlong : 32 ≤ body.length) (hpre : h.bits <+: bitsOf (removeEmulationPrevention body)) :
    h.bits.length ≤ 8 * (removeEmulationPrevention (body.take 32)).length := by
  obtain ⟨ha, hb, hd⟩ := hf
  have za := log2_lt_of_lt ha
  have zb := log2_lt_of_lt hb
  have zd := log2_lt_of_lt hd
  have hRpR : removeEmulationPrevention (body.take 32) <+: removeEmulationPrevention body :=
    removeEmulationPrevention.go_take_prefix 0 body 32
  -- a stop bit lies in a nonzero byte of the whole scan, which is the byte of the window's scan
  -- wherever that scan reaches it
  have hstop : ∀ P, h.bits[P]? = some true →
      ∀ x, (removeEmulationPrevention.go 0 (body.take 32))[P / 8]? = some x → x ≠ 0 := by
    intro P hP x hx
    obtain ⟨y, hy, hy0⟩ := ne_zero_of_getElem?_bitsOf (getElem?_of_starts hpre hP)
    rw [getElem?_of_starts hRpR hx] at hy
    cases hy
    exact hy0
  obtain ⟨hs₁, hs₂, hs₃⟩ := getElem?_bits_stop h
  have hnz : ∀ b ∈ [Nat.log2 (h.firstMb + 1) / 8,
      ((2 * Nat.log2 (h.firstMb + 1) + 1) + Nat.log2 (h.sliceType + 1)) / 8,
      ((2 * Nat.log2 (h.firstMb + 1) + 1) + (2 * Nat.log2 (h.sliceType + 1) + 1) +
        Nat.log2 (h.ppsId + 1)) / 8],
      ∀ x, (removeEmulationPrevention.go 0 (body.take 32))[b]? = some x → x ≠ 0 := by
    intro b hmem
    simp only [List.mem_cons, List.not_mem_nil, or_false] at hmem
    rcases hmem with rfl | rfl | rfl
    exacts [hstop _ hs₁, hstop _ hs₂, hstop _ hs₃]
  have hcount := removeEmulationPrevention.length_ge_of_stopBytes
    (by rw [List.length_take]; omega) (by omega) ⟨by omega, by omega⟩ ⟨by omega, by omega⟩ hnz
  have hlen : h.bits.length =
      (2 * Nat.log2 (h.firstMb + 1) + 1) + (2 * Nat.log2 (h.sliceType + 1) + 1) +
        (2 * Nat.log2 (h.ppsId + 1) + 1) := by
    simp only [bits, List.length_append, length_ueBits]
  have : (removeEmulationPrevention (body.take 32)).length =
      (removeEmulationPrevention.go 0 (body.take 32)).length := rfl
  omega

/-- The 32-byte window never changes a successful decode: a slice header decodes from the
first 32 bytes of a body, emulation prevention removed from them, exactly when it decodes to the
same fields from the whole body with emulation prevention removed. -/
theorem ofBody_ok_iff_whole_body (nalType : Nat) (body : List UInt8) (h : SliceHeader) :
    ofBody nalType body = .ok h ↔ read.runOn (removeEmulationPrevention body) = .ok h := by
  rw [ofBody_eq_ok_iff, runOn_read_eq_ok, runOn_read_eq_ok]
  by_cases hlong : 32 ≤ body.length
  · have hRpR : bitsOf (removeEmulationPrevention (body.take 32)) <+:
        bitsOf (removeEmulationPrevention body) := by
      obtain ⟨t, ht⟩ := removeEmulationPrevention.go_take_prefix 0 body 32
      exact ⟨bitsOf t, by rw [← bitsOf_append]; exact congrArg bitsOf ht⟩
    constructor
    · rintro ⟨hf, hpre⟩
      exact ⟨hf, hpre.trans hRpR⟩
    · rintro ⟨hf, hpre⟩
      refine ⟨hf, List.prefix_of_prefix_length_le hpre hRpR ?_⟩
      rw [length_bitsOf]
      exact length_bits_le_of_prefix hf hlong hpre
  · rw [List.take_of_length_le (by omega)]

end SliceHeader

end MpegTs
