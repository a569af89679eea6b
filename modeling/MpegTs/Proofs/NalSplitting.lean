import MpegTs.Avc.Nal
import Mathlib.Data.List.Infix

/-!
# NAL units are cut exactly at their start codes

`nalUnits d` finds the first start code `S = 00 00 01` of `d`, takes the bytes up to the
next one, drops their trailing zero bytes and goes on from that next start code. Its
recursion drops at least a start code at each step, so it ends on every buffer. This module
shows what it computes: the unique way of writing

  `d = p S n₁ z₁ S n₂ z₂ ⋯ S nₘ zₘ`

where no start code occurs in `p` or in any `nᵢ zᵢ` other than the `m` shown (so `m` is the
number of start codes in `d`), each `zᵢ` is a run of zero bytes and each `nᵢ` is empty or
ends in a non-zero byte; `nalUnits d` is `n₁, …, nₘ`.

`NalSplit` states such a decomposition as a reader would: a start code occurs in `p S` and in
`nᵢ zᵢ S` (for `i < m`) only as its last three bytes, and not at all in `nₘ zₘ`. Those
conditions say no more than "no start code in `p` and in each `nᵢ zᵢ`"
(`onlyAsSuffix_append_iff`): a start code cannot straddle a boundary, since `S` begins with
two zeros and ends with a one, so it overlaps no other start code nor a run of zeros before
one.

## Main statements

* `startCodeAt_append`: where start codes stand in `w S r`.
* `nalUnits_blocks`: `nalUnits` of a decomposition gives its `nᵢ`.
* `exists_blocks`, `blocks_unique`: every buffer has one decomposition, and only one.
* `nalUnits_startCode_split`: the statement as a whole.
-/

namespace MpegTs

/-! ## Start codes and where they occur -/

/-- The three-byte start code `00 00 01`. -/
def nalStartCode : List UInt8 := [0, 0, 1]

/-- A start code begins at byte `i` of `w`. -/
def startCodeAt (w : List UInt8) (i : Nat) : Bool := startsWithStartCode (w.drop i)

/-- No start code occurs in `w`. -/
def NoStartCode (w : List UInt8) : Prop := ∀ i, startCodeAt w i = false

/-- A start code occurs in `w` only as its last three bytes. -/
def OnlyAsSuffix (w : List UInt8) : Prop := ∀ i, startCodeAt w i = true → i + 3 = w.length

/-- The occurrences of the start code in `w`: the suffixes of `w` that begin with one. -/
def startCodeCount (w : List UInt8) : Nat := w.tails.countP startsWithStartCode

/-- The bytes `S n z` of each unit `(n, z)`, in order. -/
def startCodeBlocks (units : List (List UInt8 × List UInt8)) : List UInt8 :=
  units.flatMap fun u => nalStartCode ++ u.1 ++ u.2

/-- `d` written as `lead S n₁ z₁ ⋯ S nₘ zₘ` for `units = [(n₁, z₁), …, (nₘ, zₘ)]`, with the start
codes exactly where the decomposition puts them, each `zᵢ` a run of zeros and each `nᵢ` empty
or ending in a non-zero byte. -/
structure NalSplit (d lead : List UInt8) (units : List (List UInt8 × List UInt8)) : Prop where
  bytes : d = lead ++ startCodeBlocks units
  lead_onlyAsSuffix : OnlyAsSuffix (lead ++ nalStartCode)
  inner_onlyAsSuffix : ∀ u ∈ units.dropLast, OnlyAsSuffix (u.1 ++ u.2 ++ nalStartCode)
  last_noStartCode : ∀ u ∈ units.getLast?, NoStartCode (u.1 ++ u.2)
  zeros : ∀ u ∈ units, ∀ b ∈ u.2, b = 0
  -- `getLast? ≠ some 0`: empty, or ending in a byte other than zero
  trimmed : ∀ u ∈ units, u.1.getLast? ≠ some 0

@[simp] theorem startCodeAt_nil (i : Nat) : startCodeAt [] i = false := by
  simp [startCodeAt, startsWithStartCode]

@[simp] theorem startCodeAt_cons_succ (b : UInt8) (w : List UInt8) (i : Nat) :
    startCodeAt (b :: w) (i + 1) = startCodeAt w i := rfl

theorem startCodeAt_zero (w : List UInt8) : startCodeAt w 0 = startsWithStartCode w := rfl

theorem startCodeAt_of_length_le {w : List UInt8} {i : Nat} (h : w.length ≤ i) :
    startCodeAt w i = false := by
  rw [startCodeAt, List.drop_eq_nil_of_le h]
  rfl

theorem startsWithStartCode_iff {w : List UInt8} :
    startsWithStartCode w = true ↔ ∃ r, w = nalStartCode ++ r := by
  match w with
  | [] | [_] | [_, _] => simp [startsWithStartCode, nalStartCode]
  | a :: b :: c :: r => simp [startsWithStartCode, nalStartCode, and_assoc]

/-- What is left of a start code after its first byte, or its first two, begins none. -/
theorem startsWithStartCode_zero_one (r : List UInt8) : startsWithStartCode (0 :: 1 :: r) = false := by
  cases r <;> rfl

theorem startsWithStartCode_one (r : List UInt8) : startsWithStartCode (1 :: r) = false := by
  rcases r with _ | ⟨b, _ | ⟨c, r⟩⟩ <;> rfl

/-- A start code begins `t S r` exactly at its start, when `t` is empty, or where one begins
`t`: the start code behind `t` cannot begin earlier, as its third byte would then be a zero. -/
theorem startsWithStartCode_append (t r : List UInt8) :
    startsWithStartCode (t ++ nalStartCode ++ r) = true ↔ t = [] ∨ startsWithStartCode t = true := by
  match t with
  | [] | [_] | [_, _] => simp [startsWithStartCode, nalStartCode]
  | a :: b :: c :: t => simp [startsWithStartCode]

/-- Up to the end of `w`, the start codes of `w S r` are those of `w` and the one behind it. -/
theorem startCodeAt_append_of_le {w r : List UInt8} {i : Nat} (hi : i ≤ w.length) :
    startCodeAt (w ++ nalStartCode ++ r) i = true ↔ startCodeAt w i = true ∨ i = w.length := by
  have hempty : w.drop i = [] ↔ i = w.length := by rw [List.drop_eq_nil_iff]; omega
  rw [startCodeAt, List.append_assoc, List.drop_append_of_le_length hi, ← List.append_assoc,
    startsWithStartCode_append, hempty, startCodeAt, or_comm]

/-- The second and third bytes of `S`, `0 1 …` and `1 …`, begin no start code. -/
theorem startCodeAt_append_inside {w r : List UInt8} {i : Nat} (h₁ : w.length < i)
    (h₂ : i < w.length + 3) : startCodeAt (w ++ nalStartCode ++ r) i = false := by
  obtain ⟨k, hk, rfl⟩ : ∃ k, (k = 1 ∨ k = 2) ∧ i = w.length + k := ⟨i - w.length, by omega, by omega⟩
  rw [startCodeAt, List.append_assoc, List.drop_append, List.drop_eq_nil_of_le (by omega),
    List.nil_append, Nat.add_sub_cancel_left]
  rcases hk with rfl | rfl
  · exact startsWithStartCode_zero_one r
  · exact startsWithStartCode_one r

/-- Past `S`, the start codes of `w S r` are those of `r`. -/
theorem startCodeAt_append_of_ge {w r : List UInt8} {i : Nat} (hi : w.length + 3 ≤ i) :
    startCodeAt (w ++ nalStartCode ++ r) i = startCodeAt r (i - (w.length + 3)) := by
  have hlen : (w ++ nalStartCode).length = w.length + 3 := by simp [nalStartCode]
  rw [startCodeAt, List.drop_append, List.drop_eq_nil_of_le (by omega), List.nil_append, hlen,
    startCodeAt]

/-- Where start codes stand in `w S r`: those of `w`, the one at `w.length`, and those of `r`
moved past it. -/
theorem startCodeAt_append (w r : List UInt8) (i : Nat) :
    startCodeAt (w ++ nalStartCode ++ r) i = true ↔
      startCodeAt w i = true ∨ i = w.length ∨
        (w.length + 3 ≤ i ∧ startCodeAt r (i - (w.length + 3)) = true) := by
  rcases Nat.lt_or_ge w.length i with hlt | hle
  · -- past `w`: inside `S` there is none, and after it `r` follows
    have hw : startCodeAt w i = false := startCodeAt_of_length_le hlt.le
    by_cases hpast : w.length + 3 ≤ i
    · rw [startCodeAt_append_of_ge hpast]
      simp [hw, hpast, hlt.ne']
    · rw [startCodeAt_append_inside hlt (by omega)]
      simp [hw, hpast, hlt.ne']
  · have hbefore : ¬ w.length + 3 ≤ i := by omega
    rw [startCodeAt_append_of_le hle]
    simp only [hbefore, false_and, or_false]

/-- A start code in `w S` stands only at its end exactly when `w` has none. -/
theorem onlyAsSuffix_append_iff (w : List UInt8) :
    OnlyAsSuffix (w ++ nalStartCode) ↔ NoStartCode w := by
  have hat := fun i => startCodeAt_append w [] i
  rw [List.append_nil] at hat
  constructor
  · intro h i
    by_contra hne
    have hi := h i ((hat i).2 (.inl (by simpa using hne)))
    rw [List.length_append, show nalStartCode.length = 3 from rfl] at hi
    have hlen : i = w.length := by omega
    rw [hlen, startCodeAt_of_length_le (le_refl _)] at hne
    exact hne rfl
  · intro h i hi
    rcases (hat i).1 hi with hw | rfl | ⟨-, hr⟩
    · rw [h i] at hw
      cases hw
    · simp [nalStartCode]
    · rw [startCodeAt_nil] at hr
      cases hr

/-- Below its length `w` is all there is to check. -/
theorem noStartCode_iff (w : List UInt8) :
    NoStartCode w ↔ ∀ i < w.length, startCodeAt w i = false :=
  ⟨fun h i _ => h i, fun h i => if hi : i < w.length then h i hi else startCodeAt_of_length_le (by omega)⟩

theorem onlyAsSuffix_iff (w : List UInt8) :
    OnlyAsSuffix w ↔ ∀ i < w.length, startCodeAt w i = true → i + 3 = w.length := by
  refine ⟨fun h i _ => h i, fun h i hi => ?_⟩
  by_cases hlt : i < w.length
  · exact h i hlt hi
  · rw [startCodeAt_of_length_le (by omega)] at hi
    cases hi

instance : DecidablePred NoStartCode := fun w => decidable_of_iff _ (noStartCode_iff w).symm

instance : DecidablePred OnlyAsSuffix := fun w => decidable_of_iff _ (onlyAsSuffix_iff w).symm

theorem noStartCode_cons {b : UInt8} {w : List UInt8} (h : NoStartCode (b :: w)) : NoStartCode w :=
  fun i => h (i + 1)

/-- A start code in the first `n` bytes of `w` is one of `w`, before `n`. -/
theorem startCodeAt_of_take {w : List UInt8} {n i : Nat} (h : startCodeAt (w.take n) i = true) :
    i < n ∧ startCodeAt w i = true := by
  have hlen : i < (w.take n).length := by
    by_contra hge
    rw [startCodeAt_of_length_le (Nat.le_of_not_lt hge)] at h
    cases h
  rw [List.length_take] at hlen
  obtain ⟨r, hr⟩ := startsWithStartCode_iff.1 h
  have hdrop : w.drop i = (w.take n).drop i ++ w.drop n := by
    conv_lhs => rw [← List.take_append_drop n w]
    rw [List.drop_append_of_le_length (by rw [List.length_take]; omega)]
  refine ⟨by omega, startsWithStartCode_iff.2 ⟨r ++ w.drop n, ?_⟩⟩
  rw [hdrop, hr, List.append_assoc]

/-! ## The first start code -/

theorem noStartCode_of_findStartCodeFrom {k : Nat} {w : List UInt8}
    (h : findStartCodeFrom k w = none) : NoStartCode w := by
  induction w generalizing k with
  | nil => exact startCodeAt_nil
  | cons b w ih =>
    rw [findStartCodeFrom] at h
    split at h
    · cases h
    · rename_i hs
      intro i
      cases i with
      | zero => simpa [startCodeAt_zero] using hs
      | succ i => exact ih h i

/-- What the scan finds is the first start code. -/
theorem first_of_findStartCodeFrom {k p : Nat} {w : List UInt8}
    (h : findStartCodeFrom k w = some p) :
    k ≤ p ∧ startCodeAt w (p - k) = true ∧ ∀ j < p - k, startCodeAt w j = false := by
  induction w generalizing k with
  | nil => cases h
  | cons b w ih =>
    rw [findStartCodeFrom] at h
    split at h
    · rename_i hs
      cases h
      exact ⟨Nat.le_refl _, by simpa [startCodeAt_zero] using hs, fun j hj => absurd hj (by omega)⟩
    · rename_i hs
      obtain ⟨hle, hat, hbefore⟩ := ih h
      have hshift : p - k = p - (k + 1) + 1 := by omega
      refine ⟨by omega, by rw [hshift, startCodeAt_cons_succ]; exact hat, fun j hj => ?_⟩
      cases j with
      | zero => simpa [startCodeAt_zero] using hs
      | succ j => exact hbefore j (by omega)

theorem findStartCode_eq_none {w : List UInt8} (h : NoStartCode w) : findStartCode w = none := by
  cases hf : findStartCode w with
  | none => rfl
  | some p =>
    have hat := (first_of_findStartCodeFrom hf).2.1
    rw [h] at hat
    cases hat

theorem findStartCode_eq_some {w : List UInt8} {pos : Nat} (hat : startCodeAt w pos = true)
    (hbefore : ∀ j < pos, startCodeAt w j = false) : findStartCode w = some pos := by
  cases hf : findStartCode w with
  | none =>
    rw [noStartCode_of_findStartCodeFrom hf pos] at hat
    cases hat
  | some p =>
    obtain ⟨-, hp, hpbefore⟩ := first_of_findStartCodeFrom hf
    rw [Nat.sub_zero] at hp hpbefore
    rcases Nat.lt_trichotomy p pos with hlt | rfl | hgt
    · rw [hbefore p hlt] at hp
      cases hp
    · rfl
    · rw [hpbefore pos hgt] at hat
      cases hat

/-- The first start code of a decomposition is the one after its lead, if it has a unit. -/
theorem findStartCode_blocks {w : List UInt8} (hw : NoStartCode w)
    (units : List (List UInt8 × List UInt8)) :
    findStartCode (w ++ startCodeBlocks units) = if units = [] then none else some w.length := by
  cases units with
  | nil => simpa [startCodeBlocks] using findStartCode_eq_none hw
  | cons u us =>
    have hblocks : w ++ startCodeBlocks (u :: us) =
        w ++ nalStartCode ++ (u.1 ++ u.2 ++ startCodeBlocks us) := by
      simp [startCodeBlocks]
    rw [if_neg (List.cons_ne_nil u us), hblocks]
    refine findStartCode_eq_some ((startCodeAt_append _ _ _).2 (.inr (.inl rfl))) fun j hj => ?_
    rw [Bool.eq_false_iff]
    intro hat
    rcases (startCodeAt_append _ _ _).1 hat with hw' | rfl | ⟨h, -⟩
    · rw [hw j] at hw'
      cases hw'
    · omega
    · omega

/-! ## Trailing zeros -/

/-- The trailing zero bytes that `dropTrailingZeros` drops. -/
def trailingZeros (bs : List UInt8) : List UInt8 := (bs.reverse.takeWhile (· == 0)).reverse

theorem dropTrailingZeros_append_trailingZeros (bs : List UInt8) :
    dropTrailingZeros bs ++ trailingZeros bs = bs := by
  rw [dropTrailingZeros, trailingZeros, ← List.reverse_append, List.takeWhile_append_dropWhile,
    List.reverse_reverse]

theorem eq_zero_of_mem_trailingZeros {bs : List UInt8} {b : UInt8} (h : b ∈ trailingZeros bs) :
    b = 0 := by
  rw [trailingZeros, List.mem_reverse] at h
  simpa using List.all_eq_true.1 List.all_takeWhile b h

theorem getLast?_dropTrailingZeros (bs : List UInt8) : (dropTrailingZeros bs).getLast? ≠ some 0 := by
  rw [dropTrailingZeros, List.getLast?_reverse]
  intro h
  have hnot := List.head?_dropWhile_not (· == (0 : UInt8)) bs.reverse
  rw [h] at hnot
  simp at hnot

/-- Zeros after a part that does not end in one are exactly what `dropTrailingZeros` drops. -/
theorem dropTrailingZeros_append {n z : List UInt8} (hz : ∀ b ∈ z, b = 0)
    (hn : n.getLast? ≠ some 0) : dropTrailingZeros (n ++ z) = n := by
  rw [dropTrailingZeros, List.reverse_append, List.dropWhile_append_of_pos (by simpa using hz)]
  cases hr : n.reverse with
  | nil => simpa using hr.symm
  | cons x xs =>
    have hx : x ≠ 0 := by
      rw [← List.head?_reverse, hr] at hn
      simpa using hn
    rw [List.dropWhile_cons_of_neg (by simpa using hx), ← hr, List.reverse_reverse]

/-! ## Decompositions -/

/-- A unit `(n, z)` as a decomposition needs it: no start code in `n z`, zeros in `z`, and `n`
empty or ending in a byte other than zero. -/
def GoodUnit (u : List UInt8 × List UInt8) : Prop :=
  NoStartCode (u.1 ++ u.2) ∧ (∀ b ∈ u.2, b = 0) ∧ u.1.getLast? ≠ some 0

/-- The decomposition conditions, with the start codes counted once each: no start code in
the lead and in any unit. -/
theorem nalSplit_iff {d lead : List UInt8} {units : List (List UInt8 × List UInt8)} :
    NalSplit d lead units ↔
      d = lead ++ startCodeBlocks units ∧ NoStartCode lead ∧ ∀ u ∈ units, GoodUnit u := by
  constructor
  · intro h
    refine ⟨h.bytes, (onlyAsSuffix_append_iff _).1 h.lead_onlyAsSuffix, fun u hu => ?_⟩
    refine ⟨?_, h.zeros u hu, h.trimmed u hu⟩
    -- a unit is the last one or comes before it
    have hne : units ≠ [] := List.ne_nil_of_mem hu
    have hsplit := List.dropLast_concat_getLast hne
    rw [← hsplit, List.mem_append, List.mem_singleton] at hu
    rcases hu with hu | rfl
    · exact (onlyAsSuffix_append_iff _).1 (h.inner_onlyAsSuffix u hu)
    · exact h.last_noStartCode _ (List.getLast?_eq_some_getLast hne)
  · rintro ⟨hd, hlead, hgood⟩
    exact
      { bytes := hd, lead_onlyAsSuffix := (onlyAsSuffix_append_iff _).2 hlead,
        inner_onlyAsSuffix := fun u hu =>
          (onlyAsSuffix_append_iff _).2 (hgood u (List.dropLast_subset _ hu)).1,
        last_noStartCode := fun u hu => (hgood u (List.mem_of_mem_getLast? hu)).1,
        zeros := fun u hu => (hgood u hu).2.1, trimmed := fun u hu => (hgood u hu).2.2 }

instance : DecidablePred GoodUnit := fun u =>
  inferInstanceAs (Decidable (NoStartCode (u.1 ++ u.2) ∧ (∀ b ∈ u.2, b = 0) ∧ u.1.getLast? ≠ some 0))

instance (d lead : List UInt8) (units : List (List UInt8 × List UInt8)) :
    Decidable (NalSplit d lead units) :=
  decidable_of_iff _ nalSplit_iff.symm

/-- The two cases of `nalUnits`, by the first start code. -/
theorem nalUnits_of_findStartCode_none {d : List UInt8} (h : findStartCode d = none) :
    nalUnits d = [] := by
  rw [nalUnits]
  split <;> simp_all

theorem nalUnits_of_findStartCode_some {d : List UInt8} {pos : Nat} (h : findStartCode d = some pos) :
    nalUnits d =
      dropTrailingZeros ((d.drop (pos + 3)).take
          ((findStartCode (d.drop (pos + 3))).getD (d.drop (pos + 3)).length)) ::
        nalUnits ((d.drop (pos + 3)).drop
          ((findStartCode (d.drop (pos + 3))).getD (d.drop (pos + 3)).length)) := by
  rw [nalUnits]
  split <;> simp_all

/-- `nalUnits` of a decomposition is the list of its units' `n`: each step finds the start
code after the lead, takes `n z` up to the next one and drops `z`. -/
theorem nalUnits_blocks {w : List UInt8} {units : List (List UInt8 × List UInt8)}
    (hw : NoStartCode w) (hgood : ∀ u ∈ units, GoodUnit u) :
    nalUnits (w ++ startCodeBlocks units) = units.map Prod.fst := by
  induction units generalizing w with
  | nil => exact nalUnits_of_findStartCode_none (by simpa using findStartCode_blocks hw [])
  | cons u us ih =>
    obtain ⟨hu, hz, hn⟩ := hgood u (List.mem_cons_self ..)
    have hfind := findStartCode_blocks hw (u :: us)
    rw [if_neg (List.cons_ne_nil u us)] at hfind
    have hbody : (w ++ startCodeBlocks (u :: us)).drop (w.length + 3) =
        u.1 ++ u.2 ++ startCodeBlocks us := by
      simp [startCodeBlocks, List.drop_append, nalStartCode]
    -- the unit runs to the next start code, or to the end when it is the last
    have hnext : (findStartCode (u.1 ++ u.2 ++ startCodeBlocks us)).getD
        (u.1 ++ u.2 ++ startCodeBlocks us).length = (u.1 ++ u.2).length := by
      rw [findStartCode_blocks hu]
      split
      · simp_all [startCodeBlocks]
      · rfl
    rw [nalUnits_of_findStartCode_some hfind, hbody, hnext, List.take_left' rfl,
      List.drop_left' rfl, dropTrailingZeros_append hz hn,
      ← List.nil_append (startCodeBlocks us),
      ih (by simp [NoStartCode]) fun v hv => hgood v (List.mem_cons_of_mem u hv)]
    rfl

/-- Every buffer has a decomposition: the bytes before its first start code, then, after it,
the decomposition of the rest, whose lead becomes the first unit. -/
theorem exists_blocks (d : List UInt8) :
    ∃ lead units, d = lead ++ startCodeBlocks units ∧ NoStartCode lead ∧ ∀ u ∈ units, GoodUnit u := by
  cases hfind : findStartCode d with
  | none =>
    exact ⟨d, [], by simp [startCodeBlocks], noStartCode_of_findStartCodeFrom hfind, by simp⟩
  | some pos =>
    obtain ⟨-, hat, hbefore⟩ := first_of_findStartCodeFrom hfind
    rw [Nat.sub_zero] at hat hbefore
    obtain ⟨r, hr⟩ := startsWithStartCode_iff.1 hat
    have hrest : d.drop (pos + 3) = r := by
      rw [← List.drop_drop, hr]
      rfl
    have hd : d = d.take pos ++ nalStartCode ++ d.drop (pos + 3) := by
      rw [hrest, List.append_assoc, ← hr, List.take_append_drop]
    -- a start code before `pos` would be found first
    have hlead : NoStartCode (d.take pos) := by
      intro i
      rw [Bool.eq_false_iff]
      intro hi
      obtain ⟨hlt, hin⟩ := startCodeAt_of_take hi
      rw [hbefore i hlt] at hin
      cases hin
    obtain ⟨w, units, hw, hnw, hgood⟩ := exists_blocks (d.drop (pos + 3))
    refine ⟨d.take pos, (dropTrailingZeros w, trailingZeros w) :: units, ?_, hlead, ?_⟩
    · have hunit := dropTrailingZeros_append_trailingZeros w
      calc d = d.take pos ++ nalStartCode ++ d.drop (pos + 3) := hd
        _ = d.take pos ++ nalStartCode ++ (w ++ startCodeBlocks units) := by rw [hw]
        _ = d.take pos ++ startCodeBlocks ((dropTrailingZeros w, trailingZeros w) :: units) := by
          simp only [startCodeBlocks, List.flatMap_cons, List.append_assoc]
          rw [← List.append_assoc (dropTrailingZeros w), hunit]
    · intro u hu
      rcases List.mem_cons.1 hu with rfl | hu
      · exact ⟨by rw [dropTrailingZeros_append_trailingZeros]; exact hnw,
          fun b hb => eq_zero_of_mem_trailingZeros hb, getLast?_dropTrailingZeros w⟩
      · exact hgood u hu
termination_by d.length
decreasing_by
  have := List.length_pos_iff.2 (findStartCode_ne_nil hfind)
  simp only [List.length_drop]
  omega

/-- A decomposition is unique: the first start code fixes the lead, and then each unit is the
lead of the rest, its zeros split off by `dropTrailingZeros`. -/
theorem blocks_unique :
    ∀ {units units' : List (List UInt8 × List UInt8)} {w w' : List UInt8},
      NoStartCode w → NoStartCode w' → (∀ u ∈ units, GoodUnit u) → (∀ u ∈ units', GoodUnit u) →
      w ++ startCodeBlocks units = w' ++ startCodeBlocks units' → w = w' ∧ units = units'
  | [], units', w, w', hw, hw', _, _, h => by
    have hfind := findStartCode_blocks hw' units'
    rw [← h, findStartCode_blocks hw] at hfind
    cases units' with
    | nil => simpa [startCodeBlocks] using h
    | cons => simp at hfind
  | u :: us, units', w, w', hw, hw', hgood, hgood', h => by
    have hfind := findStartCode_blocks hw' units'
    rw [← h, findStartCode_blocks hw] at hfind
    cases units' with
    | nil => simp at hfind
    | cons u' us' =>
      simp only [List.cons_ne_nil, if_false, Option.some.injEq] at hfind
      obtain ⟨rfl, hrest⟩ := List.append_inj h hfind
      simp only [startCodeBlocks, List.flatMap_cons, List.append_assoc, List.append_cancel_left_eq]
        at hrest
      rw [← List.append_assoc, ← List.append_assoc] at hrest
      obtain ⟨hu, hz, hn⟩ := hgood u (List.mem_cons_self ..)
      obtain ⟨hu', hz', hn'⟩ := hgood' u' (List.mem_cons_self ..)
      obtain ⟨hunit, rfl⟩ := blocks_unique hu hu' (fun v hv => hgood v (List.mem_cons_of_mem u hv))
        (fun v hv => hgood' v (List.mem_cons_of_mem u' hv)) hrest
      -- the zeros of a unit are what `dropTrailingZeros` leaves out
      have hn₁ : u.1 = u'.1 := by
        rw [← dropTrailingZeros_append hz hn, hunit, dropTrailingZeros_append hz' hn']
      rw [hn₁] at hunit
      exact ⟨rfl, by rw [Prod.ext hn₁ (List.append_cancel_left hunit)]⟩

/-! ## Counting start codes -/

theorem startCodeCount_nil : startCodeCount [] = 0 := rfl

theorem startCodeCount_cons (b : UInt8) (w : List UInt8) :
    startCodeCount (b :: w) = startCodeCount w + if startsWithStartCode (b :: w) then 1 else 0 := by
  simp [startCodeCount, List.countP_cons]

theorem startCodeCount_eq_zero {w : List UInt8} (h : NoStartCode w) : startCodeCount w = 0 := by
  induction w with
  | nil => rfl
  | cons b w ih =>
    rw [startCodeCount_cons, ih (noStartCode_cons h), ← startCodeAt_zero, h 0]
    rfl

/-- The start codes of `w S r`: those of `w`, the one between, and those of `r`. -/
theorem startCodeCount_append (w r : List UInt8) :
    startCodeCount (w ++ nalStartCode ++ r) = startCodeCount w + 1 + startCodeCount r := by
  induction w with
  | nil =>
    show startCodeCount (0 :: 0 :: 1 :: r) = 0 + 1 + startCodeCount r
    rw [startCodeCount_cons, startCodeCount_cons, startCodeCount_cons,
      startsWithStartCode_one, startsWithStartCode_zero_one,
      show startsWithStartCode (0 :: 0 :: 1 :: r) = true from rfl]
    simp only [Bool.false_eq_true, if_false, if_true]
    omega
  | cons b w ih =>
    have hfirst := startsWithStartCode_append (b :: w) r
    simp only [List.cons_ne_nil, false_or] at hfirst
    rw [List.cons_append, List.cons_append, startCodeCount_cons, ← List.cons_append,
      ← List.cons_append, ih, startCodeCount_cons]
    by_cases hs : startsWithStartCode (b :: w) = true
    · rw [if_pos (hfirst.2 hs), if_pos hs]
      omega
    · rw [if_neg (mt hfirst.1 hs), if_neg hs]
      omega

theorem startCodeCount_blocks {w : List UInt8} {units : List (List UInt8 × List UInt8)}
    (hw : NoStartCode w) (hgood : ∀ u ∈ units, GoodUnit u) :
    startCodeCount (w ++ startCodeBlocks units) = units.length := by
  induction units generalizing w with
  | nil => simpa [startCodeBlocks] using startCodeCount_eq_zero hw
  | cons u us ih =>
    have hblocks : w ++ startCodeBlocks (u :: us) =
        w ++ nalStartCode ++ (u.1 ++ u.2 ++ startCodeBlocks us) := by
      simp [startCodeBlocks]
    rw [hblocks, startCodeCount_append, startCodeCount_eq_zero hw,
      ih (hgood u (List.mem_cons_self ..)).1 fun v hv => hgood v (List.mem_cons_of_mem u hv),
      List.length_cons]
    omega

/-! ## The whole statement -/

/-- `nalUnits` cuts a buffer exactly at its start codes. Every buffer `d` has a decomposition
`d = p S n₁ z₁ ⋯ S nₘ zₘ` with the start codes only where it puts them, runs of zeros for the
`zᵢ` and each `nᵢ` empty or ending in a non-zero byte; that decomposition is unique;
`nalUnits d` is `n₁, …, nₘ`; and `m` is the number of start codes in `d`. -/
theorem nalUnits_startCode_split (d : List UInt8) :
    (∃ lead units, NalSplit d lead units ∧ nalUnits d = units.map Prod.fst) ∧
    (∀ lead units lead' units', NalSplit d lead units → NalSplit d lead' units' →
      lead = lead' ∧ units = units') ∧
    (nalUnits d).length = startCodeCount d := by
  obtain ⟨lead, units, hd, hlead, hgood⟩ := exists_blocks d
  have hunits : nalUnits d = units.map Prod.fst := by
    rw [hd]
    exact nalUnits_blocks hlead hgood
  refine ⟨⟨lead, units, nalSplit_iff.2 ⟨hd, hlead, hgood⟩, hunits⟩,
    fun l u l' u' h h' => ?_, ?_⟩
  · obtain ⟨hd₁, hl₁, hg₁⟩ := nalSplit_iff.1 h
    obtain ⟨hd₂, hl₂, hg₂⟩ := nalSplit_iff.1 h'
    exact blocks_unique hl₁ hl₂ hg₁ hg₂ (hd₁.symm.trans hd₂)
  · rw [hunits, List.length_map, hd, startCodeCount_blocks hlead hgood]

/-- An access unit delimiter behind a four-byte start code, a sequence parameter set followed
by a zero, and an IDR slice behind another four-byte start code. -/
def mixedStartCodes : List UInt8 :=
  [0x00, 0x00, 0x00, 0x01, 0x09, 0x10, 0x00, 0x00, 0x01, 0x67, 0x42, 0x00,
    0x00, 0x00, 0x00, 0x01, 0x65, 0x88, 0x80]

/-- The decomposition of `mixedStartCodes`: the zero of the first four-byte start code leads,
and the second one's zero is a trailing zero of the parameter set. -/
def mixedUnits : List (List UInt8 × List UInt8) :=
  [([0x09, 0x10], []), ([0x67, 0x42], [0x00, 0x00]), ([0x65, 0x88, 0x80], [])]

theorem nalUnits_startCode_split_mixed :
    NalSplit mixedStartCodes [0x00] mixedUnits ∧
      nalUnits mixedStartCodes = [[0x09, 0x10], [0x67, 0x42], [0x65, 0x88, 0x80]] ∧
      startCodeCount mixedStartCodes = 3 := by
  have hsplit : NalSplit mixedStartCodes [0x00] mixedUnits := by decide +kernel
  obtain ⟨⟨lead, units, h, hunits⟩, hunique, hcount⟩ := nalUnits_startCode_split mixedStartCodes
  obtain ⟨rfl, rfl⟩ := hunique _ _ _ _ h hsplit
  exact ⟨hsplit, hunits, by rw [← hcount, hunits]; rfl⟩

end MpegTs
