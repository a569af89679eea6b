import MpegTs.Proofs.SuccessfulReads

/-!
# The cursor is a bounded bit position

A `BitCursor` keeps two things about where it stands: the count of bits consumed, from which
it reports its byte and the bits and bytes left, and the reader's window, the bits of the
current byte fetched and not yet handed out, from which it reports whether it stands on a
byte boundary. This module shows that to its callers the cursor is a bit position that never
passes the end of its bytes, up to the first fixed-width read that fails:

* `BitPos`: a bit position over a byte string, carrying the proof that it lies within it;
  `BitPos.step` says what each operation does there (a read of `n` bits succeeds when `n`
  bits remain, returns the number they spell, most significant first, and moves past them; a
  peek returns the same and stays; skips move on, but never by `2^32` bits or more at once;
  whole bytes and the rest of the string need a byte boundary; a failure moves nothing) and
  `BitPos.place` what the cursor shows there;
* `BitCursor.Op`: the operations, each with the count it is given, and `runOps`, which makes
  them one after another, each on the cursor the one before left, failed or not;
* `BitPos.run_cursor`, the step lemma: an operation on the cursor at a position does what the
  position's step says. `BitPos.place_afterShortRead`: a fixed-width read that runs out keeps
  the count, but reports a byte boundary when the position or the end of the read is on one,
  for the reader emptied its window before it found the further whole bytes missing;
* `BitPos.trace_prefix_runOps`, the run lemma, and `BitCursor.runOps_bounded_position`: what
  the cursor shows along any run begins with the trace the position specifies, which ends at
  the first fixed-width read that fails. Past such a read the reader need not stand where the
  count says, and nothing is promised; `BitCursor.shortRead_reports_boundary` is a run whose
  cursor reports a byte boundary three bits into a byte.
-/

namespace MpegTs

/-- A bit position over a byte string, never past its end: the state on which the cursor's
operations are specified. -/
structure BitPos where
  bytes : List UInt8
  pos : Nat
  pos_le : pos ≤ 8 * bytes.length

namespace BitCursor

/-- An operation of the cursor with the count it is given: reads of at most 64 bits, skips of
any number of bits, and whole-byte skips and reads whose bit count is computed without
overflow in a 64-bit count. -/
inductive Op where
  | readBits (n : Nat) (h : n ≤ 64)
  | peekBits (n : Nat) (h : n ≤ 64)
  | readFlag
  | readU8
  | readU16
  | readU24
  | readU32
  | readU64
  | skipBits (n : Nat)
  | skipBytes (k : Nat) (h : 8 * k < 0x10000000000000000)
  | readBytes (k : Nat) (h : 8 * k < 0x10000000000000000)
  | remainingSlice
  deriving DecidableEq

/-- What an operation of the cursor returns. -/
inductive Value where
  | num (v : Nat)
  | flag (b : Bool)
  | bytes (bs : List UInt8)
  | unit
  deriving Repr, DecidableEq

/-- What the cursor shows of where it stands: the byte it is in, the bits and the bytes
left, and whether it stands on a byte boundary. -/
structure Place where
  position : Nat
  bitsRemaining : Nat
  bytesRemaining : Nat
  aligned : Bool
  deriving Repr, DecidableEq

/-- What the cursor shows of where it stands. -/
def place (c : BitCursor) : Place :=
  ⟨c.position, c.bitsRemaining, c.bytesRemaining, c.isByteAligned⟩

namespace Op

/-- Runs the operation on a cursor. -/
def run : Op → BitRead Value
  | readBits n _ => Value.num <$> BitRead.readBits n
  | peekBits n _ => Value.num <$> BitRead.peekBits n
  | readFlag => Value.flag <$> BitRead.readFlag
  | readU8 => Value.num <$> BitRead.readU8
  | readU16 => Value.num <$> BitRead.readU16
  | readU24 => Value.num <$> BitRead.readU24
  | readU32 => Value.num <$> BitRead.readU32
  | readU64 => Value.num <$> BitRead.readU64
  | skipBits n => (fun _ => Value.unit) <$> BitRead.skipBits n
  | skipBytes k _ => (fun _ => Value.unit) <$> BitRead.skipBytes k
  | readBytes k _ => Value.bytes <$> BitRead.readBytes k
  | remainingSlice => Value.bytes <$> BitRead.remainingSlice

/-- The width of a fixed-width read, which takes its bits through the reader's window;
the other operations have none. -/
def fixedWidth : Op → Option Nat
  | readBits n _ => some n
  | readFlag => some 1
  | readU8 => some 8
  | readU16 => some 16
  | readU24 => some 24
  | readU32 => some 32
  | readU64 => some 64
  | _ => none

/-- The cursor a failed operation leaves: a fixed-width read may have emptied the reader's
window, every other operation leaves the cursor as it was. -/
def afterFailure (o : Op) (c : BitCursor) : BitCursor :=
  match o.fixedWidth with
  | some n => c.afterShortRead n
  | none => c

end Op

/-- Runs operations one after another, each on the cursor the one before left, whether it
succeeded or failed, and records each outcome with the cursor after it. -/
def runOps : List Op → BitCursor → List (Except Error Value × BitCursor)
  | [], _ => []
  | o :: os, c =>
    match o.run c with
    | .ok v c' => (.ok v, c') :: runOps os c'
    | .error e c' => (.error e, c') :: runOps os c'

end BitCursor

namespace BitPos

open BitCursor

variable (p : BitPos)

/-- The first bit of `bytes`. -/
def start (bytes : List UInt8) : BitPos := ⟨bytes, 0, Nat.zero_le _⟩

/-- Bits after the position. -/
def remaining : Nat := 8 * p.bytes.length - p.pos

/-- The position `n` bits on, when that many remain. -/
def skip (n : Nat) (h : n ≤ p.remaining) : BitPos :=
  ⟨p.bytes, p.pos + n, by have := p.pos_le; unfold remaining at h; omega⟩

/-- Moves `n` bits on; fails, moving nothing, when fewer remain. -/
def seek (n : Nat) : Except Error BitPos :=
  if h : n ≤ p.remaining then .ok (p.skip n h) else .error (.read (.outOfData n p.remaining))

/-- Skips `n` bits: moves on as `seek` does, but a count of `2^32` bits or more fails, moving
nothing, even when the bits are there, for the reader skips by a 32-bit count. -/
def skipBy (n : Nat) : Except Error BitPos :=
  if n < 0x100000000 then p.seek n else .error (.read (.outOfData n p.remaining))

/-- The number the `n` bits from the position spell, most significant first. -/
def valueAt (n : Nat) : Nat := natOfBits (((bitsOf p.bytes).drop p.pos).take n)

/-- The bit at the position. -/
def bit : Bool := (bitsOf p.bytes).getD p.pos false

/-- What an operation does at a position: a read of `n` bits succeeds when `n` bits remain,
returns the number they spell and moves past them; a peek returns the same and stays; a skip
moves on by fewer than `2^32` bits; whole bytes and the rest of the string need a byte
boundary, and are skipped over. A failure moves nothing. -/
def step : Op → Except Error (Value × BitPos)
  | .readBits n _ => (p.seek n).map fun q => (.num (p.valueAt n), q)
  | .peekBits n _ => (p.seek n).map fun _ => (.num (p.valueAt n), p)
  | .readFlag => (p.seek 1).map fun q => (.flag p.bit, q)
  | .readU8 => (p.seek 8).map fun q => (.num (p.valueAt 8), q)
  | .readU16 => (p.seek 16).map fun q => (.num (p.valueAt 16), q)
  | .readU24 => (p.seek 24).map fun q => (.num (p.valueAt 24), q)
  | .readU32 => (p.seek 32).map fun q => (.num (p.valueAt 32), q)
  | .readU64 => (p.seek 64).map fun q => (.num (p.valueAt 64), q)
  | .skipBits n => (p.skipBy n).map fun q => (.unit, q)
  | .skipBytes k _ => (p.skipBy (8 * k)).map fun q => (.unit, q)
  | .readBytes k _ =>
    if p.pos % 8 = 0 then
      (p.skipBy (8 * k)).map fun q => (.bytes ((p.bytes.drop (p.pos / 8)).take k), q)
    else .error (.read .unaligned)
  | .remainingSlice =>
    if p.pos % 8 = 0 then .ok (.bytes (p.bytes.drop (p.pos / 8)), p) else .error (.read .unaligned)

/-- Where the cursor should stand at a position: in byte `pos / 8`, with
`8 * |bytes| - pos` bits and `|bytes| - pos / 8` bytes left, on a byte boundary when `pos`
is a multiple of 8. -/
def place : Place :=
  ⟨p.pos / 8, 8 * p.bytes.length - p.pos, p.bytes.length - p.pos / 8, p.pos % 8 == 0⟩

/-- Where the cursor stands after a fixed-width read of `n` bits from the position failed:
the count has not moved, but the cursor reports a byte boundary when the position or the
end of the read is on one. -/
def placeAfterShortRead (n : Nat) : Place :=
  { p.place with aligned := p.pos % 8 == 0 || (p.pos + n) % 8 == 0 }

/-- What operations from the position show, as the position specifies them: each outcome
with the place after it. A fixed-width read that fails ends the trace with the place it
leaves. -/
def trace (p : BitPos) : List Op → List (Except Error Value × Place)
  | [] => []
  | o :: os =>
    match p.step o, o.fixedWidth with
    | .ok (v, q), _ => (.ok v, q.place) :: q.trace os
    | .error e, some n => [(.error e, p.placeAfterShortRead n)]
    | .error e, none => (.error e, p.place) :: p.trace os

/-- The cursor standing at the position, as a successful read leaves it. -/
def cursor : BitCursor := atBit p.bytes p.pos

/-- The result the cursor gives for an outcome at a position: a success stands at the new
position, a failure leaves the cursor `c`. -/
def toResult {α : Type} :
    Except Error (α × BitPos) → BitCursor → EStateM.Result Error BitCursor α
  | .ok (a, q), _ => .ok a q.cursor
  | .error e, c => .error e c

/-! ## The cursor at a position -/

theorem start_cursor (bytes : List UInt8) : (start bytes).cursor = ofBytes bytes :=
  (ofBytes_eq_atBit bytes).symm

theorem bitsRemaining_cursor : p.cursor.bitsRemaining = p.remaining := by
  rw [cursor, bitsRemaining_atBit, remaining, Nat.mul_comm]

theorem skip_cursor (n : Nat) (h : n ≤ p.remaining) : (p.skip n h).cursor = p.cursor.advance n :=
  rfl

theorem isByteAligned_cursor : p.cursor.isByteAligned = (p.pos % 8 == 0) := by
  rw [Bool.eq_iff_iff]
  simp only [cursor, atBit, isByteAligned, windowAfter, beq_iff_eq]
  omega

/-- The cursor at a position shows the place of the position. -/
theorem place_cursor : p.cursor.place = p.place := by
  rw [BitCursor.place, isByteAligned_cursor, bitsRemaining_cursor]
  rfl

/-! ## The primitive readers at a position

Each primitive reader, run on the cursor at a position, gives the outcome of the position's
`seek` or `skipBy` (or of its byte-boundary test) and, on a failure, the cursor it leaves. -/

theorem seek_of_le {n : Nat} (h : n ≤ p.remaining) : p.seek n = .ok (p.skip n h) := dif_pos h

theorem seek_of_lt {n : Nat} (h : p.remaining < n) :
    p.seek n = .error (.read (.outOfData n p.remaining)) :=
  dif_neg (by omega)

theorem skipBy_of_fit {n : Nat} (h : n ≤ p.remaining ∧ n < 0x100000000) :
    p.skipBy n = .ok (p.skip n h.1) := by
  rw [skipBy, if_pos h.2, seek_of_le p h.1]

theorem skipBy_of_not_fit {n : Nat} (h : ¬(n ≤ p.remaining ∧ n < 0x100000000)) :
    p.skipBy n = .error (.read (.outOfData n p.remaining)) := by
  unfold skipBy
  split
  · exact seek_of_lt p (by omega)
  · rfl

theorem map_toResult {α β : Type} (f : α → β) {x : BitRead α} {s c : BitCursor}
    {r : Except Error (α × BitPos)} (h : x s = toResult r c) :
    (f <$> x) s = toResult (r.map fun aq => (f aq.1, aq.2)) c := by
  show EStateM.map f x s = _
  rcases r with e | ⟨a, q⟩ <;> simp only [EStateM.map, h, toResult, Except.map]

theorem readBits_cursor (n : Nat) :
    BitRead.readBits n p.cursor =
      toResult ((p.seek n).map fun q => (p.valueAt n, q)) (p.cursor.afterShortRead n) := by
  by_cases h : n ≤ p.remaining
  · rw [seek_of_le p h]
    simp only [BitRead.readBits, bitsRemaining_cursor, if_pos h, Except.map, toResult,
      skip_cursor, valueAt, bitWindow_eq]
    rfl
  · rw [seek_of_lt p (by omega)]
    simp only [BitRead.readBits, bitsRemaining_cursor, if_neg h, Except.map, toResult]

theorem skipBits_cursor (n : Nat) :
    BitRead.skipBits n p.cursor = toResult ((p.skipBy n).map fun q => ((), q)) p.cursor := by
  by_cases h : n ≤ p.remaining ∧ n < 0x100000000
  · rw [skipBy_of_fit p h]
    simp only [BitRead.skipBits, bitsRemaining_cursor, if_pos h, Except.map, toResult,
      skip_cursor]
  · rw [skipBy_of_not_fit p h]
    simp only [BitRead.skipBits, bitsRemaining_cursor, if_neg h, Except.map, toResult]

theorem peekBits_cursor (n : Nat) :
    BitRead.peekBits n p.cursor = toResult ((p.seek n).map fun _ => (p.valueAt n, p)) p.cursor := by
  have hr := p.readBits_cursor n
  by_cases h : n ≤ p.remaining
  · rw [seek_of_le p h] at hr ⊢
    simp only [BitRead.peekBits, hr, Except.map, toResult]
  · rw [seek_of_lt p (by omega)] at hr ⊢
    simp only [BitRead.peekBits, hr, Except.map, toResult]

/-- One bit spells the number of the bit. -/
theorem valueAt_one (h : 1 ≤ p.remaining) : p.valueAt 1 = p.bit.toNat := by
  have hk : p.pos < (bitsOf p.bytes).length := by
    rw [length_bitsOf]
    unfold remaining at h
    omega
  rw [valueAt, bit, List.drop_eq_getElem_cons hk, List.take_succ_cons, List.take_zero,
    List.getD_eq_getElem?_getD, List.getElem?_eq_getElem hk]
  simp [natOfBits]

theorem readFlag_cursor :
    BitRead.readFlag p.cursor =
      toResult ((p.seek 1).map fun q => (p.bit, q)) (p.cursor.afterShortRead 1) := by
  have hr := p.readBits_cursor 1
  show EStateM.bind (BitRead.readBits 1) (fun v => pure (v == 1)) p.cursor = _
  by_cases h : 1 ≤ p.remaining
  · rw [seek_of_le p h] at hr ⊢
    simp only [EStateM.bind, hr, Except.map, toResult, valueAt_one p h]
    cases p.bit <;> rfl
  · rw [seek_of_lt p (by omega)] at hr ⊢
    simp only [EStateM.bind, hr, Except.map, toResult]

theorem readBytes_cursor (k : Nat) :
    BitRead.readBytes k p.cursor =
      toResult (if p.pos % 8 = 0 then
          (p.skipBy (8 * k)).map fun q => ((p.bytes.drop (p.pos / 8)).take k, q)
        else .error (.read .unaligned)) p.cursor := by
  have hle := p.pos_le
  by_cases ha : p.pos % 8 = 0
  · have hal : p.cursor.isByteAligned = true := by rw [isByteAligned_cursor, ha]; rfl
    rw [if_pos ha]
    -- on a byte boundary, `k` whole bytes remain exactly when `8 * k` bits do
    by_cases h : 8 * k ≤ p.remaining
    · have hfit : p.cursor.position + k ≤ p.cursor.bytes.length := by
        unfold remaining at h
        simp only [cursor, position_atBit, bytes_atBit]
        omega
      -- the bytes are there, and the skip over their bits decides the outcome
      simp only [BitRead.readBytes, hal, Bool.not_true, Bool.false_eq_true, if_false,
        if_pos hfit]
      rw [map_toResult _ (p.skipBits_cursor (8 * k))]
      cases p.skipBy (8 * k) <;> rfl
    · have hfit : ¬p.cursor.position + k ≤ p.cursor.bytes.length := by
        unfold remaining at h
        simp only [cursor, position_atBit, bytes_atBit]
        omega
      rw [skipBy_of_not_fit p (by omega)]
      simp only [BitRead.readBytes, hal, Bool.not_true, Bool.false_eq_true, if_false,
        if_neg hfit, Except.map, toResult, bitsRemaining_cursor]
  · have hal : p.cursor.isByteAligned = false := by
      rw [isByteAligned_cursor]
      simpa using ha
    rw [if_neg ha]
    simp only [BitRead.readBytes, hal, Bool.not_false, if_true, toResult]

theorem remainingSlice_cursor :
    BitRead.remainingSlice p.cursor =
      toResult (if p.pos % 8 = 0 then .ok (p.bytes.drop (p.pos / 8), p)
        else .error (.read .unaligned)) p.cursor := by
  by_cases ha : p.pos % 8 = 0
  · have hal : p.cursor.isByteAligned = true := by rw [isByteAligned_cursor, ha]; rfl
    simp only [BitRead.remainingSlice, hal, if_true, if_pos ha, toResult]
    rfl
  · have hal : p.cursor.isByteAligned = false := by
      rw [isByteAligned_cursor]
      simpa using ha
    simp only [BitRead.remainingSlice, hal, Bool.false_eq_true, if_false, if_neg ha, toResult]

/-! ## One operation -/

/-- A reader whose outcome goes by the position's outcome `r`, its value mapped by `g`. -/
theorem map_outcome_cursor {α β : Type} (g : α → β) {x : BitRead α} {r : Except Error BitPos}
    {f : BitPos → α × BitPos} {c : BitCursor} (h : x p.cursor = toResult (r.map f) c) :
    (g <$> x) p.cursor = toResult (r.map fun q => (g (f q).1, (f q).2)) c := by
  rw [map_toResult g h]
  cases r <;> rfl

/-- The step lemma: an operation on the cursor at a position does what the position's step
says, and a failure leaves the cursor as `Op.afterFailure` says. -/
theorem run_cursor (o : Op) : o.run p.cursor = toResult (p.step o) (o.afterFailure p.cursor) := by
  cases o with
  | readBits n _ => exact p.map_outcome_cursor Value.num (p.readBits_cursor n)
  | peekBits n _ => exact p.map_outcome_cursor Value.num (p.peekBits_cursor n)
  | readFlag => exact p.map_outcome_cursor Value.flag p.readFlag_cursor
  | readU8 => exact p.map_outcome_cursor Value.num (p.readBits_cursor 8)
  | readU16 => exact p.map_outcome_cursor Value.num (p.readBits_cursor 16)
  | readU24 => exact p.map_outcome_cursor Value.num (p.readBits_cursor 24)
  | readU32 => exact p.map_outcome_cursor Value.num (p.readBits_cursor 32)
  | readU64 => exact p.map_outcome_cursor Value.num (p.readBits_cursor 64)
  | skipBits n => exact p.map_outcome_cursor (fun _ => Value.unit) (p.skipBits_cursor n)
  | skipBytes k _ => exact p.map_outcome_cursor (fun _ => Value.unit) (p.skipBits_cursor (8 * k))
  | readBytes k _ =>
    rw [Op.run, map_toResult _ (p.readBytes_cursor k)]
    simp only [step, Op.afterFailure, Op.fixedWidth]
    -- off a byte boundary both fail alike; on one, the outcome goes by `skipBy`
    split
    · cases p.skipBy (8 * k) <;> rfl
    · rfl
  | remainingSlice =>
    rw [Op.run, map_toResult _ p.remainingSlice_cursor]
    simp only [step, Op.afterFailure, Op.fixedWidth]
    split <;> rfl

/-! ## A failed fixed-width read -/

/-- A fixed-width read that runs out has more bits to find than the rest of the current
byte, so it leaves the cursor on a byte boundary exactly when the position or the end of
the read is on one. -/
theorem place_afterShortRead {n : Nat} (h : p.remaining < n) :
    (p.cursor.afterShortRead n).place = p.placeAfterShortRead n := by
  have hle := p.pos_le
  have hwin : p.cursor.window = (8 - p.pos % 8) % 8 := rfl
  unfold remaining at h
  rw [placeAfterShortRead, ← place_cursor, BitCursor.afterShortRead]
  split
  · -- the window was emptied: the bits lacked beyond it are whole bytes
    rename_i hshort
    rw [hwin] at hshort
    have hend : (p.pos + n) % 8 = 0 := by omega
    simp only [BitCursor.place, isByteAligned, hend, beq_self_eq_true, Bool.or_true]
    rfl
  · -- the window kept its bits: the read ends on a boundary only if it starts on one
    rename_i hshort
    rw [hwin] at hshort
    have hend : (p.pos + n) % 8 = 0 → p.pos % 8 = 0 := by omega
    simp only [BitCursor.place, isByteAligned_cursor, Place.mk.injEq, true_and]
    rw [Bool.eq_iff_iff]
    simp only [Bool.or_eq_true, beq_iff_eq]
    omega

theorem remaining_lt_of_step_error {o : Op} {e : Error} {n : Nat} (hs : p.step o = .error e)
    (hw : o.fixedWidth = some n) : p.remaining < n := by
  have hseek : ∀ {β : Type} {f : BitPos → β}, (p.seek n).map f = .error e →
      p.remaining < n := by
    intro β f hf
    apply Nat.lt_of_not_le
    intro hle
    rw [seek_of_le p hle] at hf
    cases hf
  cases o <;> simp only [Op.fixedWidth, Option.some.injEq, reduceCtorEq] at hw <;> subst hw <;>
    exact hseek hs

/-! ## Runs -/

/-- The run lemma: from any position, what the cursor shows along a run of operations starts
with the trace the position specifies. -/
theorem trace_prefix_runOps : ∀ (ops : List Op) (p : BitPos),
    p.trace ops <+: (runOps ops p.cursor).map fun r => (r.1, r.2.place)
  | [], _ => List.nil_prefix
  | o :: os, p => by
    have hrun := p.run_cursor o
    rcases hs : p.step o with e | ⟨v, q⟩
    · rw [hs] at hrun
      cases hw : o.fixedWidth with
      | none =>
        have hc : o.afterFailure p.cursor = p.cursor := by simp only [Op.afterFailure, hw]
        simp only [trace, hs, hw, runOps, hrun, toResult, hc, List.map_cons, p.place_cursor]
        exact List.cons_prefix_cons.2 ⟨rfl, trace_prefix_runOps os p⟩
      | some n =>
        have hc : o.afterFailure p.cursor = p.cursor.afterShortRead n := by
          simp only [Op.afterFailure, hw]
        simp only [trace, hs, hw, runOps, hrun, toResult, hc, List.map_cons,
          p.place_afterShortRead (p.remaining_lt_of_step_error hs hw)]
        exact List.cons_prefix_cons.2 ⟨rfl, List.nil_prefix⟩
    · rw [hs] at hrun
      simp only [trace, hs, runOps, hrun, toResult, List.map_cons, q.place_cursor]
      exact List.cons_prefix_cons.2 ⟨rfl, trace_prefix_runOps os q⟩

end BitPos

namespace BitCursor

/-- The cursor is a bounded bit position. A fresh cursor over any byte string stands at bit
0, and along any sequence of operations (reads of at most 64 bits, peeks, skips of any count,
whole-byte skips and reads whose bit count does not overflow 64 bits), each made on the
cursor the one before left whether that succeeded or not, every outcome and the place shown
after it are those of a bit position that never passes the end of the bytes, as
`BitPos.step` and `BitPos.place` say, up to and including the first fixed-width read that
fails. In particular a skip, or a read of whole bytes, of `2^32` bits or more fails with
`outOfData` and moves nothing, even when the bits are there. -/
theorem runOps_bounded_position (d : List UInt8) (ops : List Op) :
    (ofBytes d).place = (BitPos.start d).place ∧
      (BitPos.start d).trace ops <+: (runOps ops (ofBytes d)).map fun r => (r.1, r.2.place) := by
  rw [← BitPos.start_cursor]
  exact ⟨(BitPos.start d).place_cursor, BitPos.trace_prefix_runOps ops (BitPos.start d)⟩

example : (runOps [.skipBytes 1 (by decide), .readBytes 2 (by decide), .remainingSlice,
      .readBytes 2 (by decide), .skipBits 1, .readBytes 1 (by decide)]
      (ofBytes [0xAA, 0xBB, 0xCC, 0xDD])).map (fun r => (r.1, r.2.place)) =
    [(.ok .unit, ⟨1, 24, 3, true⟩), (.ok (.bytes [0xBB, 0xCC]), ⟨3, 8, 1, true⟩),
      (.ok (.bytes [0xDD]), ⟨3, 8, 1, true⟩),
      (.error (.read (.outOfData 16 8)), ⟨3, 8, 1, true⟩),
      (.ok .unit, ⟨3, 7, 1, false⟩), (.error (.read .unaligned), ⟨3, 7, 1, false⟩)] := by
  rfl

/-- A failed read can leave the cursor reporting a byte boundary three bits into a byte:
over `ff`, after a three-bit skip, a 13-bit read finds 5 bits, fails, and has emptied the
reader's window on the way, the 8 bits it lacked beyond the window being a whole byte. -/
theorem shortRead_reports_boundary :
    ∃ c, runOps [.skipBits 3, .readBits 13 (by decide)] (ofBytes [0xFF]) =
        [(.ok .unit, atBit [0xFF] 3), (.error (.read (.outOfData 13 5)), c)] ∧
      c.consumed = 3 ∧ c.isByteAligned = true :=
  ⟨_, rfl, rfl, rfl⟩

end BitCursor

end MpegTs
