import MpegTs.Segment.Verdict

/-!
# Reading a segment file

The command reads the segment file through a buffered reader, one transport packet at a time.
A read asks for at most the bytes the packet still lacks and may get fewer: at least one while
the file lasts, none at its end. It may also be interrupted before it transfers anything, and
is then made again. A `Source` is such a reader: the bytes of the file not yet read, and the
answers its next reads give. Every way a reader can split a file into read results is such a
list of answers; once they are used up, each read transfers all it asks for that remains.
Reads that fail for another reason, whose text comes from the system, are left out.

* `Source.read`: one read of at most `n` bytes;
* `Source.fill`: reads until `n` bytes have come or a read transfers none, joining short reads
  and making interrupted ones again; `Source.fill_eq` says it takes the next `n` bytes;
* `Validator.feedSource`: the command's loop: each full packet is fed, stopping after the
  first that fails, and a trailing partial packet is recorded as truncated;
* `Verdict.ofSource`: the verdict on the whole run.
-/

namespace MpegTs

/-- How one read answers. -/
inductive ReadAnswer where
  /-- Interrupted before anything was transferred. -/
  | interrupted
  /-- `n + 1` bytes transferred, or fewer if fewer were asked for or remain. -/
  | transfer (n : Nat)
  deriving Repr, DecidableEq, Inhabited

/-- A reader over a file: the bytes not yet read, and how its next reads answer. -/
structure Source where
  rest : List UInt8
  answers : List ReadAnswer := []
  deriving Repr, Inhabited

namespace Source

/-- One read of at most `n` bytes: `none` if it is interrupted, else the bytes transferred. -/
def read (s : Source) (n : Nat) : Option (List UInt8) × Source :=
  match s.answers with
  | .interrupted :: answers => (none, { s with answers })
  | .transfer k :: answers =>
    (some (s.rest.take (min (k + 1) n)), ⟨s.rest.drop (min (k + 1) n), answers⟩)
  | [] => (some (s.rest.take n), { s with rest := s.rest.drop n })

/-- A read uses one answer, if any is left. -/
theorem length_answers_read (s : Source) (n : Nat) :
    (s.read n).2.answers.length = s.answers.length - 1 := by
  unfold read
  split <;> simp_all

/-- A read transfers the next bytes of the file: no more than it asks for, and none, when
it asks for some, only at the end of the file. -/
theorem read_eq_some {s s' : Source} {n : Nat} {bytes : List UInt8}
    (h : s.read n = (some bytes, s')) :
    bytes = s.rest.take bytes.length ∧ s'.rest = s.rest.drop bytes.length ∧ bytes.length ≤ n ∧
      (bytes = [] → n = 0 ∨ s.rest = []) := by
  -- both kinds of transfer take the first `m` bytes, for an `m` up to `n` that is zero only
  -- when `n` is
  obtain ⟨m, hm0, hm, rfl, hrest⟩ : ∃ m, (m = 0 → n = 0) ∧ m ≤ n ∧ bytes = s.rest.take m ∧
      s'.rest = s.rest.drop m := by
    unfold read at h
    split at h
    · cases h
    · simp only [Prod.mk.injEq, Option.some.injEq] at h
      obtain ⟨rfl, rfl⟩ := h
      exact ⟨_, fun h0 => by omega, Nat.min_le_right _ _, rfl, rfl⟩
    · simp only [Prod.mk.injEq, Option.some.injEq] at h
      obtain ⟨rfl, rfl⟩ := h
      exact ⟨n, id, Nat.le_refl n, rfl, rfl⟩
  rw [List.length_take, ← List.take_eq_take_min, ← List.drop_eq_drop_min, hrest]
  refine ⟨rfl, rfl, by omega, fun hnil => ?_⟩
  rcases List.take_eq_nil_iff.1 hnil with h0 | he
  · exact .inl (hm0 h0)
  · exact .inr he

/-- An interrupted read transfers nothing. -/
theorem read_eq_none {s s' : Source} {n : Nat} (h : s.read n = (none, s')) : s'.rest = s.rest := by
  unfold read at h
  split at h
  · obtain ⟨-, rfl⟩ := Prod.mk.inj h
    rfl
  · cases h
  · cases h

-- the read's outcome is named for the termination proof, which the linter does not see
set_option linter.unusedVariables false in
/-- Reads until `n` bytes have come or a read transfers none, joining short reads and making
interrupted ones again. -/
def fill (s : Source) (n : Nat) : List UInt8 × Source :=
  if n = 0 then ([], s)
  else
    match h : s.read n with
    | (none, s') => s'.fill n
    | (some [], s') => ([], s')
    | (some (b :: bs), s') =>
      let r := s'.fill (n - (bs.length + 1))
      (b :: bs ++ r.1, r.2)
termination_by s.answers.length + n
decreasing_by
  all_goals
    have ha := length_answers_read s n
    rw [h] at ha
  · -- an interruption uses an answer
    have hlen : s.answers ≠ [] := by
      intro he
      unfold read at h
      rw [he] at h
      cases h
    have hpos : 0 < s.answers.length := List.length_pos_iff.2 hlen
    dsimp only at ha ⊢
    omega
  · -- a transfer of at least one byte
    dsimp only at ha ⊢
    omega

/-- Filling takes the next `n` bytes of the file, or all that remain, however the reads split
them and however often they are interrupted. -/
theorem fill_eq (s : Source) (n : Nat) :
    (s.fill n).1 = s.rest.take n ∧ (s.fill n).2.rest = s.rest.drop n := by
  fun_induction fill s n with
  | case1 s => exact ⟨rfl, rfl⟩
  | case2 s n hn s' h ih =>
    rw [read_eq_none h] at ih
    exact ih
  | case3 s n hn s' h =>
    obtain ⟨-, hrest, -, hnil⟩ := read_eq_some h
    -- a read of no bytes, asked for at least one, finds the file at its end
    have he : s.rest = [] := (hnil rfl).resolve_left hn
    simp [he, hrest]
  | case4 s n hn b bs s' h r ih =>
    obtain ⟨hbytes, hrest, hle, -⟩ := read_eq_some h
    obtain ⟨ih₁, ih₂⟩ := ih
    simp only [List.length_cons] at hbytes hrest hle
    dsimp only [r]
    -- the bytes of this read, then those of the reads after it
    have hsplit : n = (bs.length + 1) + (n - (bs.length + 1)) := by omega
    refine ⟨?_, ?_⟩
    · rw [ih₁, hrest, hbytes, ← List.take_add, ← hsplit]
    · rw [ih₂, hrest, List.drop_drop, ← hsplit]

end Source

namespace Validator

/-- Records an error raised outside packet processing, such as a short read. -/
def record (v : Validator) (e : Error) : Validator :=
  { v with diagnostics := v.diagnostics.record e }

set_option linter.unusedVariables false in
/-- The command's loop over a source: each full packet is fed, stopping after the first that
fails; a trailing partial packet is recorded as truncated and ends the loop. -/
def feedSource (v : Validator) (s : Source) : Validator :=
  match h : s.fill packetSize with
  | (packet, s') =>
    if packet.length = 0 then v
    else if hfull : packet.length = packetSize then
      match v.feed packet with
      | (v, .error _) => v
      | (v, .ok ()) => v.feedSource s'
    else v.record (.truncatedPacket packetSize packet.length)
termination_by s.rest.length
decreasing_by
  have hfill := Source.fill_eq s packetSize
  rw [h] at hfill
  obtain ⟨hpacket, hrest⟩ := hfill
  rw [hrest, List.length_drop]
  have hlen := congrArg List.length hpacket
  rw [List.length_take] at hlen
  simp only [packetSize] at hfull hlen ⊢
  omega

end Validator

/-- The verdict on a segment file read through a source. -/
def Verdict.ofSource (file : String) (t : SegmentType) (extract : Bool) (s : Source) : Verdict :=
  Verdict.ofRun file ((Validator.new t extract).feedSource s).finish

end MpegTs
