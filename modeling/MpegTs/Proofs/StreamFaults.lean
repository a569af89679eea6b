import MpegTs.Proofs.HardFailures
import MpegTs.Avc.Handler

/-!
# Handlers fail only with faults of their own stream

An AVC handler checks the PES packets and NAL units of one PID. When it fails, the fault is
one of that stream: a NAL unit it cannot decode, a break of the SAP order, an IDR slice
before any PCR, a PES packet without NAL units, or a bounded one cut short at the end of the
run; or an I/O error of the sink it copies the stream to (`Error.isStreamFault`). It never
reports a fault of the transport stream or of the segment as a whole, such as a missing PAT,
PMT or PCR: those are the validator's own.

`FaultOutcome r` says that `r` fails, if it does, with a stream fault. It is built up the
way the handler is, from the slice header reader to the end of the run; a slice header fails
to decode only with a read fault, which its NAL unit reports as invalid. Stream faults are
hard, so the handler also fails only hard (`FaultOutcome.hard`).

## Main statements

* `SliceHeader.read_error`: the slice header reader fails only with read faults.
* `AvcHandler.faultOutcome_processPes`: the check of one PES payload.
* `AvcHandler.faultOutcome_finish`: the end of one handler.
-/

namespace MpegTs

namespace Error

/-- The faults that the handler of an elementary stream reports: those of the stream, and
the I/O errors of its sink. -/
def isStreamFault : Error → Bool
  | io _ => true
  | invalidNalUnit _ => true
  | sapViolation _ => true
  | missingPcrBeforeIdr => true
  | noNalUnits _ _ => true
  | incompleteBoundedPes _ _ => true
  | _ => false

theorem isSoft_of_isStreamFault {e : Error} (he : e.isStreamFault = true) : e.isSoft = false := by
  cases e <;> simp_all [isStreamFault, isSoft]

end Error

/-- The outcome fails, if it does, with a stream fault. -/
def FaultOutcome {α : Type} (r : Except Error α) : Prop :=
  ∀ e, r = .error e → e.isStreamFault = true

theorem faultOutcome_ok {α : Type} (a : α) : FaultOutcome (.ok a : Except Error α) := by
  intro e h
  cases h

theorem faultOutcome_error {α : Type} {e : Error} (he : e.isStreamFault = true) :
    FaultOutcome (.error e : Except Error α) := by
  intro e' h
  cases h
  exact he

theorem FaultOutcome.map {α β : Type} {r : Except Error α} (f : α → β) (h : FaultOutcome r) :
    FaultOutcome (r.map f) := by
  intro e he
  cases r with
  | ok a => cases he
  | error e' =>
    cases he
    exact h _ rfl

theorem FaultOutcome.bind {α β : Type} {r : Except Error α} {f : α → Except Error β}
    (h : FaultOutcome r) (hf : ∀ a, FaultOutcome (f a)) : FaultOutcome (r.bind f) := by
  intro e he
  cases r with
  | ok a => exact hf a e he
  | error e' =>
    cases he
    exact h _ rfl

theorem FaultOutcome.hard {α : Type} {r : Except Error α} (h : FaultOutcome r) : HardOutcome r :=
  fun e he => Error.isSoft_of_isStreamFault (h e he)

/-! ## Slice headers and NAL units -/

namespace BitRead

variable {c c' : BitCursor} {e : Error}

/-- An Exp-Golomb code fails to decode for want of bits or with a prefix too long. -/
theorem readUe_error (h : readUe c = .error e c') : ∃ f, e = .read f := by
  unfold readUe at h
  rcases bind_error h with ⟨c₁, hz⟩ | ⟨z, c₁, -, hrest⟩
  · exact scanPrefix_error hz
  · -- past the prefix: the overflow check, then the suffix bits
    dsimp only at hrest
    split at hrest
    · rcases bind_error hrest with ⟨c₂, hf⟩ | ⟨u, c₂, hf, -⟩
      · cases hf
        exact ⟨_, rfl⟩
      · cases hf
    · rcases bind_error hrest with ⟨c₂, hs⟩ | ⟨s, c₂, -, hp⟩
      · exact readBits_error hs
      · cases hp

end BitRead

open BitRead

/-- The slice header reader fails only with read faults. -/
theorem SliceHeader.read_error {c c' : BitCursor} {e : Error}
    (h : SliceHeader.read c = .error e c') : ∃ f, e = .read f := by
  unfold SliceHeader.read at h
  rcases bind_error h with ⟨c₁, h₁⟩ | ⟨_, c₁, -, h₁⟩
  · exact readUe_error h₁
  rcases bind_error h₁ with ⟨c₂, h₂⟩ | ⟨_, c₂, -, h₂⟩
  · exact readUe_error h₂
  rcases bind_error h₂ with ⟨c₃, h₃⟩ | ⟨_, c₃, -, h₃⟩
  · exact readUe_error h₃
  · cases h₃

/-- A slice header that fails to decode makes its NAL unit invalid; since its reader fails
only with read faults, no other error passes through. -/
theorem faultOutcome_sliceHeader (nalType : Nat) (body : List UInt8) :
    FaultOutcome (SliceHeader.ofBody nalType body) := by
  unfold SliceHeader.ofBody
  split
  · exact faultOutcome_ok _
  · exact faultOutcome_error rfl
  · rename_i e hne hr
    obtain ⟨c', hc'⟩ := runOn_error hr
    obtain ⟨f, rfl⟩ := SliceHeader.read_error hc'
    exact absurd rfl (hne f)

theorem NalUnit.faultOutcome_parse (raw : List UInt8) : FaultOutcome (NalUnit.parse raw) := by
  unfold NalUnit.parse
  split
  · exact faultOutcome_error rfl
  · dsimp only
    split
    · exact faultOutcome_error rfl
    · apply FaultOutcome.map
      split
      · split
        · exact faultOutcome_ok _
        · exact faultOutcome_error rfl
      · split
        · exact (faultOutcome_sliceHeader _ _).map _
        · exact faultOutcome_ok _

/-! ## The handler -/

theorem SapStage.faultOutcome_advance (s : SapStage) (n : NalUnit) :
    FaultOutcome (s.advance n) := by
  unfold SapStage.advance
  split
  · split
    · exact faultOutcome_ok _
    · exact faultOutcome_error rfl
  · exact faultOutcome_ok _
  · split
    · exact faultOutcome_ok _
    · split
      · exact faultOutcome_error rfl
      · split
        · exact faultOutcome_error rfl
        · exact faultOutcome_ok _

namespace AvcHandler

theorem faultOutcome_processNals (b : Bool) (raws : List (List UInt8)) (h : AvcHandler) :
    FaultOutcome (h.processNals b raws).2 := by
  induction raws generalizing h with
  | nil => exact faultOutcome_ok ()
  | cons raw rest ih =>
    simp only [processNals]
    cases hp : NalUnit.parse raw with
    | error e => exact faultOutcome_error (NalUnit.faultOutcome_parse raw e hp)
    | ok nal =>
      simp only
      split
      · rename_i e hstage
        -- outside SAP mode the stage is kept, so a failure is the order check's
        split at hstage
        · exact faultOutcome_error (SapStage.faultOutcome_advance _ _ e hstage)
        · cases hstage
      · split
        · exact faultOutcome_error rfl
        · exact ih _

/-- An extraction fails only with the sink's I/O error. -/
theorem faultOutcome_extract (h : AvcHandler) (data : List UInt8) :
    FaultOutcome (h.extract data) := by
  intro e he
  unfold extract at he
  split at he
  · cases he
  · split at he
    · cases he
      rfl
    · cases he

/-- A flush fails only with the sink's I/O error. -/
theorem faultOutcome_flush (h : AvcHandler) : FaultOutcome h.flush := by
  intro e he
  unfold flush at he
  split at he
  · cases he
  · split at he
    · cases he
      rfl
    · cases he

theorem faultOutcome_processPes (h : AvcHandler) (pes : CompletedPes) (b : Bool) :
    FaultOutcome (h.processPes pes b).2 := by
  dsimp only [processPes]
  split
  · rename_i e he
    exact faultOutcome_error (faultOutcome_extract h pes.data e he)
  · -- the payload was copied; its units are checked
    rename_i h' _
    have hnals := faultOutcome_processNals b (nalUnits pes.data) h'
    split
    · rename_i h'' e heq
      rw [heq] at hnals
      exact hnals
    · split
      · exact faultOutcome_error rfl
      · exact faultOutcome_ok ()

/-- The assembler's end reports only a bounded PES packet cut short. -/
theorem faultOutcome_assemblerFinish (s : PesAssembler) (d : Diagnostics) :
    FaultOutcome (s.finish d).result := by
  dsimp only [PesAssembler.finish]
  split
  · exact faultOutcome_ok _
  · split
    · exact faultOutcome_ok _
    · exact faultOutcome_ok _
    · split
      · exact faultOutcome_error rfl
      · exact faultOutcome_ok _

/-- The last payload is checked, or only copied after earlier errors. -/
theorem faultOutcome_endLast (h : AvcHandler) (clean : Bool) (pes : CompletedPes) :
    FaultOutcome (h.endLast clean pes).2 := by
  unfold endLast
  split
  · exact faultOutcome_processPes h pes h.sawPcr
  · split
    · rename_i e he
      exact faultOutcome_error (faultOutcome_extract h pes.data e he)
    · exact faultOutcome_ok ()

theorem faultOutcome_endStream (h : AvcHandler) (d : Diagnostics) :
    FaultOutcome (h.endStream d).2 := by
  dsimp only [endStream]
  split
  · rename_i e he
    exact faultOutcome_error (faultOutcome_assemblerFinish h.assembler d e he)
  · exact faultOutcome_ok ()
  · exact faultOutcome_endLast _ _ _

/-- The end of a handler: a bounded PES packet cut short, a fault of the last payload, or
the sink's I/O error. -/
theorem faultOutcome_finish (h : AvcHandler) (d : Diagnostics) :
    FaultOutcome (h.finish d).result :=
  (faultOutcome_endStream h d).bind fun _ => faultOutcome_flush _

end AvcHandler

end MpegTs
