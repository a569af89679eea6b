import MpegTs.Psi.Pmt
import MpegTs.Psi.Pat
import MpegTs.Packet.Codec
import MpegTs.Pes.Packet
import MpegTs.Avc.Nal

/-!
# Decoders fail only with hard errors

Three errors are soft: a scrambled stream, an unsupported stream type and an unbounded PES
packet cut short at the end. They are recorded as warnings and never fail a verdict, so no
decoder may fail with one. This file shows that none does.

A reader is shown to fail hard by building it from pieces that do (`BitRead.FailsHard`):
binds, branches, hard throws and the primitive reads, which fail only with read faults. Each
reader's derivation is written against its own text, one constructor per statement of its
`do` block, from the derivations of the smaller readers it calls (`FailsHard.sound` then
gives the semantic fact). Decoders that return an `Except` are covered by `HardOutcome`.

## Main statements

* `BitRead.FailsHard.sound`: a reader built so fails only with hard errors.
* `TsPacket.hardOutcome_parse`, `hardOutcome_sectionStart`, `hardOutcome_parsePat`,
  `hardOutcome_parsePmt`, `PesPacket.hardOutcome_parse`, `NalUnit.hardOutcome_parse`.
-/

namespace MpegTs

/-- The outcome fails, if it does, with a hard error. -/
def HardOutcome {α : Type} (r : Except Error α) : Prop := ∀ e, r = .error e → e.isSoft = false

theorem hardOutcome_ok {α : Type} (a : α) : HardOutcome (.ok a : Except Error α) := by
  intro e h
  cases h

theorem hardOutcome_error {α : Type} {e : Error} (he : e.isSoft = false) :
    HardOutcome (.error e : Except Error α) := by
  intro e' h
  cases h
  exact he

theorem HardOutcome.map {α β : Type} {r : Except Error α} (f : α → β) (h : HardOutcome r) :
    HardOutcome (r.map f) := by
  intro e he
  cases r with
  | ok a => cases he
  | error e' =>
    cases he
    exact h _ rfl

theorem HardOutcome.bind {α β : Type} {r : Except Error α} {f : α → Except Error β}
    (h : HardOutcome r) (hf : ∀ a, HardOutcome (f a)) : HardOutcome (r >>= f) := by
  intro e he
  cases r with
  | ok a => exact hf a e he
  | error e' =>
    cases he
    exact h _ rfl

namespace BitRead

/-- Readers built from reads, hard throws, binds and branches. Each constructor is a way
the decoders of this library combine readers. -/
inductive FailsHard : {α : Type} → BitRead α → Prop
  | within {α : Type} {r : BitRead α} (n : Nat) : FailsHard r → FailsHard (within n r)
  | throwBind {α β : Type} {e : Error} {f : α → BitRead β} :
      e.isSoft = false → FailsHard (throw e >>= f)
  | bind {α β : Type} {x : BitRead α} {f : α → BitRead β} :
      FailsHard x → (∀ a, FailsHard (f a)) → FailsHard (x >>= f)
  | ite {α : Type} {p : Prop} [Decidable p] {x y : BitRead α} :
      FailsHard x → FailsHard y → FailsHard (if p then x else y)
  | pure {α : Type} (a : α) : FailsHard (Pure.pure a)
  | throw {α : Type} {e : Error} : e.isSoft = false → FailsHard (throw e : BitRead α)
  | map {α β : Type} {x : BitRead α} (f : α → β) : FailsHard x → FailsHard (f <$> x)
  | ofExcept {α : Type} {r : Except Error α} : HardOutcome r → FailsHard (MonadExcept.ofExcept r)
  | get : FailsHard (MonadState.get : BitRead BitCursor)
  | readBits (n : Nat) : FailsHard (readBits n)
  | skipBits (n : Nat) : FailsHard (skipBits n)
  | readBytes (n : Nat) : FailsHard (readBytes n)
  | remainingSlice : FailsHard remainingSlice
  | scanPrefix : FailsHard scanPrefix

/-- What a failing bind ran: its first reader failed, or that one succeeded and the rest
failed. -/
theorem bind_error {α β : Type} {x : BitRead α} {f : α → BitRead β} {c c' : BitCursor}
    {e : Error} (h : (x >>= f) c = .error e c') :
    (∃ c₁, x c = .error e c₁) ∨ ∃ a c₁, x c = .ok a c₁ ∧ f a c₁ = .error e c' := by
  simp only [bind, EStateM.bind] at h
  cases hx : x c with
  | ok a c₁ =>
    rw [hx] at h
    exact Or.inr ⟨a, c₁, rfl, h⟩
  | error e' c₁ =>
    rw [hx] at h
    cases h
    exact Or.inl ⟨_, rfl⟩

/-- A failing mapped reader: the reader failed, with the same error and cursor. -/
theorem map_error {α β : Type} {x : BitRead α} {f : α → β} {c c' : BitCursor} {e : Error}
    (h : (f <$> x) c = .error e c') : x c = .error e c' := by
  simp only [Functor.map, EStateM.map] at h
  split at h
  · cases h
  · cases h
    assumption

/-- A failing `ofExcept` failed with the outcome's error. -/
theorem ofExcept_error {α : Type} {r : Except Error α} {c c' : BitCursor} {e : Error}
    (h : (MonadExcept.ofExcept r : BitRead α) c = .error e c') : r = .error e := by
  cases r with
  | ok a => cases h
  | error e' =>
    cases h
    rfl

/-- The primitive reads fail only with read faults. -/
theorem readBits_error {n : Nat} {c c' : BitCursor} {e : Error}
    (h : readBits n c = .error e c') : ∃ f, e = .read f := by
  simp only [readBits] at h
  split at h
  · cases h
  · cases h
    exact ⟨_, rfl⟩

theorem skipBits_error {n : Nat} {c c' : BitCursor} {e : Error}
    (h : skipBits n c = .error e c') : ∃ f, e = .read f := by
  simp only [skipBits] at h
  split at h
  · cases h
  · cases h
    exact ⟨_, rfl⟩

theorem readBytes_error {n : Nat} {c c' : BitCursor} {e : Error}
    (h : readBytes n c = .error e c') : ∃ f, e = .read f := by
  simp only [readBytes] at h
  split at h
  · cases h
    exact ⟨_, rfl⟩
  · split at h
    · -- the bytes were there: only the skip over them failed
      exact skipBits_error (map_error h)
    · cases h
      exact ⟨_, rfl⟩

theorem remainingSlice_error {c c' : BitCursor} {e : Error}
    (h : remainingSlice c = .error e c') : ∃ f, e = .read f := by
  simp only [remainingSlice] at h
  split at h
  · cases h
  · cases h
    exact ⟨_, rfl⟩

theorem scanPrefix_error {c c' : BitCursor} {e : Error}
    (h : scanPrefix c = .error e c') : ∃ f, e = .read f := by
  simp only [scanPrefix] at h
  split at h
  · cases h
  · cases h
    exact ⟨_, rfl⟩

/-- The outcome of a reader on a byte string of its own. -/
theorem runOn_error {α : Type} {r : BitRead α} {bytes : List UInt8} {e : Error}
    (h : r.runOn bytes = .error e) : ∃ c', r (BitCursor.ofBytes bytes) = .error e c' := by
  simp only [runOn, EStateM.run] at h
  split at h
  · cases h
  · rename_i e' c' hr
    cases h
    exact ⟨c', hr⟩

/-- A reader built from the pieces of `FailsHard` fails only with hard errors. -/
theorem FailsHard.sound {α : Type} {r : BitRead α} (hr : FailsHard r) :
    ∀ {c c' : BitCursor} {e : Error}, r c = .error e c' → e.isSoft = false := by
  induction hr with
  | within n _ ih =>
    intro c c' e h
    rcases bind_error h with ⟨c₁, hx⟩ | ⟨block, c₁, _, hf⟩
    · obtain ⟨f, rfl⟩ := readBytes_error hx
      rfl
    · -- the block's reader failed on a cursor of its own
      obtain ⟨c₂, hc₂⟩ := runOn_error (ofExcept_error hf)
      exact ih hc₂
  | throwBind he =>
    intro c c' e h
    cases h
    exact he
  | bind _ _ ihx ihf =>
    intro c c' e h
    rcases bind_error h with ⟨c₁, hx⟩ | ⟨a, c₁, _, hf⟩
    · exact ihx hx
    · exact ihf a hf
  | ite _ _ ihx ihy =>
    intro c c' e h
    split at h
    · exact ihx h
    · exact ihy h
  | pure a =>
    intro c c' e h
    cases h
  | throw he =>
    intro c c' e h
    cases h
    exact he
  | map f _ ih =>
    intro c c' e h
    exact ih (map_error h)
  | ofExcept hout =>
    intro c c' e h
    exact hout e (ofExcept_error h)
  | get =>
    intro c c' e h
    cases h
  | readBits n =>
    intro c c' e h
    obtain ⟨f, rfl⟩ := readBits_error h
    rfl
  | skipBits n =>
    intro c c' e h
    obtain ⟨f, rfl⟩ := skipBits_error h
    rfl
  | readBytes n =>
    intro c c' e h
    obtain ⟨f, rfl⟩ := readBytes_error h
    rfl
  | remainingSlice =>
    intro c c' e h
    obtain ⟨f, rfl⟩ := remainingSlice_error h
    rfl
  | scanPrefix =>
    intro c c' e h
    obtain ⟨f, rfl⟩ := scanPrefix_error h
    rfl

theorem FailsHard.runOn {α : Type} {r : BitRead α} (hr : FailsHard r) (bytes : List UInt8) :
    HardOutcome (r.runOn bytes) := by
  intro e h
  obtain ⟨c', hc'⟩ := runOn_error h
  exact hr.sound hc'

/-! ## The small readers

The fixed-width fields, flags and optional fields that the decoders are made of. -/

theorem failsHard_readFlag : FailsHard readFlag :=
  .bind (.readBits 1) fun _ => .pure _

theorem failsHard_readU8 : FailsHard readU8 := .readBits 8

theorem failsHard_readU16 : FailsHard readU16 := .readBits 16

theorem failsHard_readU24 : FailsHard readU24 := .readBits 24

theorem failsHard_readU32 : FailsHard readU32 := .readBits 32

/-- An optional field fails only as its reader does. -/
theorem FailsHard.readIf {α : Type} {r : BitRead α} (present : Bool) (h : FailsHard r) :
    FailsHard (readIf present r) :=
  .ite (.map some h) (.pure none)

/-! ## The readers

Each derivation follows its reader's `do` block statement by statement: a bind for each
read, `.ite (.throwBind rfl)` for each guard `if … then throw …` (the error is hard by its
definition), `.within` for a length-prefixed block. -/

theorem failsHard_readTimestamp : FailsHard readTimestamp :=
  .bind (.readBits 3) fun _ => .bind (.skipBits 1) fun _ =>
  .bind (.readBits 15) fun _ => .bind (.skipBits 1) fun _ =>
  .bind (.readBits 15) fun _ => .bind (.skipBits 1) fun _ =>
  .pure _

theorem failsHard_readUe : FailsHard readUe :=
  .bind .scanPrefix fun _ =>
  .ite (.throwBind rfl) <|
  .bind (.readBits _) fun _ => .pure _

end BitRead

open BitRead

theorem Pcr.failsHard_read : FailsHard Pcr.read :=
  .bind (.readBits 33) fun _ => .bind (.skipBits 6) fun _ => .bind (.readBits 9) fun _ => .pure _

theorem TsHeader.failsHard_read : FailsHard TsHeader.read :=
  .bind failsHard_readU8 fun _ =>
  .ite (.throwBind rfl) <|
  .bind failsHard_readFlag fun _ => .bind failsHard_readFlag fun _ =>
  .bind failsHard_readFlag fun _ =>
  .bind (.readBits 13) fun _ =>
  .ite (.throwBind rfl) <|
  .bind (.readBits 2) fun _ => .bind (.readBits 2) fun _ => .bind (.readBits 4) fun _ =>
  .pure _

theorem AfExtension.failsHard_fields : FailsHard AfExtension.fields :=
  .bind failsHard_readFlag fun _ => .bind failsHard_readFlag fun _ =>
  .bind failsHard_readFlag fun _ =>
  .bind (.skipBits 5) fun _ =>
  -- legal time window, piecewise rate, seamless splice
  .bind (.readIf _ (.bind failsHard_readFlag fun _ => .bind (.readBits 15) fun _ => .pure _))
    fun _ =>
  .bind (.readIf _ (.bind (.skipBits 2) fun _ => .readBits 22)) fun _ =>
  .bind (.readIf _ (.bind (.readBits 4) fun _ => .bind failsHard_readTimestamp fun _ => .pure _))
    fun _ =>
  .pure _

theorem AfExtension.failsHard_read : FailsHard AfExtension.read :=
  .bind failsHard_readU8 fun _ => .within _ (.ite (.pure _) failsHard_fields)

theorem AdaptationField.failsHard_fields (length : Nat) :
    FailsHard (AdaptationField.fields length) :=
  .bind failsHard_readFlag fun _ => .bind failsHard_readFlag fun _ =>
  .bind failsHard_readFlag fun _ => .bind failsHard_readFlag fun _ =>
  .bind failsHard_readFlag fun _ => .bind failsHard_readFlag fun _ =>
  .bind failsHard_readFlag fun _ => .bind failsHard_readFlag fun _ =>
  -- PCR, OPCR, splice countdown, private data, extension
  .bind (.readIf _ Pcr.failsHard_read) fun _ =>
  .bind (.readIf _ Pcr.failsHard_read) fun _ =>
  .bind (.readIf _ (.map _ failsHard_readU8)) fun _ =>
  .bind (.readIf _ (.bind failsHard_readU8 fun n => .readBytes n)) fun _ =>
  .bind (.readIf _ AfExtension.failsHard_read) fun _ =>
  .pure _

theorem AdaptationField.failsHard_read (available : Nat) :
    FailsHard (AdaptationField.read available) :=
  .bind failsHard_readU8 fun length =>
  .ite (.throwBind rfl) <|
  .within _ (.ite (.pure _) (failsHard_fields length))

theorem TsPacket.failsHard_body : FailsHard TsPacket.body :=
  .bind TsHeader.failsHard_read fun _ =>
  .bind (.readIf _ (.bind .get fun _ => AdaptationField.failsHard_read _)) fun _ =>
  .bind (.readIf _ .remainingSlice) fun _ =>
  .pure _

/-- Decoding a transport packet fails only hard. -/
theorem TsPacket.hardOutcome_parse (data : List UInt8) : HardOutcome (TsPacket.parse data) := by
  unfold TsPacket.parse
  split
  · exact hardOutcome_error rfl
  · exact TsPacket.failsHard_body.runOn _

theorem hardOutcome_sectionStart (payload : List UInt8) : HardOutcome (sectionStart payload) :=
  FailsHard.runOn (.bind failsHard_readU8 fun _ => .bind (.skipBits _) fun _ => .remainingSlice)
    payload

theorem failsHard_sectionHeader (t : TableKind) (n : Nat) : FailsHard (SectionHeader.read t n) :=
  .bind failsHard_readU8 fun _ =>
  .ite (.throwBind rfl) <|
  .bind failsHard_readFlag fun _ =>
  .ite (.throwBind rfl) <|
  .bind failsHard_readFlag fun _ => .bind (.skipBits 2) fun _ =>
  .bind (.readBits 12) fun _ =>
  .ite (.throwBind rfl) <|
  .bind .get fun _ =>
  .ite (.throwBind rfl) (.pure _)

theorem failsHard_syntaxHeader (t : TableKind) : FailsHard (SyntaxHeader.read t) :=
  .bind failsHard_readU16 fun _ => .bind (.skipBits 2) fun _ =>
  .bind (.readBits 5) fun _ => .bind failsHard_readFlag fun _ =>
  .bind failsHard_readU8 fun _ => .bind failsHard_readU8 fun _ =>
  .ite (.throwBind rfl) (.pure _)

theorem hardOutcome_verifyCrc (t : TableKind) (bytes : List UInt8) :
    HardOutcome (verifyCrc t bytes) := by
  unfold verifyCrc
  split
  · exact hardOutcome_error rfl
  · dsimp only
    split
    · exact hardOutcome_error rfl
    · exact hardOutcome_ok ()

theorem PatEntry.failsHard_read : FailsHard PatEntry.read :=
  .bind failsHard_readU16 fun _ => .bind (.skipBits 3) fun _ => .bind (.readBits 13) fun _ =>
  .pure _

theorem failsHard_readPatEntries : ∀ n, FailsHard (readPatEntries n)
  | 0 => .pure _
  | n + 1 =>
    .bind PatEntry.failsHard_read fun _ => .bind (failsHard_readPatEntries n) fun _ => .pure _

theorem failsHard_patBody (data : List UInt8) (header : SectionHeader) :
    FailsHard (patBody data header) :=
  .ite (.throwBind rfl) <|
  .bind (failsHard_syntaxHeader _) fun _ =>
  .bind (failsHard_readPatEntries _) fun _ =>
  .bind failsHard_readU32 fun _ =>
  .bind (.ofExcept (hardOutcome_verifyCrc _ _)) fun _ =>
  .pure _

theorem hardOutcome_parsePat (data : List UInt8) : HardOutcome (parsePat data) :=
  FailsHard.runOn (.bind (failsHard_sectionHeader _ _) (failsHard_patBody data)) data

theorem hardOutcome_parseDescriptors : ∀ bytes, HardOutcome (parseDescriptors bytes)
  | [] => by
    rw [parseDescriptors]
    exact hardOutcome_ok _
  | [_] => by
    rw [parseDescriptors]
    exact hardOutcome_error rfl
  | tag :: len :: rest => by
    rw [parseDescriptors]
    split
    · have hrest := hardOutcome_parseDescriptors (rest.drop len.toNat)
      split
      · exact hardOutcome_ok _
      · rename_i e he
        exact hardOutcome_error (hrest e he)
    · exact hardOutcome_error rfl
termination_by bytes => bytes.length
decreasing_by simp only [List.length_cons, List.length_drop]; omega

theorem failsHard_readDescriptors (n : Nat) : FailsHard (readDescriptors n) :=
  .bind (.readBytes n) fun block => .ofExcept (hardOutcome_parseDescriptors block)

theorem EsInfo.failsHard_read : FailsHard EsInfo.read :=
  .bind failsHard_readU8 fun _ => .bind (.skipBits 3) fun _ => .bind (.readBits 13) fun _ =>
  .bind (.skipBits 4) fun _ => .bind (.readBits 12) fun _ =>
  .ite (.throwBind rfl) <|
  .bind (failsHard_readDescriptors _) fun _ =>
  .pure _

theorem failsHard_readEsEntries (sectionEnd : Nat) : ∀ n, FailsHard (readEsEntries sectionEnd n)
  | 0 => .pure _
  | n + 1 =>
    -- the loop ends when no more than the CRC is left, else reads an entry and goes on
    .bind .get fun _ =>
    .ite (.pure _) <|
    .bind EsInfo.failsHard_read fun _ =>
    .bind (failsHard_readEsEntries sectionEnd n) fun _ =>
    .pure _

theorem failsHard_pmtBody (data : List UInt8) (header : SectionHeader) :
    FailsHard (pmtBody data header) :=
  .ite (.throwBind rfl) <|
  .bind (failsHard_syntaxHeader _) fun _ =>
  .bind (.skipBits 3) fun _ => .bind (.readBits 13) fun _ =>
  .ite (.throwBind rfl) <|
  .ite (.throwBind rfl) <|
  .bind (.skipBits 4) fun _ => .bind (.readBits 12) fun _ =>
  .ite (.throwBind rfl) <|
  .bind (failsHard_readDescriptors _) fun _ =>
  .bind (failsHard_readEsEntries _ _) fun _ =>
  .bind .get fun _ =>
  .ite (.throwBind rfl) <|
  .bind failsHard_readU32 fun _ =>
  .bind (.ofExcept (hardOutcome_verifyCrc _ _)) fun _ =>
  .pure _

theorem hardOutcome_parsePmt (data : List UInt8) : HardOutcome (parsePmt data) :=
  FailsHard.runOn (.bind (failsHard_sectionHeader _ _) (failsHard_pmtBody data)) data

theorem PesExtension.failsHard_read : FailsHard PesExtension.read :=
  .bind failsHard_readFlag fun _ => .bind failsHard_readFlag fun _ =>
  .bind failsHard_readFlag fun _ => .bind failsHard_readFlag fun _ =>
  .bind (.skipBits 3) fun _ => .bind failsHard_readFlag fun _ =>
  -- private data, pack header, sequence counter, P-STD buffer, second extension
  .bind (.readIf _ (.readBytes 16)) fun _ =>
  .bind (.readIf _ (.bind failsHard_readU8 fun n => .readBytes n)) fun _ =>
  .bind (.readIf _ (.bind (.skipBits 1) fun _ => .bind (.readBits 7) fun _ =>
    .bind (.skipBits 1) fun _ => .bind failsHard_readFlag fun _ => .bind (.readBits 6) fun _ =>
    .pure _)) fun _ =>
  .bind (.readIf _ (.bind (.skipBits 2) fun _ => .bind failsHard_readFlag fun _ =>
    .bind (.readBits 13) fun _ => .pure _)) fun _ =>
  .bind (.readIf _ (.bind (.skipBits 1) fun _ => .bind (.readBits 7) fun n => .readBytes n))
    fun _ =>
  .pure _

theorem PesOptionalHeader.failsHard_fields (o : PesOptionalHeader) (timestampFlags : Nat)
    (escrFlag rateFlag trickFlag copyFlag crcFlag extFlag : Bool) :
    FailsHard (o.fields timestampFlags escrFlag rateFlag trickFlag copyFlag crcFlag extFlag) :=
  -- PTS, DTS, ESCR, ES rate, trick mode, copy info, previous CRC, extension
  .bind (.readIf _ (.bind (.skipBits 4) fun _ => failsHard_readTimestamp)) fun _ =>
  .bind (.readIf _ (.bind (.skipBits 4) fun _ => failsHard_readTimestamp)) fun _ =>
  .bind (.readIf _ (.bind (.skipBits 2) fun _ => .bind failsHard_readTimestamp fun _ =>
    .bind (.readBits 9) fun _ => .bind (.skipBits 1) fun _ => .pure _)) fun _ =>
  .bind (.readIf _ (.bind (.skipBits 1) fun _ => .bind (.readBits 22) fun _ =>
    .bind (.skipBits 1) fun _ => .pure _)) fun _ =>
  .bind (.readIf _ failsHard_readU8) fun _ =>
  .bind (.readIf _ (.bind (.skipBits 1) fun _ => .readBits 7)) fun _ =>
  .bind (.readIf _ failsHard_readU16) fun _ =>
  .bind (.readIf _ PesExtension.failsHard_read) fun _ =>
  .pure _

theorem PesOptionalHeader.failsHard_read : FailsHard PesOptionalHeader.read :=
  .bind (.readBits 2) fun _ =>
  .ite (.throwBind rfl) <|
  .bind (.readBits 2) fun _ =>
  .bind failsHard_readFlag fun _ => .bind failsHard_readFlag fun _ =>
  .bind failsHard_readFlag fun _ => .bind failsHard_readFlag fun _ =>
  .bind (.readBits 2) fun _ =>
  .bind failsHard_readFlag fun _ => .bind failsHard_readFlag fun _ =>
  .bind failsHard_readFlag fun _ => .bind failsHard_readFlag fun _ =>
  .bind failsHard_readFlag fun _ => .bind failsHard_readFlag fun _ =>
  .bind failsHard_readU8 fun _ =>
  .ite (.throwBind rfl) <|
  .within _ (failsHard_fields _ _ _ _ _ _ _ _)

theorem failsHard_pesHeader : FailsHard PesHeader.read :=
  .bind failsHard_readU24 fun _ =>
  .ite (.throwBind rfl) <|
  .bind failsHard_readU8 fun _ => .bind failsHard_readU16 fun _ =>
  .bind (.readIf _ PesOptionalHeader.failsHard_read) fun _ =>
  .pure _

/-- A header cut short is reported as malformed; the other faults stay. -/
theorem PesPacket.isSoft_truncatedHeader {e : Error} (he : e.isSoft = false) :
    (PesPacket.truncatedHeader e).isSoft = false := by
  unfold PesPacket.truncatedHeader
  split
  · rfl
  · exact he

theorem PesPacket.hardOutcome_parse (data : List UInt8) : HardOutcome (PesPacket.parse data) := by
  unfold PesPacket.parse
  split
  · rename_i e c h
    exact hardOutcome_error (isSoft_truncatedHeader (failsHard_pesHeader.sound h))
  · exact hardOutcome_ok _

theorem PesHeader.hardOutcome_declaredPayloadLen (h : PesHeader) :
    HardOutcome h.declaredPayloadLen := by
  dsimp only [PesHeader.declaredPayloadLen]
  split
  · exact hardOutcome_ok _
  · exact hardOutcome_error rfl

theorem hardOutcome_sliceHeader (nalType : Nat) (body : List UInt8) :
    HardOutcome (SliceHeader.ofBody nalType body) := by
  have hread : FailsHard SliceHeader.read :=
    .bind failsHard_readUe fun _ => .bind failsHard_readUe fun _ => .bind failsHard_readUe fun _ =>
    .pure _
  have hrun := hread.runOn (removeEmulationPrevention (body.take 32))
  unfold SliceHeader.ofBody
  split
  · exact hardOutcome_ok _
  · exact hardOutcome_error rfl
  · rename_i e _ hr
    exact hardOutcome_error (hrun e hr)

theorem NalUnit.hardOutcome_parse (raw : List UInt8) : HardOutcome (NalUnit.parse raw) := by
  unfold NalUnit.parse
  split
  · exact hardOutcome_error rfl
  · dsimp only
    split
    · exact hardOutcome_error rfl
    · -- past the header byte only a delimiter without payload or a slice header can fail
      apply HardOutcome.map
      split
      · split
        · exact hardOutcome_ok _
        · exact hardOutcome_error rfl
      · split
        · exact (hardOutcome_sliceHeader _ _).map _
        · exact hardOutcome_ok _

end MpegTs
