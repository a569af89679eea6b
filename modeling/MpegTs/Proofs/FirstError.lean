import MpegTs.Proofs.StreamFaults
import MpegTs.Proofs.PcrBeforeIdr

/-!
# The first hard error decides the verdict

A run records what it finds in `Diagnostics`: hard errors in `errors`, soft conditions and
remarks in `warnings`, and its status is the code of the first error. This file shows that
the validator keeps the two lists apart and that a failed feed always fails the verdict:

* a feed that fails returns a hard error and has recorded it as the next error; a feed that
  succeeds only adds warnings (`Validator.feed_diagnostics`);
* over a run of feeds stopping at the first failure, then `finish`, the status is zero
  exactly when no error was recorded, the code of the first error otherwise, and after a
  failed feed that error is the one the feed returned (`first_error_wins`).

The step facts are carried by two relations between diagnostics: `Diagnostics.Warns` (only
warnings added) for everything a packet does before its outcome is recorded, and
`Diagnostics.Grows` (hard errors and warnings added) for the end of the run. Every step of
the validator, from the PES assembler up, is shown to add only warnings and to fail, if at
all, with a hard error (`HardOutcome`), the decoders' part coming from `HardFailures` and the
handler's from `StreamFaults`. Ending the handlers adds to the errors only faults of their
streams (`Diagnostics.AddsFaults`, `Stream.addsFaults_finish`).
-/

namespace MpegTs

/-- Every error has a non-zero code, so a non-empty error list gives a non-zero status. -/
theorem Error.code_ne_zero (e : Error) : e.code ≠ 0 := by
  cases e <;> simp [Error.code]

namespace Issue

/-- An entry that a hard error leaves among the errors. -/
def IsHard (i : Issue) : Prop := ∃ e : Error, e.isSoft = false ∧ i = e.toIssue

/-- An entry that a soft condition or a remark leaves among the warnings. -/
def IsWarning (i : Issue) : Prop := i.code = 0 ∨ ∃ e : Error, e.isSoft = true ∧ i = e.toIssue

theorem IsHard.code_ne_zero {i : Issue} (h : i.IsHard) : i.code ≠ 0 := by
  obtain ⟨e, _, rfl⟩ := h
  exact e.code_ne_zero

end Issue

namespace Diagnostics

/-- `d'` is `d` with warnings added, and nothing else. -/
structure Warns (d d' : Diagnostics) : Prop where
  errors : d'.errors = d.errors
  warnings : ∃ ws, d'.warnings = d.warnings ++ ws ∧ ∀ i ∈ ws, i.IsWarning

/-- `d'` is `d` with hard errors and warnings added. -/
structure Grows (d d' : Diagnostics) : Prop where
  errors : ∃ es, d'.errors = d.errors ++ es ∧ ∀ i ∈ es, i.IsHard
  warnings : ∃ ws, d'.warnings = d.warnings ++ ws ∧ ∀ i ∈ ws, i.IsWarning

/-- `d'` is `d` with warnings added and then the hard error `e` recorded. -/
structure Fails (d d' : Diagnostics) (e : Error) : Prop where
  hard : e.isSoft = false
  errors : d'.errors = d.errors ++ [e.toIssue]
  warnings : ∃ ws, d'.warnings = d.warnings ++ ws ∧ ∀ i ∈ ws, i.IsWarning

variable {d d₁ d₂ : Diagnostics}

theorem Warns.refl (d : Diagnostics) : d.Warns d := ⟨rfl, [], by simp, by simp⟩

theorem Warns.trans (h₁ : d.Warns d₁) (h₂ : d₁.Warns d₂) : d.Warns d₂ := by
  obtain ⟨ws₁, hw₁, hi₁⟩ := h₁.warnings
  obtain ⟨ws₂, hw₂, hi₂⟩ := h₂.warnings
  exact ⟨h₂.errors.trans h₁.errors, ws₁ ++ ws₂, by rw [hw₂, hw₁, List.append_assoc],
    List.forall_mem_append.2 ⟨hi₁, hi₂⟩⟩

theorem Grows.refl (d : Diagnostics) : d.Grows d := ⟨⟨[], by simp, by simp⟩, [], by simp, by simp⟩

theorem Grows.trans (h₁ : d.Grows d₁) (h₂ : d₁.Grows d₂) : d.Grows d₂ := by
  obtain ⟨es₁, he₁, hi₁⟩ := h₁.errors
  obtain ⟨es₂, he₂, hi₂⟩ := h₂.errors
  obtain ⟨ws₁, hw₁, hj₁⟩ := h₁.warnings
  obtain ⟨ws₂, hw₂, hj₂⟩ := h₂.warnings
  exact ⟨⟨es₁ ++ es₂, by rw [he₂, he₁, List.append_assoc], List.forall_mem_append.2 ⟨hi₁, hi₂⟩⟩,
    ⟨ws₁ ++ ws₂, by rw [hw₂, hw₁, List.append_assoc], List.forall_mem_append.2 ⟨hj₁, hj₂⟩⟩⟩

theorem Warns.grows (h : d.Warns d₁) : d.Grows d₁ :=
  ⟨⟨[], by simp [h.errors], by simp⟩, h.warnings⟩

/-- Warnings before a failure belong to the failure. -/
theorem Warns.fails {e : Error} (h₁ : d.Warns d₁) (h₂ : d₁.Fails d₂ e) : d.Fails d₂ e := by
  obtain ⟨ws₁, hw₁, hi₁⟩ := h₁.warnings
  obtain ⟨ws₂, hw₂, hi₂⟩ := h₂.warnings
  exact ⟨h₂.hard, by rw [h₂.errors, h₁.errors], ws₁ ++ ws₂,
    by rw [hw₂, hw₁, List.append_assoc], List.forall_mem_append.2 ⟨hi₁, hi₂⟩⟩

theorem Fails.grows {e : Error} (h : d.Fails d₁ e) : d.Grows d₁ :=
  ⟨⟨[e.toIssue], h.errors, by simpa using ⟨e, h.hard, rfl⟩⟩, h.warnings⟩

theorem warns_warn (d : Diagnostics) (m : String) : d.Warns (d.warn m) :=
  ⟨rfl, [⟨0, m⟩], rfl, by simp [Issue.IsWarning]⟩

theorem warns_record {e : Error} (he : e.isSoft = true) : d.Warns (d.record e) :=
  ⟨by simp [record, he], [e.toIssue], by simp [record, he],
    by simpa [Issue.IsWarning] using Or.inr ⟨e, he, rfl⟩⟩

theorem fails_record {e : Error} (he : e.isSoft = false) : d.Fails (d.record e) e :=
  ⟨he, by simp [record, he], [], by simp [record, he], by simp⟩

/-- Recording an error adds it where its softness files it. -/
theorem grows_record (d : Diagnostics) (e : Error) : d.Grows (d.record e) := by
  cases he : e.isSoft
  · exact (fails_record he).grows
  · exact (warns_record he).grows

/-- With only hard errors recorded, the status is zero exactly when there is none. -/
theorem status_eq_zero_iff (h : ∀ i ∈ d.errors, i.IsHard) : d.status = 0 ↔ d.errors = [] := by
  rw [status_eq_head]
  cases herr : d.errors with
  | nil => simp
  | cons i rest =>
    simp only [List.head?_cons, Option.map_some, Option.getD_some, reduceCtorEq, iff_false]
    exact (h i (by simp [herr])).code_ne_zero

end Diagnostics

/-- A step that adds only warnings to `d` and fails, if it does, with a hard error. -/
structure Stepped.WarnsHard {σ α : Type} (d : Diagnostics) (s : Stepped σ α) : Prop where
  warns : d.Warns s.diagnostics
  hard : HardOutcome s.result

theorem Stepped.warnsHard_ok {σ α : Type} (d : Diagnostics) (st : σ) (a : α) :
    Stepped.WarnsHard d ⟨st, d, .ok a⟩ :=
  ⟨.refl d, hardOutcome_ok a⟩

theorem Stepped.warnsHard_error {σ α : Type} (d : Diagnostics) (st : σ) {e : Error}
    (he : e.isSoft = false) : Stepped.WarnsHard (α := α) d ⟨st, d, .error e⟩ :=
  ⟨.refl d, hardOutcome_error he⟩

theorem Stepped.warnsHard_record {σ α : Type} (d : Diagnostics) (st : σ) (a : α) {e : Error}
    (he : e.isSoft = true) : Stepped.WarnsHard d ⟨st, d.record e, .ok a⟩ :=
  ⟨Diagnostics.warns_record he, hardOutcome_ok a⟩

/-! ## The PES assembler -/

namespace PesAssembler

theorem warnsHard_start (a : PesAssembler) (d : Diagnostics) (pusi : Bool) (payload : List UInt8)
    (done : List CompletedPes) : (a.start d pusi payload done).WarnsHard d := by
  dsimp only [start, disable]
  split
  · exact Stepped.warnsHard_error d _ rfl
  · split
    · rename_i e he
      exact Stepped.warnsHard_error d _ (PesPacket.hardOutcome_parse payload e he)
    · -- a scrambled or unsupported stream is given up with a warning
      split
      · exact Stepped.warnsHard_record d _ _ rfl
      · split
        · exact Stepped.warnsHard_record d _ _ rfl
        · split
          · exact Stepped.warnsHard_error d _ rfl
          · split
            · exact Stepped.warnsHard_error d _ rfl
            · split
              · exact Stepped.warnsHard_ok d _ _
              · split
                · rename_i e he
                  exact Stepped.warnsHard_error d _
                    (PesHeader.hardOutcome_declaredPayloadLen _ e he)
                · exact Stepped.warnsHard_ok d _ _

/-- One transport packet: the assembler only warns, and fails only hard. -/
theorem warnsHard_push (a : PesAssembler) (d : Diagnostics) (p : TsPacket) :
    (a.push d p).WarnsHard d := by
  dsimp only [push, disable]
  split
  · exact Stepped.warnsHard_ok d _ _
  · split
    · exact Stepped.warnsHard_record d _ _ rfl
    · split
      · exact Stepped.warnsHard_ok d _ _
      · exact Stepped.warnsHard_ok d _ _
      · split
        · exact warnsHard_start _ d _ _ _
        · split
          · exact Stepped.warnsHard_error d _ rfl
          · exact Stepped.warnsHard_ok d _ _
        · exact Stepped.warnsHard_ok d _ _

end PesAssembler

/-! ## The AVC handler -/

namespace AvcHandler

/-- A PES payload's check fails only with a fault of its stream, which is hard. -/
theorem hardOutcome_processPes (h : AvcHandler) (pes : CompletedPes) (s : Bool) :
    HardOutcome (h.processPes pes s).2 :=
  (h.faultOutcome_processPes pes s).hard

theorem hardOutcome_processAll (s : Bool) :
    ∀ (pess : List CompletedPes) (h : AvcHandler), HardOutcome (h.processAll s pess).2
  | [], _ => hardOutcome_ok ()
  | pes :: rest, h => by
    have hpes := hardOutcome_processPes h pes s
    simp only [processAll]
    split
    · rename_i h' e heq
      rw [heq] at hpes
      exact hpes
    · exact hardOutcome_processAll s rest _

theorem warnsHard_processTsPacket (h : AvcHandler) (d : Diagnostics) (b : Bool) (p : TsPacket) :
    (h.processTsPacket d b p).WarnsHard d := by
  have hpush := h.assembler.warnsHard_push d p
  simp only [processTsPacket]
  split
  · rename_i e he
    exact ⟨hpush.warns, hardOutcome_error (hpush.hard e he)⟩
  · exact ⟨hpush.warns, hardOutcome_processAll _ _ _⟩

/-- The end of the run: an unbounded PES packet cut short is a warning, a bounded one an
error returned, a last payload is checked as any other, and the sink is flushed. -/
theorem warnsHard_finish (h : AvcHandler) (d : Diagnostics) : (h.finish d).WarnsHard d := by
  have hfin : (h.assembler.finish d).WarnsHard d := by
    dsimp only [PesAssembler.finish, PesAssembler.complete]
    split
    · exact Stepped.warnsHard_ok d _ _
    · split
      · exact Stepped.warnsHard_ok d _ _
      · exact Stepped.warnsHard_record d _ _ rfl
      · split
        · exact Stepped.warnsHard_error d _ rfl
        · exact Stepped.warnsHard_ok d _ _
  exact ⟨hfin.warns, (h.faultOutcome_finish d).hard⟩

end AvcHandler

/-! ## Programs and the stream -/

namespace Program

theorem warnsHard_readPmt (p : Program) (d : Diagnostics) (pkt : TsPacket) :
    (p.readPmt d pkt).WarnsHard d := by
  unfold readPmt
  split
  · exact Stepped.warnsHard_ok d _ _
  · split
    · exact Stepped.warnsHard_ok d _ _
    · split
      · rename_i e he
        -- the section framing or the PMT itself failed to decode
        exact Stepped.warnsHard_error d _
          ((HardOutcome.bind (hardOutcome_sectionStart _) hardOutcome_parsePmt) e he)
      · split
        · exact Stepped.warnsHard_error d _ rfl
        · split
          · split
            · exact ⟨Diagnostics.warns_warn d _, hardOutcome_ok ()⟩
            · exact Stepped.warnsHard_ok d _ _
          · exact Stepped.warnsHard_ok d _ _

theorem warnsHard_dispatch (p : Program) (d : Diagnostics) (pkt : TsPacket) :
    (p.dispatch d pkt).WarnsHard d := by
  dsimp only [dispatch]
  split
  · rename_i h _
    have hs := h.warnsHard_processTsPacket d p.sawPcr pkt
    exact ⟨hs.warns, hs.hard⟩
  · exact Stepped.warnsHard_ok d _ _

theorem warnsHard_readPacket (p : Program) (d : Diagnostics) (pkt : TsPacket) :
    (p.readPacket d pkt).WarnsHard d := by
  dsimp only [readPacket]
  split
  · exact warnsHard_readPmt _ d pkt
  · exact warnsHard_dispatch _ d pkt

theorem grows_finishEntries :
    ∀ (d : Diagnostics) (es : List PidEntry), d.Grows (finishEntries d es).2
  | d, [] => .refl d
  | d, e :: es => by
    simp only [finishEntries]
    split
    · rename_i h _
      -- a handler's own warnings, then what it reports, filed by its softness
      have hfin := h.warnsHard_finish d
      refine Diagnostics.Grows.trans ?_ (grows_finishEntries _ es)
      split
      · exact hfin.warns.grows
      · exact hfin.warns.grows.trans (Diagnostics.grows_record _ _)
    · exact grows_finishEntries d es

theorem grows_finish (p : Program) (d : Diagnostics) : d.Grows (p.finish d).2 :=
  grows_finishEntries d p.pids

end Program

theorem warns_readPrograms (d : Diagnostics) (pkt : TsPacket) :
    ∀ ps : List Program, d.Warns (readPrograms d pkt ps).2.1 ∧
      HardOutcome (readPrograms d pkt ps).2.2
  | [] => ⟨.refl d, hardOutcome_ok ()⟩
  | p :: ps => by
    have hp := p.warnsHard_readPacket d pkt
    simp only [readPrograms]
    split
    · rename_i e he
      exact ⟨hp.warns, hardOutcome_error (hp.hard e he)⟩
    · obtain ⟨hw, hh⟩ := warns_readPrograms (p.readPacket d pkt).diagnostics pkt ps
      exact ⟨hp.warns.trans hw, hh⟩

theorem Stream.warnsHard_readPacket (s : Stream) (d : Diagnostics) (pkt : TsPacket) :
    (s.readPacket d pkt).WarnsHard d := by
  unfold Stream.readPacket
  split
  · exact Stepped.warnsHard_ok d _ _
  · exact ⟨(warns_readPrograms d pkt s.programs).1, (warns_readPrograms d pkt s.programs).2⟩

theorem grows_finishPrograms :
    ∀ (d : Diagnostics) (ps : List Program), d.Grows (finishPrograms d ps).2
  | d, [] => .refl d
  | d, p :: ps => (p.grows_finish d).trans (grows_finishPrograms _ ps)

/-! ## Ending the handlers adds only faults of their streams -/

namespace Diagnostics

/-- `d'` is `d` with stream faults added to the errors, and nothing else among them. -/
def AddsFaults (d d' : Diagnostics) : Prop :=
  ∃ es : List Error, d'.errors = d.errors ++ es.map Error.toIssue ∧ ∀ e ∈ es, e.isStreamFault = true

variable {d d₁ d₂ : Diagnostics}

theorem AddsFaults.of_errors (h : d₁.errors = d.errors) : d.AddsFaults d₁ :=
  ⟨[], by simp [h], by simp⟩

theorem AddsFaults.trans (h₁ : d.AddsFaults d₁) (h₂ : d₁.AddsFaults d₂) : d.AddsFaults d₂ := by
  obtain ⟨es₁, he₁, hf₁⟩ := h₁
  obtain ⟨es₂, he₂, hf₂⟩ := h₂
  refine ⟨es₁ ++ es₂, by simp [he₂, he₁], fun e he => ?_⟩
  rcases List.mem_append.1 he with he | he
  · exact hf₁ e he
  · exact hf₂ e he

theorem addsFaults_record {e : Error} (he : e.isStreamFault = true) : d.AddsFaults (d.record e) :=
  ⟨[e], by simp [record, Error.isSoft_of_isStreamFault he], by simpa using he⟩

end Diagnostics

theorem Program.addsFaults_finishEntries :
    ∀ (d : Diagnostics) (es : List PidEntry), d.AddsFaults (finishEntries d es).2
  | _, [] => .of_errors rfl
  | d, e :: es => by
    simp only [finishEntries]
    split
    · rename_i h _
      -- the handler only warns, then what it reports is recorded
      have hwarn := (h.warnsHard_finish d).warns
      refine Diagnostics.AddsFaults.trans ?_ (addsFaults_finishEntries _ es)
      split
      · exact .of_errors hwarn.errors
      · rename_i err herr
        exact (Diagnostics.AddsFaults.of_errors hwarn.errors).trans
          (Diagnostics.addsFaults_record (h.faultOutcome_finish d err herr))
    · exact addsFaults_finishEntries d es

theorem addsFaults_finishPrograms :
    ∀ (d : Diagnostics) (ps : List Program), d.AddsFaults (finishPrograms d ps).2
  | _, [] => .of_errors rfl
  | _, p :: ps =>
    (Program.addsFaults_finishEntries _ p.pids).trans (addsFaults_finishPrograms _ ps)

/-- Ending every handler of a stream adds only stream faults to the errors. -/
theorem Stream.addsFaults_finish (s : Stream) (d : Diagnostics) : d.AddsFaults (s.finish d).2 :=
  addsFaults_finishPrograms d s.programs

/-! ## The validator -/

namespace Validator

/-- A step of the validator that adds only warnings and fails, if it does, hard. -/
structure WarnsHard (v : Validator) (r : Validator × Except Error Unit) : Prop where
  warns : v.diagnostics.Warns r.1.diagnostics
  hard : HardOutcome r.2

/-- A step that only warned and succeeded, followed by another. -/
theorem WarnsHard.trans {v v' : Validator} {r : Validator × Except Error Unit}
    (h₁ : v.WarnsHard (v', .ok ())) (h₂ : v'.WarnsHard r) : v.WarnsHard r :=
  ⟨h₁.warns.trans h₂.warns, h₂.hard⟩

theorem warnsHard_same (v : Validator) {r : Except Error Unit} (hr : HardOutcome r) :
    v.WarnsHard (v, r) :=
  ⟨.refl _, hr⟩

theorem hardOutcome_patOf (pkt : TsPacket) : HardOutcome (patOf pkt) := by
  unfold patOf
  split
  · split
    · exact (HardOutcome.bind (hardOutcome_sectionStart _) hardOutcome_parsePat).map _
    · exact hardOutcome_ok _
  · exact hardOutcome_ok _

theorem warnsHard_readPat (v : Validator) (pkt : TsPacket) : v.WarnsHard (v.readPat pkt) := by
  unfold readPat
  split
  · rename_i e he
    exact v.warnsHard_same (hardOutcome_error (hardOutcome_patOf pkt e he))
  · exact v.warnsHard_same (hardOutcome_ok ())
  · split
    · split
      · exact v.warnsHard_same (hardOutcome_error rfl)
      · split
        · exact v.warnsHard_same (hardOutcome_error rfl)
        · exact ⟨.refl _, hardOutcome_ok ()⟩
    · exact v.warnsHard_same (hardOutcome_error rfl)

theorem warns_installHandlers (t : SegmentType) (x : Option Extractor) :
    ∀ (d : Diagnostics) (p : Program) (es : List EsInfo),
      d.Warns (installHandlers t x d p es).2.1 ∧ HardOutcome (installHandlers t x d p es).2.2
  | d, _, [] => ⟨.refl d, hardOutcome_ok ()⟩
  | d, p, es :: rest => by
    simp only [installHandlers]
    split
    · exact ⟨.refl d, hardOutcome_error rfl⟩
    · split
      · obtain ⟨hw, hh⟩ := warns_installHandlers t x _ p rest
        exact ⟨(Diagnostics.warns_warn d _).trans hw, hh⟩
      · split
        · rename_i e he
          obtain ⟨reason, rfl⟩ := openHandler_error he
          exact ⟨.refl d, hardOutcome_error rfl⟩
        · split
          · rename_i e he
            -- registering fails only for a PID the PMT does not list
            refine ⟨.refl d, hardOutcome_error ?_⟩
            unfold Program.register at he
            split at he
            · cases he
              rfl
            · split at he <;> cases he
          · exact warns_installHandlers t x d _ rest

theorem warnsHard_install (v : Validator) (programNumber : Nat) :
    v.WarnsHard (v.install programNumber) := by
  unfold install
  split
  · exact v.warnsHard_same (hardOutcome_ok ())
  · rename_i p _
    split
    · exact v.warnsHard_same (hardOutcome_ok ())
    · rename_i pmt _
      have hinst := warns_installHandlers v.segmentType v.extractor v.diagnostics p pmt.streams
      generalize installHandlers v.segmentType v.extractor v.diagnostics p pmt.streams = res at hinst ⊢
      obtain ⟨p', d', r⟩ := res
      cases r with
      | error e => exact ⟨hinst.1, hinst.2⟩
      | ok u => exact ⟨hinst.1, hardOutcome_ok ()⟩

theorem warnsHard_demux (v : Validator) (pkt : TsPacket) : v.WarnsHard (v.demux pkt) :=
  ⟨(v.stream.warnsHard_readPacket v.diagnostics pkt).warns,
    (v.stream.warnsHard_readPacket v.diagnostics pkt).hard⟩

theorem warnsHard_route (v : Validator) (pkt : TsPacket) : v.WarnsHard (v.route pkt) := by
  rcases v.route_cases pkt with ⟨e, he, hr⟩ | hr | ⟨pat, -, -, -, -, hr⟩ | ⟨-, -, hr⟩ | ⟨-, -, hr⟩ <;>
    rw [hr]
  · exact v.warnsHard_same (hardOutcome_error (hardOutcome_patOf pkt e he))
  · exact v.warnsHard_same (hardOutcome_ok ())
  · exact ⟨Diagnostics.warns_warn _ _, hardOutcome_ok ()⟩
  · exact ⟨Diagnostics.warns_warn _ _, hardOutcome_ok ()⟩
  · exact v.warnsHard_demux pkt

/-- The validator step before its outcome is recorded. -/
theorem warnsHard_process (v : Validator) (data : List UInt8) :
    v.WarnsHard (v.process data) := by
  rcases v.process_cases data with ⟨e, he, hr⟩ |
      ⟨pkt, -, hr | ⟨-, -, hr⟩ | ⟨n, pid, -, -, ⟨e, -, hr⟩ | ⟨-, hr⟩⟩ | ⟨-, hr⟩⟩ <;>
    rw [hr]
  · exact v.warnsHard_same (hardOutcome_error (TsPacket.hardOutcome_parse data e he))
  · exact v.warnsHard_same (hardOutcome_ok ())
  · exact v.warnsHard_readPat pkt
  · exact v.warnsHard_demux pkt
  · -- the PMT is read, then the handlers are attached
    have hdemux : v.WarnsHard ((v.demux pkt).1, .ok ()) :=
      ⟨(v.warnsHard_demux pkt).warns, hardOutcome_ok ()⟩
    exact hdemux.trans ((v.demux pkt).1.warnsHard_install n)
  · exact v.warnsHard_route pkt

/-- A feed that fails returns a hard error and has recorded it after the warnings the packet
raised; a feed that succeeds has only added warnings. -/
theorem feed_diagnostics (v : Validator) (data : List UInt8) :
    (∀ e, (v.feed data).2 = .error e → v.diagnostics.Fails (v.feed data).1.diagnostics e) ∧
      ((v.feed data).2 = .ok () → v.diagnostics.Warns (v.feed data).1.diagnostics) := by
  have hproc := warnsHard_process { v with packets := v.packets + 1 } data
  rcases v.feed_cases data with ⟨e, he, hr⟩ | ⟨hok, hr⟩ <;> rw [hr]
  · refine ⟨fun e' he' => ?_, fun h => by cases h⟩
    cases he'
    exact hproc.warns.fails (Diagnostics.fails_record (hproc.hard e he))
  · refine ⟨fun e' he' => ?_, fun _ => hproc.warns⟩
    rw [hok] at he'
    cases he'

/-- A run of feeds: warnings only while every feed succeeds, and the hard error of the one
that fails recorded after them. -/
theorem feedAll_diagnostics :
    ∀ (ds : List (List UInt8)) (v : Validator),
      (∀ e, (v.feedAll ds).2 = .error e → v.diagnostics.Fails (v.feedAll ds).1.diagnostics e) ∧
        ((v.feedAll ds).2 = .ok () → v.diagnostics.Warns (v.feedAll ds).1.diagnostics)
  | [], v => ⟨fun _ he => (nomatch he), fun _ => .refl _⟩
  | data :: rest, v => by
    have hfeed := v.feed_diagnostics data
    simp only [feedAll]
    split
    · rename_i v' e heq
      rw [heq] at hfeed
      exact ⟨fun e' he' => by cases he'; exact hfeed.1 e rfl, fun h => by cases h⟩
    · rename_i v' heq
      rw [heq] at hfeed
      have hwarn := hfeed.2 rfl
      obtain ⟨hfail, hok⟩ := feedAll_diagnostics rest v'
      exact ⟨fun e he => hwarn.fails (hfail e he), fun h => hwarn.trans (hok h)⟩

/-- The end of a run records its segment-wide error and what the handlers report. -/
theorem grows_finish (v : Validator) : v.diagnostics.Grows v.finish.diagnostics := by
  unfold finish Stream.finish
  refine Diagnostics.Grows.trans ?_ (grows_finishPrograms _ _)
  -- the segment-wide check, made only while no error was recorded
  split
  · split
    · exact Diagnostics.grows_record _ _
    · exact .refl _
  · exact .refl _

/-- First error wins. A feed that fails returns a hard error, recorded as the next error
after the warnings the packet raised; a feed that succeeds adds only warnings. Over a run of
feeds from a fresh validator, stopping at the first that fails, and then `finish`: the
errors are hard errors and the warnings soft conditions or remarks, the status is zero
exactly when there is no error and the first error's code otherwise, and a failed feed's
error is the first error, whatever `finish` adds. This holds whatever the extractor and its
sinks do: one that fails is an I/O error, hard like the others. -/
theorem first_error_wins :
    (∀ (v : Validator) (data : List UInt8),
      (∀ e, (v.feed data).2 = .error e →
        e.isSoft = false ∧ (v.feed data).1.diagnostics.errors = v.diagnostics.errors ++ [e.toIssue] ∧
          ∃ ws, (v.feed data).1.diagnostics.warnings = v.diagnostics.warnings ++ ws ∧
            ∀ i ∈ ws, i.IsWarning) ∧
      ((v.feed data).2 = .ok () →
        (v.feed data).1.diagnostics.errors = v.diagnostics.errors ∧
          ∃ ws, (v.feed data).1.diagnostics.warnings = v.diagnostics.warnings ++ ws ∧
            ∀ i ∈ ws, i.IsWarning)) ∧
    ∀ (t : SegmentType) (x : Option Extractor) (ds : List (List UInt8)),
      let r := ((Validator.new t).withExtractor x).feedAll ds
      let d := r.1.finish.diagnostics
      (∀ i ∈ d.errors, i.IsHard) ∧ (∀ i ∈ d.warnings, i.IsWarning) ∧
      (d.status = 0 ↔ d.errors = []) ∧
      (∀ i rest, d.errors = i :: rest → d.status = i.code) ∧
      ∀ e, r.2 = .error e → d.errors.head? = some e.toIssue ∧ d.status = e.code := by
  refine ⟨fun v data => ?_, fun t x ds => ?_⟩
  · obtain ⟨hfail, hok⟩ := v.feed_diagnostics data
    exact ⟨fun e he => ⟨(hfail e he).hard, (hfail e he).errors, (hfail e he).warnings⟩,
      fun h => ⟨(hok h).errors, (hok h).warnings⟩⟩
  · -- the run's errors are the failed feed's, then those `finish` adds
    obtain ⟨hfail, hok⟩ := feedAll_diagnostics ds ((Validator.new t).withExtractor x)
    have hfin := grows_finish (((Validator.new t).withExtractor x).feedAll ds).1
    have hrun : ((Validator.new t).withExtractor x).diagnostics.Grows
        (((Validator.new t).withExtractor x).feedAll ds).1.finish.diagnostics := by
      cases hr : (((Validator.new t).withExtractor x).feedAll ds).2 with
      | error e => exact (hfail e hr).grows.trans hfin
      | ok u => exact (hok hr).grows.trans hfin
    obtain ⟨es, hes, hhard⟩ := hrun.errors
    obtain ⟨ws, hws, hwarn⟩ := hrun.warnings
    -- a fresh validator has recorded nothing
    change _ = [] ++ es at hes
    change _ = [] ++ ws at hws
    rw [List.nil_append] at hes hws
    have herrors :
        ∀ i ∈ (((Validator.new t).withExtractor x).feedAll ds).1.finish.diagnostics.errors,
          i.IsHard := by
      rw [hes]
      exact hhard
    refine ⟨herrors, by rw [hws]; exact hwarn, Diagnostics.status_eq_zero_iff herrors,
      fun i rest h => by rw [Diagnostics.status_eq_head, h]; rfl, fun e he => ?_⟩
    -- the failed feed's error comes first, `finish` only appends
    obtain ⟨es', hes', _⟩ := hfin.errors
    have hfirst := (hfail e he).errors
    change _ = [] ++ _ at hfirst
    rw [List.nil_append] at hfirst
    rw [hfirst] at hes'
    simp [hes', Diagnostics.status_eq_head, Error.toIssue]

end Validator

end MpegTs
