import MpegTs.Proofs.PcrBeforeIdr

/-!
# The phases of a segment validation

A `Validator` goes through three phases: awaiting the PAT, awaiting the PMT of the one program
the PAT lists, and streaming. This file shows what the stream it has built looks like in each
phase, in every state that a run of successful feeds reaches (`Validator.Staged`):

* awaiting the PAT, no PAT is known and no program;
* awaiting the PMT of program `n` on PID `pid`, the PAT lists exactly that program, `n` is not
  the NIT's `0`, `pid` is a general purpose PID, and the stream knows that one program and
  nothing of it yet;
* streaming, in addition, the program's PMT is installed with program number `n` and a general
  purpose PCR PID, it lists no media stream in an initialization segment, and every AVC stream
  it lists has a handler (`Program.Serves`).

Phases only move forward, and once streaming, neither the PAT nor the installed PMT changes
(`Validator.Advances`).

A program changes in two ways only. Before its PMT, a packet either leaves it alone or
installs a PMT that was decoded, carries the program's number and names a general purpose PCR
PID (`Program.awaits_readPmt_new`). After it, every packet keeps its PMT and its handlers
(`Program.Keeps`), whatever the packet's outcome; attaching handlers keeps them too, and gives
one to every AVC stream once it gets through the PMT (`Program.installHandlers_ok`).

## Main statements

* `pcrPid_of_parsePmt`: a decoded PMT names a general purpose PCR PID.
* `Program.keeps_readPacket`: the program step once the PMT is installed.
* `Validator.staged_feed`: the validator step.
* `Validator.staged_of_feeds`: every run of successful feeds from a fresh validator.
-/

namespace MpegTs

/-! ## What a successful read returns -/

namespace BitRead

/-- Every value the reader returns when it succeeds satisfies `Q`. -/
def Returns {α : Type} (r : BitRead α) (Q : α → Prop) : Prop :=
  ∀ c v c', r c = .ok v c' → Q v

variable {α β : Type} {Q : β → Prop}

/-- What a bind returns, its continuation returns. -/
theorem Returns.bind {x : BitRead α} {f : α → BitRead β} (h : ∀ a, Returns (f a) Q) :
    Returns (x >>= f) Q := by
  intro c v c' hr
  simp only [Bind.bind, EStateM.bind] at hr
  split at hr
  · exact h _ _ _ _ hr
  · cases hr

theorem Returns.throw_bind {e : Error} {f : α → BitRead β} : Returns (throw e >>= f) Q := by
  intro c v c' hr
  cases hr

theorem Returns.pure {v : β} (h : Q v) : Returns (Pure.pure v) Q := by
  intro c v' c' hr
  cases hr
  exact h

theorem Returns.ite {p : Prop} [Decidable p] {x y : BitRead β} (hx : p → Returns x Q)
    (hy : ¬p → Returns y Q) : Returns (if p then x else y) Q := by
  split
  · exact hx ‹_›
  · exact hy ‹_›

/-- What a reader returns on a byte string of its own. -/
theorem Returns.runOn {r : BitRead β} (h : Returns r Q) {bytes : List UInt8} {v : β}
    (hr : r.runOn bytes = .ok v) : Q v := by
  simp only [BitRead.runOn, EStateM.run] at hr
  split at hr
  · cases hr
    exact h _ _ _ ‹_›
  · cases hr

end BitRead

open BitRead

/-- The body of a PMT names the PCR PID it read, once that PID passed as general purpose. -/
theorem pmtBody_pcrPid (data : List UInt8) (header : SectionHeader) :
    Returns (pmtBody data header) fun pmt => isGeneralPurposePid pmt.pcrPid = true := by
  dsimp only [pmtBody]
  refine Returns.ite (fun _ => Returns.throw_bind) fun _ => ?_
  refine Returns.bind fun _ => Returns.bind fun _ => Returns.bind fun pcrPid => ?_
  refine Returns.ite (fun _ => Returns.throw_bind) fun _ => ?_
  refine Returns.ite (fun _ => Returns.throw_bind) fun hgp => ?_
  -- every later exit returns the PID as read, or fails
  have hpcr : isGeneralPurposePid pcrPid = true := by simpa using hgp
  refine Returns.bind fun _ => Returns.bind fun _ => ?_
  refine Returns.ite (fun _ => Returns.throw_bind) fun _ => ?_
  refine Returns.bind fun _ => Returns.bind fun _ => Returns.bind fun _ => ?_
  refine Returns.ite (fun _ => Returns.throw_bind) fun _ => ?_
  exact Returns.bind fun _ => Returns.bind fun _ => Returns.pure hpcr

/-- A decoded PMT names a general purpose PCR PID. -/
theorem pcrPid_of_parsePmt {data : List UInt8} {pmt : PmtSection} (h : parsePmt data = .ok pmt) :
    isGeneralPurposePid pmt.pcrPid = true :=
  (Returns.bind fun header => pmtBody_pcrPid data header).runOn h

/-! ## Programs -/

theorem find?_pid_cons_of_eq {e : PidEntry} {es : List PidEntry} {q : Nat} (h : e.es.pid = q) :
    (e :: es).find? (·.es.pid == q) = some e :=
  List.find?_cons_of_pos (by simpa using h)

theorem find?_pid_cons_of_ne {e : PidEntry} {es : List PidEntry} {q : Nat} (h : e.es.pid ≠ q) :
    (e :: es).find? (·.es.pid == q) = es.find? (·.es.pid == q) :=
  List.find?_cons_of_neg (by simpa using h)

/-- The first entry of `q` keeps a handler when the first entry of some PID gets one. -/
theorem handler_find?_setHandler {pid q : Nat} {h : AvcHandler} :
    ∀ {es : List PidEntry}, ((es.find? (·.es.pid == q)).any (·.handler.isSome)) = true →
      ((setHandler pid (some h) es).find? (·.es.pid == q)).any (·.handler.isSome) = true
  | [], hq => hq
  | e :: es, hq => by
    simp only [setHandler]
    by_cases he : e.es.pid = q
    · -- the first entry of `q` is `e`, replaced by one with a handler or kept
      rw [find?_pid_cons_of_eq he] at hq
      split
      · rw [find?_pid_cons_of_eq (e := { e with handler := some h }) he]
        rfl
      · rw [find?_pid_cons_of_eq he]
        exact hq
    · rw [find?_pid_cons_of_ne he] at hq
      split
      · rw [find?_pid_cons_of_ne (e := { e with handler := some h }) he]
        exact hq
      · rw [find?_pid_cons_of_ne he]
        exact handler_find?_setHandler hq

/-- The first entry of a PID that has one gets the handler. -/
theorem handler_find?_setHandler_self {pid : Nat} {h : AvcHandler} :
    ∀ {es : List PidEntry}, (es.find? (·.es.pid == pid)).isSome = true →
      ((setHandler pid (some h) es).find? (·.es.pid == pid)).any (·.handler.isSome) = true
  | [], hp => by simp at hp
  | e :: es, hp => by
    simp only [setHandler]
    split
    · rename_i he
      rw [find?_pid_cons_of_eq (e := { e with handler := some h }) he]
      rfl
    · rename_i he
      rw [find?_pid_cons_of_ne he] at hp
      rw [find?_pid_cons_of_ne he]
      exact handler_find?_setHandler_self hp

namespace Program

/-- The first entry of an elementary PID has a handler. -/
def handles (p : Program) (pid : Nat) : Bool := (p.pidEntry pid).any (·.handler.isSome)

/-- What every packet does to a program once its PMT is installed: the PMT, the numbers and
the handlers stay. -/
structure Keeps (p p' : Program) : Prop where
  pmt : p'.pmt = p.pmt
  programNumber : p'.programNumber = p.programNumber
  pid : p'.pid = p.pid
  handles : ∀ q, p.handles q = true → p'.handles q = true

theorem Keeps.refl (p : Program) : Keeps p p := ⟨rfl, rfl, rfl, fun _ h => h⟩

theorem Keeps.trans {p₁ p₂ p₃ : Program} (h₁ : Keeps p₁ p₂) (h₂ : Keeps p₂ p₃) : Keeps p₁ p₃ :=
  ⟨h₂.pmt.trans h₁.pmt, h₂.programNumber.trans h₁.programNumber, h₂.pid.trans h₁.pid,
    fun q hq => h₂.handles q (h₁.handles q hq)⟩

variable {p : Program}

theorem keeps_notePcr (pkt : TsPacket) : Keeps p (p.notePcr pkt) := by
  unfold notePcr
  split
  · exact ⟨rfl, rfl, rfl, fun _ h => h⟩
  · exact Keeps.refl p

/-- A PMT packet after the PMT is installed changes at most the version warning. -/
theorem keeps_readPmt (hpmt : p.pmt.isSome = true) (d : Diagnostics) (pkt : TsPacket) :
    Keeps p (p.readPmt d pkt).state := by
  unfold readPmt
  split
  · exact Keeps.refl p
  split
  · exact Keeps.refl p
  split
  · exact Keeps.refl p
  split
  · exact Keeps.refl p
  split
  · split
    · exact ⟨rfl, rfl, rfl, fun _ h => h⟩
    · exact Keeps.refl p
  · rename_i hnone
    rw [hnone] at hpmt
    cases hpmt

/-- A packet handed to a handler replaces the handler by its next state. -/
theorem keeps_dispatch (d : Diagnostics) (pkt : TsPacket) : Keeps p (p.dispatch d pkt).state := by
  unfold dispatch
  split
  · exact ⟨rfl, rfl, rfl, fun q hq => handler_find?_setHandler hq⟩
  · exact Keeps.refl p

/-- The program step once the PMT is installed, whatever its outcome. -/
theorem keeps_readPacket (hpmt : p.pmt.isSome = true) (d : Diagnostics) (pkt : TsPacket) :
    Keeps p (p.readPacket d pkt).state := by
  have hnote := keeps_notePcr (p := p) pkt
  unfold readPacket
  dsimp only
  split
  · exact hnote.trans (keeps_readPmt (by rw [hnote.pmt]; exact hpmt) d pkt)
  · exact hnote.trans (keeps_dispatch d pkt)

/-- What program `n` with its PMT on `pid` can be while the validator awaits that PMT: fresh,
or with a PMT installed that carries its number and names a general purpose PCR PID. -/
structure Awaits (n pid : Nat) (p : Program) : Prop where
  programNumber : p.programNumber = n
  pmtPid : p.pid = pid
  fresh : p.pmt = none → p = Program.new n pid
  installed : ∀ pmt, p.pmt = some pmt →
    pmt.programNumber = n ∧ isGeneralPurposePid pmt.pcrPid = true

theorem awaits_new (n pid : Nat) : Awaits n pid (Program.new n pid) where
  programNumber := rfl
  pmtPid := rfl
  fresh _ := rfl
  installed pmt h := by cases h

/-- Before its PMT, a packet on the PMT PID leaves a program alone or installs a PMT that was
decoded from it, carries the program's number and names a general purpose PCR PID. -/
theorem awaits_readPmt_new (n pid : Nat) (d : Diagnostics) (pkt : TsPacket) :
    Awaits n pid ((Program.new n pid).readPmt d pkt).state := by
  unfold readPmt
  split
  · exact awaits_new n pid
  split
  · exact awaits_new n pid
  split
  · exact awaits_new n pid
  rename_i pmt hparse
  split
  · exact awaits_new n pid
  rename_i hnum
  -- the fresh program has no PMT, so this one is installed
  have hpcr : isGeneralPurposePid pmt.pcrPid = true := by
    cases hs : sectionStart _ with
    | error e =>
      rw [hs] at hparse
      cases hparse
    | ok body =>
      rw [hs] at hparse
      exact pcrPid_of_parsePmt hparse
  split
  · rename_i current hcurrent
    simp [Program.new] at hcurrent
  · refine ⟨rfl, rfl, fun h => (by cases h), fun pmt' h => ?_⟩
    cases h
    exact ⟨by simpa [Program.new] using hnum, hpcr⟩

/-- Registering a handler keeps the program and gives the PID a handler. -/
theorem register_ok {pid : Nat} {h : AvcHandler} {p' : Program} (hr : p.register pid h = .ok p') :
    Keeps p p' ∧ p'.handles pid = true := by
  unfold register at hr
  split at hr
  · cases hr
  rename_i es hes
  -- the entry the PMT lists for the PID
  have hpid : es.pid = pid := by
    obtain ⟨pmt, -, hfind⟩ := Option.bind_eq_some_iff.1 hes
    simpa using List.find?_some hfind
  split at hr
  · rename_i hentry
    cases hr
    exact ⟨⟨rfl, rfl, rfl, fun q hq => handler_find?_setHandler hq⟩,
      handler_find?_setHandler_self hentry⟩
  · rename_i hentry
    cases hr
    have hnone : p.pids.find? (·.es.pid == pid) = none := by
      simpa [pidEntry] using hentry
    refine ⟨⟨rfl, rfl, rfl, fun q hq => ?_⟩, ?_⟩
    · obtain ⟨e, he, hh⟩ := (Option.any_eq_true _ _).1 hq
      have hfind : p.pids.find? (·.es.pid == q) = some e := he
      simp [handles, pidEntry, List.find?_append, hfind, hh]
    · simp [handles, pidEntry, List.find?_append, hnone, hpid]

/-- The program a streaming validator serves: program `n` with its PMT on `pid`, the PMT
installed with that number and a general purpose PCR PID, no media stream in an
initialization segment, and a handler for every AVC stream. -/
structure Serves (t : SegmentType) (n pid : Nat) (pmt : PmtSection) (p : Program) : Prop where
  programNumber : p.programNumber = n
  pmtPid : p.pid = pid
  installed : p.pmt = some pmt
  pmtNumber : pmt.programNumber = n
  pcrPid : isGeneralPurposePid pmt.pcrPid = true
  noMedia : t = .initialization → ∀ es ∈ pmt.streams, isMediaStreamType es.streamType = false
  handled : ∀ es ∈ pmt.streams, es.streamType = avcStreamType → p.handles es.pid = true

theorem Serves.keeps {t : SegmentType} {n pid : Nat} {pmt : PmtSection} {p' : Program}
    (h : Serves t n pid pmt p) (hk : Keeps p p') : Serves t n pid pmt p' where
  programNumber := hk.programNumber.trans h.programNumber
  pmtPid := hk.pid.trans h.pmtPid
  installed := hk.pmt.trans h.installed
  pmtNumber := h.pmtNumber
  pcrPid := h.pcrPid
  noMedia := h.noMedia
  handled es hes havc := hk.handles _ (h.handled es hes havc)

theorem notePcr_new (n pid : Nat) (pkt : TsPacket) :
    (Program.new n pid).notePcr pkt = Program.new n pid := by
  simp [notePcr, Program.new]

/-- Before its PMT, a program reads a packet on its PMT PID as a PMT. -/
theorem readPacket_new (n pid : Nat) (d : Diagnostics) {pkt : TsPacket} (hpkt : pkt.pid = pid) :
    (Program.new n pid).readPacket d pkt = (Program.new n pid).readPmt d pkt := by
  simp only [readPacket, notePcr_new]
  exact if_pos hpkt.symm

end Program

/-- Attaching handlers through a PMT that it gets through keeps the program, finds no media
stream in an initialization segment, and leaves every AVC stream with a handler. -/
theorem installHandlers_ok (t : SegmentType) (x : Option Extractor) :
    ∀ (streams : List EsInfo) {d d' : Diagnostics} {p p' : Program},
      installHandlers t x d p streams = (p', d', .ok ()) →
      p.Keeps p' ∧ ∀ es ∈ streams,
        (t = .initialization → isMediaStreamType es.streamType = false) ∧
        (es.streamType = avcStreamType → p'.handles es.pid = true)
  | [], d, d', p, p', h => by
    simp only [installHandlers, Prod.mk.injEq] at h
    obtain ⟨rfl, -, -⟩ := h
    exact ⟨Program.Keeps.refl p, by simp⟩
  | es :: rest, d, d', p, p', h => by
    obtain ⟨hnot, ⟨havc, hrest⟩ | ⟨havc, hd, p₁, -, hreg, hrest⟩⟩ := installHandlers_cons_ok h
    · -- another stream type is only warned about
      obtain ⟨hkeep, hall⟩ := installHandlers_ok t x rest hrest
      refine ⟨hkeep, fun e he => ?_⟩
      rcases List.mem_cons.1 he with rfl | he
      · exact ⟨hnot, fun h => absurd h havc⟩
      · exact hall e he
    · -- an AVC stream gets a handler, which the rest of the loop keeps
      obtain ⟨hkeep₁, hhandles⟩ := Program.register_ok hreg
      obtain ⟨hkeep, hall⟩ := installHandlers_ok t x rest hrest
      refine ⟨hkeep₁.trans hkeep, fun e he => ?_⟩
      rcases List.mem_cons.1 he with rfl | he
      · exact ⟨hnot, fun _ => hkeep.handles _ hhandles⟩
      · exact hall e he

/-! ## Streams of one program -/

namespace Stream

/-- The PAT lists exactly program `n` with its PMT on `pid`, not the NIT, on a general purpose
PID. -/
structure Lists (s : Stream) (n pid : Nat) : Prop where
  pat : ∃ pat : PatSection, s.pat = some pat ∧ pat.programs = [⟨n, pid⟩]
  programNumber : n ≠ 0
  pmtPid : isGeneralPurposePid pid = true

/-- A packet routed through a stream of one program leaves the PAT alone and the program as
it was or as the program's own step leaves it, whatever the outcome. -/
theorem readPacket_single {s : Stream} {p : Program} (hs : s.programs = [p]) (d : Diagnostics)
    (pkt : TsPacket) :
    (s.readPacket d pkt).state.pat = s.pat ∧
      ((s.readPacket d pkt).state.programs = [p] ∨
        (s.readPacket d pkt).state.programs = [(p.readPacket d pkt).state]) := by
  unfold readPacket
  split
  · exact ⟨rfl, Or.inl hs⟩
  · refine ⟨rfl, Or.inr ?_⟩
    rw [hs]
    simp only [readPrograms]
    split <;> rfl

end Stream

/-! ## Phases -/

namespace Phase

/-- The order of phases: awaiting the PAT, then the PMT of one program, then streaming. -/
inductive Precedes : Phase → Phase → Prop
  | refl (ph : Phase) : Precedes ph ph
  | patPmt (n pid : Nat) : Precedes .awaitingPat (.awaitingPmt n pid)
  | patStreaming : Precedes .awaitingPat .streaming
  | pmtStreaming (n pid : Nat) : Precedes (.awaitingPmt n pid) .streaming

theorem Precedes.trans {p₁ p₂ p₃ : Phase} (h₁ : Precedes p₁ p₂) (h₂ : Precedes p₂ p₃) :
    Precedes p₁ p₃ := by
  cases h₁ with
  | refl => exact h₂
  | patPmt n pid =>
    cases h₂ with
    | refl => exact .patPmt n pid
    | pmtStreaming => exact .patStreaming
  | patStreaming =>
    cases h₂
    exact .patStreaming
  | pmtStreaming n pid =>
    cases h₂
    exact .pmtStreaming n pid

/-- Nothing comes after streaming. -/
theorem Precedes.of_streaming {ph : Phase} (h : Precedes .streaming ph) : ph = .streaming := by
  cases h
  rfl

end Phase

namespace Validator

/-- What a validator has built for the phase it is in: nothing before the PAT; before the
PMT, the one program the PAT lists and nothing of it; while streaming, that program serving
its PMT. -/
def Staged (v : Validator) : Prop :=
  match v.phase with
  | .awaitingPat => v.stream.pat = none ∧ v.stream.programs = []
  | .awaitingPmt n pid => v.stream.Lists n pid ∧ v.stream.programs = [Program.new n pid]
  | .streaming => ∃ n pid pmt p, v.stream.Lists n pid ∧ v.stream.programs = [p] ∧
      p.Serves v.segmentType n pid pmt

/-- How a validator moves on: its phase only forward, and once streaming, with the PAT and
the installed PMT as they were. -/
structure Advances (v v' : Validator) : Prop where
  phase : v.phase.Precedes v'.phase
  streaming : v.phase = .streaming →
    v'.stream.pat = v.stream.pat ∧ v'.stream.programs.map (·.pmt) = v.stream.programs.map (·.pmt)

variable {v v' : Validator}

/-! What a staged validator holds in each phase. -/

theorem Staged.awaitingPat (hst : v.Staged) (hph : v.phase = .awaitingPat) :
    v.stream.pat = none ∧ v.stream.programs = [] := by
  unfold Staged at hst
  rw [hph] at hst
  exact hst

theorem Staged.awaitingPmt {n pid : Nat} (hst : v.Staged) (hph : v.phase = .awaitingPmt n pid) :
    v.stream.Lists n pid ∧ v.stream.programs = [Program.new n pid] := by
  unfold Staged at hst
  rw [hph] at hst
  exact hst

theorem Staged.streaming (hst : v.Staged) (hph : v.phase = .streaming) :
    ∃ n pid pmt p, v.stream.Lists n pid ∧ v.stream.programs = [p] ∧
      p.Serves v.segmentType n pid pmt := by
  unfold Staged at hst
  rw [hph] at hst
  exact hst

theorem Advances.refl (v : Validator) : Advances v v :=
  ⟨.refl _, fun _ => ⟨rfl, rfl⟩⟩

theorem Advances.trans {v₁ v₂ v₃ : Validator} (h₁ : Advances v₁ v₂) (h₂ : Advances v₂ v₃) :
    Advances v₁ v₃ := by
  refine ⟨h₁.phase.trans h₂.phase, fun hs => ?_⟩
  have hs₂ : v₂.phase = .streaming := by
    have := h₁.phase
    rw [hs] at this
    exact this.of_streaming
  obtain ⟨hpat₁, hpmt₁⟩ := h₁.streaming hs
  obtain ⟨hpat₂, hpmt₂⟩ := h₂.streaming hs₂
  exact ⟨hpat₂.trans hpat₁, hpmt₂.trans hpmt₁⟩

/-- A step that leaves the phase and the stream alone. -/
theorem Advances.of_stream (hph : v'.phase = v.phase) (hs : v'.stream = v.stream) :
    Advances v v' :=
  ⟨hph ▸ .refl _, fun _ => by rw [hs]; exact ⟨rfl, rfl⟩⟩

theorem staged_of_stream (h : v.Staged) (hph : v'.phase = v.phase) (hs : v'.stream = v.stream)
    (ht : v'.segmentType = v.segmentType) : v'.Staged := by
  unfold Staged
  rw [hph, hs, ht]
  exact h

theorem staged_new (t : SegmentType) (x : Bool) : (Validator.new t x).Staged := ⟨rfl, rfl⟩

/-! ## One feed -/

section Steps

variable {n pid : Nat} {pkt : TsPacket}

/-- The PAT, read while awaiting it, names the one program to await. -/
theorem staged_readPat (hph : v.phase = .awaitingPat) (hst : v.Staged)
    (hr : v.readPat pkt = (v', .ok ())) : v'.Staged ∧ v.Advances v' := by
  have hprograms : v.stream.programs = [] := (hst.awaitingPat hph).2
  unfold readPat at hr
  split at hr
  · simp at hr
  · obtain ⟨rfl, -⟩ := Prod.mk.inj hr
    exact ⟨hst, Advances.refl v⟩
  rename_i pat _
  split at hr
  · rename_i entry hentry
    split at hr
    · simp at hr
    split at hr
    · simp at hr
    rename_i hnum hgp
    obtain ⟨rfl, -⟩ := Prod.mk.inj hr
    refine ⟨⟨⟨⟨pat, rfl, hentry⟩, hnum, by simpa using hgp⟩, by rw [hprograms]; rfl⟩,
      ⟨?_, fun h => by rw [hph] at h; cases h⟩⟩
    rw [hph]
    exact .patPmt _ _
  · simp at hr

/-- While awaiting the PMT, a packet on the PMT PID leaves the one program fresh or installs a
PMT in it; nothing else changes but the diagnostics. -/
theorem demux_awaitingPmt (hph : v.phase = .awaitingPmt n pid) (hst : v.Staged)
    (hpkt : pkt.pid = pid) :
    (v.demux pkt).1.phase = v.phase ∧ (v.demux pkt).1.stream.pat = v.stream.pat ∧
      (v.demux pkt).1.segmentType = v.segmentType ∧
      ∃ q, (v.demux pkt).1.stream.programs = [q] ∧ q.Awaits n pid := by
  have hprograms : v.stream.programs = [Program.new n pid] := (hst.awaitingPmt hph).2
  obtain ⟨hpat, hprog⟩ := Stream.readPacket_single hprograms v.diagnostics pkt
  refine ⟨rfl, hpat, rfl, ?_⟩
  rcases hprog with hprog | hprog
  · exact ⟨_, hprog, Program.awaits_new n pid⟩
  · rw [Program.readPacket_new n pid _ hpkt] at hprog
    exact ⟨_, hprog, Program.awaits_readPmt_new n pid _ _⟩

/-- Once its PMT is installed, the program gets its handlers and the validator streams; until
then it keeps awaiting the PMT. -/
theorem staged_install {q : Program} (hph : v.phase = .awaitingPmt n pid)
    (hlists : v.stream.Lists n pid) (hq : v.stream.programs = [q]) (hawait : q.Awaits n pid)
    (hr : v.install n = (v', .ok ())) : v'.Staged ∧ v.Advances v' := by
  have hfind : v.stream.program? n = some q := by
    simp [Stream.program?, hq, hawait.programNumber]
  unfold install at hr
  split at hr
  · rename_i hnone
    rw [hfind] at hnone
    cases hnone
  rename_i q' hq'
  rw [hfind] at hq'
  cases hq'
  split at hr
  · -- no PMT yet: nothing to install
    rename_i hpmt
    obtain ⟨rfl, -⟩ := Prod.mk.inj hr
    refine ⟨?_, Advances.refl v⟩
    unfold Staged
    rw [hph, hq, hawait.fresh hpmt]
    exact ⟨hlists, rfl⟩
  · rename_i pmt hpmt
    obtain ⟨hpmtNum, hpcr⟩ := hawait.installed pmt hpmt
    split at hr
    rename_i p' d' r hinst
    split at hr
    · simp at hr
    obtain ⟨rfl, -⟩ := Prod.mk.inj hr
    obtain ⟨hkeep, hall⟩ := installHandlers_ok _ _ _ hinst
    -- the program with its handlers replaces the one it was
    have hset : (v.stream.setProgram n p').programs = [p'] := by
      simp [Stream.setProgram, Stream.setProgram.go, hq, hawait.programNumber]
    have hserves : p'.Serves v.segmentType n pid pmt :=
      { programNumber := hkeep.programNumber.trans hawait.programNumber
        pmtPid := hkeep.pid.trans hawait.pmtPid
        installed := hkeep.pmt.trans hpmt
        pmtNumber := hpmtNum
        pcrPid := hpcr
        noMedia := fun ht es hes => (hall es hes).1 ht
        handled := fun es hes havc => (hall es hes).2 havc }
    refine ⟨⟨n, pid, pmt, p', ⟨hlists.pat, hlists.programNumber, hlists.pmtPid⟩, hset, hserves⟩,
      ⟨?_, fun h => by rw [hph] at h; cases h⟩⟩
    rw [hph]
    exact .pmtStreaming n pid

/-- While streaming, a packet keeps the program serving its PMT: the PAT and the PMT stay,
and so do the handlers. -/
theorem staged_route (hph : v.phase = .streaming) (hst : v.Staged)
    (hr : v.route pkt = (v', .ok ())) : v'.Staged ∧ v.Advances v' := by
  obtain ⟨n, pid, pmt, p, hlists, hprograms, hserves⟩ := hst.streaming hph
  -- the PAT, the reserved PIDs and the null PID leave the stream alone
  have hsame : ∀ v₁ : Validator, v₁.phase = v.phase → v₁.stream = v.stream →
      v₁.segmentType = v.segmentType → v₁.Staged ∧ v.Advances v₁ :=
    fun v₁ hph₁ hs₁ ht₁ => ⟨staged_of_stream hst hph₁ hs₁ ht₁, Advances.of_stream hph₁ hs₁⟩
  rcases v.route_cases pkt with ⟨e, -, hr'⟩ | hr' | ⟨pat, -, -, -, -, hr'⟩ | ⟨-, -, hr'⟩ |
      ⟨-, -, hr'⟩ <;>
    rw [hr'] at hr
  · simp at hr
  · obtain ⟨rfl, -⟩ := Prod.mk.inj hr
    exact hsame v rfl rfl rfl
  · obtain ⟨rfl, -⟩ := Prod.mk.inj hr
    exact hsame _ rfl rfl rfl
  · obtain ⟨rfl, -⟩ := Prod.mk.inj hr
    exact hsame _ rfl rfl rfl
  -- any other PID goes through the one program, which keeps its PMT and handlers
  unfold demux at hr
  obtain ⟨rfl, -⟩ := Prod.mk.inj hr
  obtain ⟨hpat, hprog⟩ := Stream.readPacket_single hprograms v.diagnostics pkt
  obtain ⟨p', hp', hkeep⟩ : ∃ p', (v.stream.readPacket v.diagnostics pkt).state.programs = [p'] ∧
      p.Keeps p' := by
    rcases hprog with hprog | hprog
    · exact ⟨p, hprog, Program.Keeps.refl p⟩
    · exact ⟨_, hprog, Program.keeps_readPacket (by rw [hserves.installed]; rfl) _ _⟩
  refine ⟨?_, ⟨hph ▸ .refl _, fun _ => ⟨hpat, ?_⟩⟩⟩
  · unfold Staged
    rw [hph]
    exact ⟨n, pid, pmt, p', ⟨hpat ▸ hlists.pat, hlists.programNumber, hlists.pmtPid⟩, hp',
      hserves.keeps hkeep⟩
  · rw [hp', hprograms]
    simp [hkeep.pmt]

/-- A packet that gets through keeps the stream staged and moves forward. -/
theorem staged_process (hst : v.Staged) {data : List UInt8} (hproc : v.process data = (v', .ok ())) :
    v'.Staged ∧ v.Advances v' := by
  rcases v.process_cases data with ⟨e, -, hr⟩ |
      ⟨pkt, -, hr | ⟨hph, -, hr⟩ | ⟨n, pid, hph, hpkt, ⟨e, he, hr⟩ | ⟨-, hr⟩⟩ | ⟨hph, hr⟩⟩ <;>
    rw [hr] at hproc
  · simp at hproc
  · obtain ⟨rfl, -⟩ := Prod.mk.inj hproc
    exact ⟨hst, Advances.refl v⟩
  · exact staged_readPat hph hst hproc
  · simp [hproc] at he
  · -- the PMT packet installs the PMT, then the handlers are attached
    obtain ⟨hph₂, hpat₂, -, q, hq, hawait⟩ := demux_awaitingPmt hph hst hpkt
    have hlists : (v.demux pkt).1.stream.Lists n pid := by
      have hl : v.stream.Lists n pid := (hst.awaitingPmt hph).1
      exact ⟨hpat₂ ▸ hl.pat, hl.programNumber, hl.pmtPid⟩
    obtain ⟨hst', hadv⟩ := staged_install (hph₂.trans hph) hlists hq hawait hproc
    exact ⟨hst', ⟨hph₂ ▸ hadv.phase, fun h => by rw [hph] at h; cases h⟩⟩
  · exact staged_route hph hst hproc

/-- The validator step: a successful feed keeps the stream staged and moves forward. -/
theorem staged_feed (hst : v.Staged) {data : List UInt8} (hr : v.feed data = (v', .ok ())) :
    v'.Staged ∧ v.Advances v' := by
  -- counting the packet changes nothing staged
  obtain ⟨hst', hadv⟩ :=
    staged_process (v := { v with packets := v.packets + 1 }) hst (feed_eq_ok.1 hr)
  exact ⟨hst', hadv.phase, hadv.streaming⟩

end Steps

/-! ## Runs -/

/-- The run lemma: feeds that all succeed keep the stream staged and move forward. -/
theorem staged_feedAll :
    ∀ (ds : List (List UInt8)) (v : Validator), v.Staged → (v.feedAll ds).2 = .ok () →
      (v.feedAll ds).1.Staged ∧ v.Advances (v.feedAll ds).1
  | [], v, hst, _ => ⟨hst, Advances.refl v⟩
  | data :: rest, v, hst, hr => by
    cases hfeed : v.feed data with
    | mk v₁ r =>
      cases r with
      | error e => simp [feedAll, hfeed] at hr
      | ok u =>
        simp only [feedAll, hfeed] at hr ⊢
        obtain ⟨hst₁, hadv₁⟩ := staged_feed hst hfeed
        obtain ⟨hst', hadv'⟩ := staged_feedAll rest v₁ hst₁ hr
        exact ⟨hst', hadv₁.trans hadv'⟩

/-- The phases of a segment validation. In every state that feeds which all succeed reach
from a fresh validator, the stream is staged for the phase: awaiting the PAT, no PAT and no
program; awaiting the PMT of program `n` on PID `pid`, a PAT listing exactly that program,
with `n ≠ 0` and `pid` general purpose, and `Program.new n pid` alone; streaming, in
addition that program with its PMT installed, numbered `n`, with a general purpose PCR PID,
no media stream in an initialization segment and a handler for every AVC stream. From such a
state, any further successful feeds move the phase only forward, and once streaming keep the
PAT and the installed PMT. -/
theorem staged_of_feeds (t : SegmentType) (x : Bool) (ds : List (List UInt8))
    (hrun : ((Validator.new t x).feedAll ds).2 = .ok ()) :
    ((Validator.new t x).feedAll ds).1.Staged ∧
      ∀ later, (((Validator.new t x).feedAll ds).1.feedAll later).2 = .ok () →
        ((Validator.new t x).feedAll ds).1.Advances
          (((Validator.new t x).feedAll ds).1.feedAll later).1 := by
  obtain ⟨hst, -⟩ := staged_feedAll ds _ (staged_new t x) hrun
  exact ⟨hst, fun later hlater => (staged_feedAll later _ hst hlater).2⟩

/-- A PAT listing program 1 with its PMT on PID `0x1000`, and that PMT: the PCR and one AVC
stream on PID `0x100`. -/
def patAndPmt : List (List UInt8) :=
  [[0x47, 0x40, 0x00, 0x10, 0x00, 0x00, 0xb0, 0x0d, 0x00, 0x01, 0xc1, 0x00, 0x00, 0x00, 0x01,
      0xf0, 0x00, 0x2a, 0xb1, 0x04, 0xb2] ++ List.replicate 167 0xff,
   [0x47, 0x50, 0x00, 0x10, 0x00, 0x02, 0xb0, 0x12, 0x00, 0x01, 0xc1, 0x00, 0x00, 0xe1, 0x00,
      0xf0, 0x00, 0x1b, 0xe1, 0x00, 0xf0, 0x00, 0x15, 0xbd, 0x4d, 0x56] ++ List.replicate 162 0xff]

theorem staged_of_patAndPmt :
    ((Validator.new .general).feedAll patAndPmt).2 = .ok () ∧
      ((Validator.new .general).feedAll patAndPmt).1.Staged ∧
      ∀ later, (((Validator.new .general).feedAll patAndPmt).1.feedAll later).2 = .ok () →
        ((Validator.new .general).feedAll patAndPmt).1.Advances
          (((Validator.new .general).feedAll patAndPmt).1.feedAll later).1 :=
  have hrun : ((Validator.new .general).feedAll patAndPmt).2 = .ok () := by decide +kernel
  ⟨hrun, staged_of_feeds .general false patAndPmt hrun⟩

example : ((Validator.new .general).feedAll patAndPmt).1.phase = .streaming := by decide +kernel

end Validator

end MpegTs
