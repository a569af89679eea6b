import MpegTs.Proofs.PidTable

/-!
# Conditions that repeat are remarked on once

A validator makes four kinds of remarks, warnings with code `0`: when it attaches handlers,
one for each stream of the installed PMT that no handler checks; while streaming, one the
first time each reserved table PID (CAT, TSDT, IPMP CIT) shows up, one the first time a PAT
of another version does, and one the first time the program's PMT PID carries a PMT of
another version. Three flags keep the last three from repeating (`warnedPids`,
`warnedPatVersion` and the program's `warnedPmtVersion`); handlers are attached once, as the
validator starts streaming.

So along feeds that all succeed, however many packets repeat those conditions, the remarks
are the no-handler remarks of the installed PMT, in stream order, followed in some order by
one remark per reserved PID warned about, at most one PAT version remark and at most one PMT
version remark (`Validator.Remarked`). Ending the run adds none: handlers and the
segment-wide check only record errors.

## Main statements

* `Program.remarks_readPacket`: what a packet can remark on in a program.
* `remarks_installHandlers`: attaching handlers remarks on the other streams, in order.
* `Validator.remarked_feed`: the validator step.
* `remarks_once`: the statement for every run of successful feeds, and its end.
-/

namespace MpegTs

/-- The remarks made as handlers are attached for the streams of a PMT: one for each stream
that is not AVC, in order. -/
def noHandlerRemarks (streams : List EsInfo) : List Issue :=
  (streams.filter (·.streamType ≠ avcStreamType)).map
    fun es => ⟨0, noHandlerWarning es.streamType es.pid⟩

/-- A remark on a PMT of another version than the installed one. -/
def Issue.IsPmtVersionRemark (i : Issue) : Prop :=
  ∃ old new n, i = ⟨0, Program.pmtVersionWarning old new n⟩

/-! ## Programs -/

namespace Program

variable {p : Program}

/-- A packet read by a program adds no remark, or raises the program's version flag and adds
the one remark on a PMT of another version. -/
theorem remarks_readPacket (d : Diagnostics) (pkt : TsPacket) :
    ∃ r, (p.readPacket d pkt).diagnostics.remarks = d.remarks ++ r ∧
      (r = [] ∧ (p.readPacket d pkt).state.warnedPmtVersion = p.warnedPmtVersion ∨
        p.warnedPmtVersion = false ∧ (p.readPacket d pkt).state.warnedPmtVersion = true ∧
          ∃ i, r = [i] ∧ i.IsPmtVersionRemark) := by
  have hnote : (p.notePcr pkt).warnedPmtVersion = p.warnedPmtVersion :=
    (rehandles_notePcr pkt).warned
  unfold readPacket
  dsimp only
  split
  · -- the PMT PID: only a PMT of another version is remarked on
    rcases readPmt_cases (p.notePcr pkt) d pkt with
      ⟨hs, hd⟩ | ⟨m, -, -, hs, hd⟩ | ⟨m, new, -, -, hw, hs, hd⟩
    · exact ⟨[], by rw [hd, List.append_nil], .inl ⟨rfl, by rw [hs, hnote]⟩⟩
    · exact ⟨[], by rw [hd, List.append_nil], .inl ⟨rfl, by rw [hs]; exact hnote⟩⟩
    · refine ⟨_, by rw [hd, Diagnostics.remarks_warn], .inr ⟨hnote ▸ hw, by rw [hs], _, rfl,
        m.version, new, _, rfl⟩⟩
  · exact ⟨[], by rw [remarks_dispatch, List.append_nil],
      .inl ⟨rfl, ((rehandles_dispatch d pkt).warned).trans hnote⟩⟩

/-- A fresh program reads a packet on its PMT PID without remark. -/
theorem readPmt_new_quiet (n pid : Nat) (d : Diagnostics) (pkt : TsPacket) :
    ((Program.new n pid).readPmt d pkt).diagnostics = d ∧
      ((Program.new n pid).readPmt d pkt).state.warnedPmtVersion = false := by
  rcases readPmt_cases (Program.new n pid) d pkt with
    ⟨hs, hd⟩ | ⟨m, -, -, hs, hd⟩ | ⟨m, new, hm, -⟩
  · exact ⟨hd, by rw [hs]; rfl⟩
  · exact ⟨hd, by rw [hs]; rfl⟩
  · cases hm

theorem warnedPmtVersion_register {pid : Nat} {h : AvcHandler} {p' : Program}
    (hr : p.register pid h = .ok p') : p'.warnedPmtVersion = p.warnedPmtVersion := by
  rw [register_ok_eq hr]

end Program

/-- Attaching handlers through a PMT that it gets through remarks on each stream that is not
AVC, in order, and leaves the program's version flag alone. -/
theorem remarks_installHandlers (t : SegmentType) (x : Option Extractor) :
    ∀ (streams : List EsInfo) {d d' : Diagnostics} {p p' : Program},
      installHandlers t x d p streams = (p', d', .ok ()) →
      d'.remarks = d.remarks ++ noHandlerRemarks streams ∧
        p'.warnedPmtVersion = p.warnedPmtVersion
  | [], d, d', p, p', h => by
    simp only [installHandlers, Prod.mk.injEq] at h
    obtain ⟨rfl, rfl, -⟩ := h
    exact ⟨by simp [noHandlerRemarks], rfl⟩
  | es :: rest, d, d', p, p', h => by
    obtain ⟨-, ⟨havc, hrest⟩ | ⟨havc, _, p₁, -, hreg, hrest⟩⟩ := installHandlers_cons_ok h
    · -- a stream no handler checks is remarked on, then the loop goes on
      obtain ⟨hrem, hw⟩ := remarks_installHandlers t x rest hrest
      refine ⟨?_, hw⟩
      rw [hrem, Diagnostics.remarks_warn]
      simp [noHandlerRemarks, havc]
    · obtain ⟨hrem, hw⟩ := remarks_installHandlers t x rest hrest
      refine ⟨?_, hw.trans (Program.warnedPmtVersion_register hreg)⟩
      rw [hrem]
      simp [noHandlerRemarks, havc]

/-! ## Ending a run -/

theorem AvcHandler.remarks_finish (h : AvcHandler) (d : Diagnostics) :
    (h.finish d).diagnostics.remarks = d.remarks := by
  -- what the handler's end records is the assembler's end, which only records errors
  have hfin : (h.assembler.finish d).diagnostics.remarks = d.remarks := by
    dsimp only [PesAssembler.finish, PesAssembler.complete]
    repeat' split
    all_goals simp
  exact hfin

theorem Program.remarks_finishEntries :
    ∀ (d : Diagnostics) (es : List PidEntry), (finishEntries d es).2.remarks = d.remarks
  | d, [] => rfl
  | d, e :: es => by
    simp only [finishEntries]
    split
    · rename_i h _
      rw [remarks_finishEntries]
      split
      · exact h.remarks_finish d
      · rw [Diagnostics.remarks_record]
        exact h.remarks_finish d
    · exact remarks_finishEntries d es

theorem remarks_finishPrograms :
    ∀ (d : Diagnostics) (ps : List Program), (finishPrograms d ps).2.remarks = d.remarks
  | d, [] => rfl
  | d, p :: ps => by
    simp only [finishPrograms]
    rw [remarks_finishPrograms, Program.finish, Program.remarks_finishEntries]

/-- Ending a run adds no remark. -/
theorem Validator.remarks_finish (v : Validator) :
    v.finish.diagnostics.remarks = v.diagnostics.remarks := by
  simp only [Validator.finish, Stream.finish]
  rw [remarks_finishPrograms]
  split
  · split
    · exact Diagnostics.remarks_record _ _
    · rfl
  · rfl

/-! ## The validator -/

/-- A remark added last may stand anywhere in an order of the others. -/
theorem perm_append_singleton_middle {rest l₁ l₂ : List Issue} (h : rest.Perm (l₁ ++ l₂))
    (i : Issue) : (rest ++ [i]).Perm (l₁ ++ i :: l₂) :=
  calc (rest ++ [i]).Perm (l₁ ++ l₂ ++ [i]) := h.append_right [i]
    List.Perm _ (i :: (l₁ ++ l₂)) := List.perm_append_singleton _ _
    List.Perm _ (l₁ ++ i :: l₂) := List.perm_middle.symm

namespace Validator

/-- The no-handler remarks of the PMTs the programs have installed. -/
def handlerRemarks (v : Validator) : List Issue :=
  (v.stream.programs.filterMap (·.pmt)).flatMap fun pmt => noHandlerRemarks pmt.streams

/-- The remark on a reserved table PID. -/
def reservedRemark (pid : Nat) : Issue := ⟨0, reservedPidWarning pid⟩

/-- The remark on a PAT of another version. -/
def patVersionRemark (version : Nat) : Issue := ⟨0, patVersionWarning version⟩

/-- How many programs have remarked on a PMT of another version. -/
def pmtRemarked (v : Validator) : Nat := (v.stream.programs.filter (·.warnedPmtVersion)).length

/-- The remarks made while streaming: one per reserved PID warned about, at most one PAT
version remark, once its flag is raised, and one PMT version remark for each program whose
flag is raised, in any order. -/
def StreamingRemarks (v : Validator) (rest : List Issue) : Prop :=
  ∃ patR pmtR, rest.Perm (v.warnedPids.map reservedRemark ++ patR ++ pmtR) ∧
    patR.length = (if v.warnedPatVersion then 1 else 0) ∧
    (∀ i ∈ patR, ∃ version, i = patVersionRemark version) ∧
    pmtR.length = v.pmtRemarked ∧ ∀ i ∈ pmtR, i.IsPmtVersionRemark

/-- The invariant of the remarks: the no-handler remarks of the installed PMT, then the
remarks made while streaming, with the reserved PIDs warned about each once; before
streaming, no remark and no flag raised. -/
structure Remarked (v : Validator) : Prop where
  nodup : v.warnedPids.Nodup
  reserved : ∀ pid ∈ v.warnedPids, pid = 1 ∨ pid = 2 ∨ pid = 3
  quiet : v.phase ≠ .streaming → v.diagnostics.remarks = [] ∧ v.warnedPids = [] ∧
    v.warnedPatVersion = false ∧ v.pmtRemarked = 0
  remarks : ∃ rest, v.diagnostics.remarks = v.handlerRemarks ++ rest ∧ v.StreamingRemarks rest

variable {v v' : Validator}

theorem remarked_new (t : SegmentType) (x : Bool) : (Validator.new t x).Remarked where
  nodup := List.nodup_nil
  reserved := by simp [Validator.new]
  quiet _ := ⟨rfl, rfl, rfl, rfl⟩
  remarks := ⟨[], rfl, [], [], by simp [Validator.new, pmtRemarked]⟩

/-- Before streaming there is no remark, so no handler remark either. -/
theorem Remarked.of_quiet (hst : v.Staged) (hph : v.phase ≠ .streaming)
    (hd : v.diagnostics.remarks = []) (hpids : v.warnedPids = [])
    (hpat : v.warnedPatVersion = false) (hpmt : v.pmtRemarked = 0) : v.Remarked := by
  have hhandler : v.handlerRemarks = [] := by
    unfold Staged at hst
    split at hst
    · simp [handlerRemarks, hst.2]
    · simp [handlerRemarks, hst.2, Program.new]
    · contradiction
  refine ⟨by simp [hpids], by simp [hpids], fun _ => ⟨hd, hpids, hpat, hpmt⟩, [], ?_,
    [], [], by simp [hpids], by simp [hpat], by simp, by simp [hpmt], by simp⟩
  rw [hd, hhandler]
  rfl

/-- Starting to stream: the remarks are those on the installed PMT's streams, and no flag is
raised yet. -/
theorem Remarked.of_install (hph : v.phase = .streaming)
    (hd : v.diagnostics.remarks = v.handlerRemarks) (hpids : v.warnedPids = [])
    (hpat : v.warnedPatVersion = false) (hpmt : v.pmtRemarked = 0) : v.Remarked := by
  refine ⟨by simp [hpids], by simp [hpids], fun hs => absurd hph hs, [], ?_,
    [], [], by simp [hpids], by simp [hpat], by simp, by simp [hpmt], by simp⟩
  rw [hd, List.append_nil]

/-- The first PAT of another version while streaming: its remark joins the others. -/
theorem Remarked.warnPat (h : v.Remarked) (hph : v.phase = .streaming)
    (hw : v.warnedPatVersion = false) (version : Nat) :
    { v with warnedPatVersion := true
             diagnostics := v.diagnostics.warn (patVersionWarning version) }.Remarked := by
  obtain ⟨rest, hrem, patR, pmtR, hperm, hpatR, hpatI, hpmtR, hpmtI⟩ := h.remarks
  have hnil : patR = [] := List.eq_nil_of_length_eq_zero (by simpa [hw] using hpatR)
  subst hnil
  refine ⟨h.nodup, h.reserved, fun hs => absurd hph hs, rest ++ [patVersionRemark version],
    ?_, [patVersionRemark version], pmtR, ?_, rfl, by simp, hpmtR, hpmtI⟩
  · rw [Diagnostics.remarks_warn, hrem, List.append_assoc]
    rfl
  · -- the new remark stands in front of the PMT remarks
    simpa using perm_append_singleton_middle (by simpa using hperm) (patVersionRemark version)

/-- The first packet on a reserved PID while streaming: its remark joins the others, and the
PID is not warned about again. -/
theorem Remarked.warnReserved (h : v.Remarked) (hph : v.phase = .streaming) {pid : Nat}
    (hpid : pid = 1 ∨ pid = 2 ∨ pid = 3) (hnew : pid ∉ v.warnedPids) :
    { v with warnedPids := v.warnedPids ++ [pid]
             diagnostics := v.diagnostics.warn (reservedPidWarning pid) }.Remarked := by
  obtain ⟨rest, hrem, patR, pmtR, hperm, hpatR, hpatI, hpmtR, hpmtI⟩ := h.remarks
  refine ⟨List.nodup_append.2 ⟨h.nodup, by simp, ?_⟩, ?_,
    fun hs => absurd hph hs, rest ++ [reservedRemark pid], ?_, patR, pmtR, ?_,
    hpatR, hpatI, hpmtR, hpmtI⟩
  · intro a ha b hb
    rw [List.mem_singleton] at hb
    rintro rfl
    exact hnew (hb ▸ ha)
  · intro q hq
    rcases List.mem_append.1 hq with hq | hq
    · exact h.reserved q hq
    · rw [List.mem_singleton.1 hq]
      exact hpid
  · rw [Diagnostics.remarks_warn, hrem, List.append_assoc]
    rfl
  · -- the new remark stands in front of the PAT and PMT remarks
    simpa using perm_append_singleton_middle (by simpa using hperm) (reservedRemark pid)

/-- While streaming, a packet routed to the one program keeps its PMT and remarks at most once
on a PMT of another version. -/
theorem Remarked.demux (h : v.Remarked) (hph : v.phase = .streaming) {p : Program}
    (hprograms : v.stream.programs = [p]) (hpmt : p.pmt.isSome = true) (pkt : TsPacket) :
    (v.demux pkt).1.Remarked := by
  unfold Validator.demux Stream.readPacket
  split
  · exact h
  rw [hprograms, readPrograms_single]
  obtain ⟨rest, hrem, patR, pmtR, hperm, hpatR, hpatI, hpmtR, hpmtI⟩ := h.remarks
  -- the program keeps its PMT, so the handler remarks stay
  have hhandler : (v.stream.programs.filterMap (·.pmt)).flatMap
      (fun pmt => noHandlerRemarks pmt.streams) =
        ([(p.readPacket v.diagnostics pkt).state].filterMap (·.pmt)).flatMap
          (fun pmt => noHandlerRemarks pmt.streams) := by
    simp only [hprograms, List.filterMap_cons, List.filterMap_nil,
      (Program.keeps_readPacket hpmt v.diagnostics pkt).pmt]
  have hcount : v.pmtRemarked = if p.warnedPmtVersion then 1 else 0 := by
    simp only [pmtRemarked, hprograms]
    cases hw : p.warnedPmtVersion <;> simp [hw]
  obtain ⟨r, hr, ⟨rfl, hw⟩ | ⟨hw₀, hw₁, i, rfl, hi⟩⟩ :=
    Program.remarks_readPacket (p := p) v.diagnostics pkt
  · -- no remark: everything stays
    refine ⟨h.nodup, h.reserved, fun hs => absurd hph hs, rest, ?_, patR, pmtR, hperm,
      hpatR, hpatI, ?_, hpmtI⟩
    · rw [List.append_nil] at hr
      rw [hr, hrem]
      exact congrArg (· ++ rest) hhandler
    · rw [hpmtR, hcount]
      simp only [pmtRemarked, List.filter_cons, List.filter_nil, hw]
      cases p.warnedPmtVersion <;> rfl
  · -- the program's one remark on a PMT of another version
    have hnil : pmtR = [] := List.eq_nil_of_length_eq_zero (by rw [hpmtR, hcount, hw₀]; rfl)
    subst hnil
    refine ⟨h.nodup, h.reserved, fun hs => absurd hph hs, rest ++ [i], ?_, patR, [i], ?_,
      hpatR, hpatI, ?_, by simpa using hi⟩
    · rw [hr, hrem, List.append_assoc]
      exact congrArg (· ++ (rest ++ [i])) hhandler
    · simpa using hperm.append_right [i]
    · simp [pmtRemarked, hw₁]

/-- While streaming, a packet that gets through keeps the invariant: the PAT version and the
reserved PIDs are remarked on at their first sight only, and any other PID goes to the
program. -/
theorem remarked_route (hph : v.phase = .streaming) (hst : v.Staged) (h : v.Remarked)
    {pkt : TsPacket} (hr : v.route pkt = (v', .ok ())) : v'.Remarked := by
  obtain ⟨n, pid, pmt, p, -, hprograms, hserves⟩ := hst.streaming hph
  rcases v.route_cases pkt with ⟨e, -, hr'⟩ | hr' | ⟨pat, -, -, -, hw, hr'⟩ | ⟨hpid, hnew, hr'⟩ |
      ⟨-, -, hr'⟩ <;>
    rw [hr'] at hr
  · simp at hr
  · obtain ⟨rfl, -⟩ := Prod.mk.inj hr
    exact h
  · -- the PAT version and the reserved PIDs are remarked on at their first sight only
    obtain ⟨rfl, -⟩ := Prod.mk.inj hr
    exact h.warnPat hph hw pat.version
  · obtain ⟨rfl, -⟩ := Prod.mk.inj hr
    exact h.warnReserved hph hpid hnew
  · have hv' : (v.demux pkt).1 = v' := congrArg Prod.fst hr
    rw [← hv']
    exact h.demux hph hprograms (by rw [hserves.installed]; rfl) pkt

section Awaiting

variable {n pid : Nat} {pkt : TsPacket}

/-- Reading the PAT makes no remark and raises no flag. -/
theorem remarked_readPat (hph : v.phase = .awaitingPat) (hst : v.Staged) (h : v.Remarked)
    (hr : v.readPat pkt = (v', .ok ())) : v'.Remarked := by
  obtain ⟨hd, hpids, hpat, hpmt⟩ := h.quiet (by rw [hph]; simp)
  have hprograms : v.stream.programs = [] := (hst.awaitingPat hph).2
  obtain ⟨hst', -⟩ := staged_readPat hph hst hr
  unfold readPat at hr
  split at hr
  · simp at hr
  · obtain ⟨rfl, -⟩ := Prod.mk.inj hr
    exact h
  split at hr
  · split at hr
    · simp at hr
    split at hr
    · simp at hr
    -- the one program of the PAT, fresh, and the PMT to await
    obtain ⟨rfl, -⟩ := Prod.mk.inj hr
    exact Remarked.of_quiet hst' (by simp) hd hpids hpat
      (by simp [pmtRemarked, hprograms, Program.new])
  · simp at hr

/-- While awaiting the PMT, a packet on the PMT PID makes no remark and raises no flag. -/
theorem demux_awaitingPmt_quiet (hph : v.phase = .awaitingPmt n pid) (hst : v.Staged)
    (hpkt : pkt.pid = pid) :
    (v.demux pkt).1.diagnostics = v.diagnostics ∧ (v.demux pkt).1.pmtRemarked = 0 := by
  have hprograms : v.stream.programs = [Program.new n pid] := (hst.awaitingPmt hph).2
  unfold Validator.demux Stream.readPacket
  split
  · exact ⟨rfl, by simp [pmtRemarked, hprograms, Program.new]⟩
  · rw [hprograms, readPrograms_single, Program.readPacket_new n pid _ hpkt]
    obtain ⟨hd, hw⟩ := Program.readPmt_new_quiet n pid v.diagnostics pkt
    exact ⟨hd, by simp [pmtRemarked, hw]⟩

/-- Attaching the handlers once the PMT is installed: the remarks on its other streams are the
first remarks, and streaming starts with no flag raised. -/
theorem remarked_install {q : Program} (hph : v.phase = .awaitingPmt n pid)
    (hlists : v.stream.Lists n pid) (hd : v.diagnostics.remarks = []) (hpids : v.warnedPids = [])
    (hpat : v.warnedPatVersion = false) (hq : v.stream.programs = [q]) (hawait : q.Awaits n pid)
    (hw : q.warnedPmtVersion = false) (hr : v.install n = (v', .ok ())) : v'.Remarked := by
  obtain ⟨hst', -⟩ := staged_install hph hlists hq hawait hr
  have hpmt : v.pmtRemarked = 0 := by simp [pmtRemarked, hq, hw]
  have hfind : v.stream.program? n = some q := by
    simp [Stream.program?, hq, hawait.programNumber]
  unfold install at hr
  split at hr
  · obtain ⟨rfl, -⟩ := Prod.mk.inj hr
    exact Remarked.of_quiet hst' (by rw [hph]; simp) hd hpids hpat hpmt
  rename_i q' hq'
  rw [hfind] at hq'
  cases hq'
  split at hr
  · obtain ⟨rfl, -⟩ := Prod.mk.inj hr
    exact Remarked.of_quiet hst' (by rw [hph]; simp) hd hpids hpat hpmt
  rename_i pmt hpmt'
  split at hr
  rename_i p' d' r hinst
  split at hr
  · simp at hr
  obtain ⟨rfl, -⟩ := Prod.mk.inj hr
  obtain ⟨hrem, hw'⟩ := remarks_installHandlers _ _ _ hinst
  have hkeep := (installHandlers_ok _ _ _ hinst).1
  -- the program with its handlers replaces the one that was awaited
  have hset : (v.stream.setProgram n p').programs = [p'] := by
    simp [Stream.setProgram, Stream.setProgram.go, hq, hawait.programNumber]
  refine Remarked.of_install rfl ?_ hpids hpat ?_
  · simp [handlerRemarks, hset, hkeep.pmt, hpmt', hrem, hd]
  · simp [pmtRemarked, hset, hw', hw]

end Awaiting

/-- The step on a packet that gets through, in every phase. -/
theorem remarked_process (hst : v.Staged) (h : v.Remarked) {data : List UInt8}
    (hproc : v.process data = (v', .ok ())) : v'.Remarked := by
  rcases v.process_cases data with ⟨e, -, hr⟩ |
      ⟨pkt, -, hr | ⟨hph, -, hr⟩ | ⟨n, pid, hph, hpkt, ⟨e, he, hr⟩ | ⟨-, hr⟩⟩ | ⟨hph, hr⟩⟩ <;>
    rw [hr] at hproc
  · simp at hproc
  · obtain ⟨rfl, -⟩ := Prod.mk.inj hproc
    exact h
  · exact remarked_readPat hph hst h hproc
  · simp [hproc] at he
  · obtain ⟨hd, hpids, hpat, -⟩ := h.quiet (by rw [hph]; simp)
    obtain ⟨hph₂, hpat₂, -, q, hq, hawait⟩ := demux_awaitingPmt hph hst hpkt
    obtain ⟨hd₂, hpmt₂⟩ := demux_awaitingPmt_quiet hph hst hpkt
    have hl : v.stream.Lists n pid := (hst.awaitingPmt hph).1
    have hw : q.warnedPmtVersion = false := by
      simp only [pmtRemarked, hq, List.filter_cons, List.filter_nil] at hpmt₂
      cases hwq : q.warnedPmtVersion
      · rfl
      · simp [hwq] at hpmt₂
    -- demultiplexing touches only the stream and the diagnostics, so the remarked PIDs and
    -- PAT version carry over as they are
    exact remarked_install (hph₂.trans hph) ⟨hpat₂ ▸ hl.pat, hl.programNumber, hl.pmtPid⟩
      (by rw [hd₂]; exact hd) hpids hpat hq hawait hw hproc
  · exact remarked_route hph hst h hproc

/-- The validator step: a feed that gets through keeps the invariant. -/
theorem remarked_feed (hst : v.Staged) (h : v.Remarked) {data : List UInt8}
    (hr : v.feed data = (v', .ok ())) : v'.Remarked :=
  -- counting the packet changes nothing the invariant reads
  remarked_process (v := { v with packets := v.packets + 1 }) hst
    ⟨h.nodup, h.reserved, h.quiet, h.remarks⟩ (feed_eq_ok.1 hr)

/-- The run lemma: feeds that all succeed keep the invariant. -/
theorem remarked_feedAll :
    ∀ (ds : List (List UInt8)) (v : Validator), v.Staged → v.Remarked →
      (v.feedAll ds).2 = .ok () → (v.feedAll ds).1.Remarked
  | [], _, _, h, _ => h
  | data :: rest, v, hst, h, hr => by
    cases hfeed : v.feed data with
    | mk v₁ r =>
      cases r with
      | error e => simp [feedAll, hfeed] at hr
      | ok u =>
        simp only [feedAll, hfeed] at hr ⊢
        exact remarked_feedAll rest v₁ (staged_feed hst hfeed).1 (remarked_feed hst h hfeed) hr

/-- A staged validator knows one program at most. -/
theorem Staged.length_programs (hst : v.Staged) : v.stream.programs.length ≤ 1 := by
  unfold Staged at hst
  split at hst
  · simp [hst.2]
  · simp [hst.2]
  · obtain ⟨n, pid, pmt, p, -, hp, -⟩ := hst
    simp [hp]

end Validator

/-- Conditions that repeat are remarked on once. Along feeds that all succeed from a fresh
validator, followed by the end of the run, however many packets repeat a condition, the
remarks (the warnings with code `0`) are: first one for each stream of the installed PMT that
is not AVC, in stream order, and at most one PMT is installed; then, in some order, one for
each PID of a list without repeats of reserved table PIDs among CAT (1), TSDT (2) and
IPMP CIT (3), at most one on a PAT of another version and at most one on a PMT of another
version. -/
theorem remarks_once (t : SegmentType) (x : Bool) (ds : List (List UInt8))
    (hrun : ((Validator.new t x).feedAll ds).2 = .ok ()) :
    let v := ((Validator.new t x).feedAll ds).1
    (v.stream.programs.filterMap (·.pmt)).length ≤ 1 ∧
    ∃ (pids : List Nat) (patR pmtR rest : List Issue),
      v.finish.diagnostics.remarks =
        ((v.stream.programs.filterMap (·.pmt)).flatMap fun pmt => noHandlerRemarks pmt.streams) ++
          rest ∧
      rest.Perm (pids.map Validator.reservedRemark ++ patR ++ pmtR) ∧
      pids.Nodup ∧ (∀ pid ∈ pids, pid = 1 ∨ pid = 2 ∨ pid = 3) ∧
      patR.length ≤ 1 ∧ (∀ i ∈ patR, ∃ version, i = Validator.patVersionRemark version) ∧
      pmtR.length ≤ 1 ∧ ∀ i ∈ pmtR, i.IsPmtVersionRemark := by
  intro v
  obtain ⟨hst, -⟩ := Validator.staged_feedAll ds _ (Validator.staged_new t x) hrun
  have h := Validator.remarked_feedAll ds _ (Validator.staged_new t x)
    (Validator.remarked_new t x) hrun
  have hlen : v.stream.programs.length ≤ 1 := hst.length_programs
  obtain ⟨rest, hrem, patR, pmtR, hperm, hpatR, hpatI, hpmtR, hpmtI⟩ := h.remarks
  refine ⟨(List.length_filterMap_le _ _).trans hlen, v.warnedPids, patR, pmtR, rest, ?_, hperm,
    h.nodup, h.reserved, ?_, hpatI, ?_, hpmtI⟩
  · -- the end of the run adds no remark
    rw [Validator.remarks_finish, hrem]
    rfl
  · rw [hpatR]
    split <;> simp
  · rw [hpmtR]
    exact (List.length_filter_le _ _).trans hlen

/-- A PAT, the PMT of one AVC stream, then two packets on the CAT PID. -/
def catTwice : List (List UInt8) :=
  Validator.patAndPmt ++ List.replicate 2 ([0x47, 0x00, 0x01, 0x10] ++ List.replicate 184 0xff)

theorem remarks_once_catTwice :
    ((Validator.new .general).feedAll catTwice).2 = .ok () ∧
    let v := ((Validator.new .general).feedAll catTwice).1
    (v.stream.programs.filterMap (·.pmt)).length ≤ 1 ∧
    ∃ (pids : List Nat) (patR pmtR rest : List Issue),
      v.finish.diagnostics.remarks =
        ((v.stream.programs.filterMap (·.pmt)).flatMap fun pmt => noHandlerRemarks pmt.streams) ++
          rest ∧
      rest.Perm (pids.map Validator.reservedRemark ++ patR ++ pmtR) ∧
      pids.Nodup ∧ (∀ pid ∈ pids, pid = 1 ∨ pid = 2 ∨ pid = 3) ∧
      patR.length ≤ 1 ∧ (∀ i ∈ patR, ∃ version, i = Validator.patVersionRemark version) ∧
      pmtR.length ≤ 1 ∧ ∀ i ∈ pmtR, i.IsPmtVersionRemark :=
  have hrun : ((Validator.new .general).feedAll catTwice).2 = .ok () := by decide +kernel
  ⟨hrun, remarks_once .general false catTwice hrun⟩

-- the CAT PID is remarked on once, though two packets carry it
example : ((Validator.new .general).feedAll catTwice).1.finish.diagnostics.remarks =
    [Validator.reservedRemark 1] := by
  decide +kernel

end MpegTs
