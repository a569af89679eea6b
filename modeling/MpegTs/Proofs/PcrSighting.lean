import MpegTs.Proofs.PidTable
import MpegTs.Proofs.StreamFaults

/-!
# Sighting a PCR

A program notes a PCR when a packet that carries one on the PCR PID of its installed PMT is
routed to it, before the packet is read as PMT or handed to a handler. So a PCR counts only
if the PMT was installed before the packet, not by the packet itself; a PCR on the PMT PID
counts; and a handler is given the flag with its own packet counted. Routing stops at the
first program that fails, so the programs after it do not see the packet, while the one that
fails has noted its PCR all the same.

Over every sequence of calls on a stream (packets routed, handlers registered and
unregistered) a program's flag is set after the calls exactly when it was set before, or one
of the calls was a packet that reached the program while its installed PMT named the
packet's PID as PCR PID, and carried a PCR (`Stream.sights`). The flag never reverts, and
while no PAT is known, packets off PID `0` change nothing. At the end of a run a media
segment is reported with no PCR exactly when it reached the streaming phase cleanly with no
program's flag set: the handlers, ended after the segment-wide check, report only faults of
their own streams.

## Main statements

* `Program.sawPcr_readPacket`: the program step.
* `Stream.sawPcrAt_call`: one call on a stream.
* `Stream.sawPcrAt_calls`: the run.
* `pcr_sighting_exact`: the statement for every run, with the handler's view and the end.
-/

namespace MpegTs

namespace Program

variable {p : Program}

theorem notePcr_eq (pkt : TsPacket) :
    p.notePcr pkt = { p with sawPcr := p.sawPcr || p.carriesPcr pkt } := by
  unfold notePcr carriesPcr
  split
  · rename_i h
    rw [h, Bool.or_true]
  · rename_i h
    rw [Bool.not_eq_true] at h
    rw [h, Bool.or_false]

theorem sawPcr_readPmt (d : Diagnostics) (pkt : TsPacket) :
    (p.readPmt d pkt).state.sawPcr = p.sawPcr := by
  rcases readPmt_cases p d pkt with ⟨hs, -⟩ | ⟨m, -, -, hs, -⟩ | ⟨m, new, -, -, -, hs, -⟩ <;>
    rw [hs]

theorem sawPcr_dispatch (d : Diagnostics) (pkt : TsPacket) :
    (p.dispatch d pkt).state.sawPcr = p.sawPcr := by
  unfold dispatch
  split <;> rfl

/-- A packet read by a program sets its flag exactly when it carries a PCR on the PCR PID of
the installed PMT, however the reading ends. -/
theorem sawPcr_readPacket (d : Diagnostics) (pkt : TsPacket) :
    (p.readPacket d pkt).state.sawPcr = (p.sawPcr || p.carriesPcr pkt) := by
  unfold readPacket
  dsimp only
  split
  · rw [sawPcr_readPmt, notePcr_eq]
  · rw [sawPcr_dispatch, notePcr_eq]

/-- A packet on an elementary PID with a handler: the handler is given the program's flag with
this packet counted, and the program keeps that flag and the handler's new state. -/
theorem readPacket_of_handler {pkt : TsPacket} (hpid : pkt.pid ≠ p.pid) {es : EsInfo}
    {h : AvcHandler} (he : p.pidEntry pkt.pid = some ⟨es, some h⟩) (d : Diagnostics) :
    let b := p.sawPcr || p.carriesPcr pkt
    p.readPacket d pkt =
      ⟨{ p with
          sawPcr := b
          pids := setHandler pkt.pid (some (h.processTsPacket d b pkt).state) p.pids },
        (h.processTsPacket d b pkt).diagnostics, (h.processTsPacket d b pkt).result⟩ := by
  intro b
  -- noting the PCR leaves the table, so the packet finds the same handler
  have he' : (p.notePcr pkt).pidEntry pkt.pid = some ⟨es, some h⟩ := by
    rw [pidEntry, notePcr_pids]
    exact he
  have hne : (p.notePcr pkt).pid ≠ pkt.pid := by
    rw [notePcr_eq]
    exact Ne.symm hpid
  simp only [readPacket, if_neg hne, dispatch, he']
  rw [notePcr_eq]

theorem sawPcr_register {pid : Nat} {h : AvcHandler} {p' : Program}
    (hr : p.register pid h = .ok p') : p'.sawPcr = p.sawPcr := by
  rw [register_ok_eq hr]

theorem sawPcr_unregister (pid : Nat) : (p.unregister pid).1.sawPcr = p.sawPcr := by
  unfold unregister
  split <;> rfl

end Program

/-- Routing a packet through programs sets the flag of the `i`-th exactly when the packet
reached it, the programs before it having taken the packet without failing, and carries a
PCR on its PCR PID. -/
theorem sawPcr_readPrograms (pkt : TsPacket) :
    ∀ (ps : List Program) (d : Diagnostics) (i : Nat),
      (readPrograms d pkt ps).1[i]?.any (·.sawPcr) =
        (ps[i]?.any (·.sawPcr) ||
          (readPrograms d pkt (ps.take i)).2.2.isOk && ps[i]?.any (·.carriesPcr pkt))
  | [], d, i => by simp [readPrograms]
  | p :: ps, d, 0 => by
    simp only [readPrograms]
    split <;> simp [readPrograms, Program.sawPcr_readPacket, Except.isOk, Except.toBool]
  | p :: ps, d, k + 1 => by
    have ih := sawPcr_readPrograms pkt ps (p.readPacket d pkt).diagnostics k
    simp only [readPrograms, List.take_succ_cons]
    -- the `k + 1`-th program sees the packet only if the first takes it
    split
    · rename_i e he
      simp [Except.isOk, Except.toBool]
    · rename_i he
      simpa [he] using ih

namespace Stream

variable {s : Stream}

/-- The PCR flag of the program at index `i`, false past the last program. -/
def sawPcrAt (s : Stream) (i : Nat) : Bool := s.programs[i]?.any (·.sawPcr)

/-- Routing a packet reaches the program at index `i`: the stream routes it at all, knowing a
PAT or finding it on PID `0`, and the programs before the `i`-th take it without failing. -/
def reaches (s : Stream) (d : Diagnostics) (pkt : TsPacket) (i : Nat) : Bool :=
  (s.pat.isSome || pkt.pid == patPid) && (readPrograms d pkt (s.programs.take i)).2.2.isOk

/-- The call is a packet that sets the flag of the program at index `i`: it reaches the
program, the program's installed PMT names the packet's PID as PCR PID, and it carries a
PCR. -/
def sights (s : Stream) (d : Diagnostics) (i : Nat) : Call → Bool
  | .readPacket pkt => s.reaches d pkt i && s.programs[i]?.any (·.carriesPcr pkt)
  | _ => false

/-- One packet routed through a stream. -/
theorem sawPcrAt_readPacket (d : Diagnostics) (pkt : TsPacket) (i : Nat) :
    (s.readPacket d pkt).state.sawPcrAt i = (s.sawPcrAt i || s.sights d i (.readPacket pkt)) := by
  unfold readPacket
  split
  · -- without a PAT only PID 0 is routed
    rename_i h
    have hr : (s.pat.isSome || pkt.pid == patPid) = false := by
      simpa [Option.isNone_iff_eq_none] using h
    simp [sights, reaches, hr]
  · rename_i h
    have hr : (s.pat.isSome || pkt.pid == patPid) = true := by
      by_contra hn
      apply h
      simpa [Option.isNone_iff_eq_none] using hn
    simp only [sawPcrAt, sights, reaches, hr, Bool.true_and]
    rw [sawPcr_readPrograms pkt s.programs d i]

/-- Putting a program in place of the first with its number, with the same flag. -/
theorem sawPcr_setProgram_go {n : Nat} {p p' : Program} (hs : p'.sawPcr = p.sawPcr) :
    ∀ {ps : List Program}, ps.find? (·.programNumber == n) = some p → ∀ i : Nat,
      (setProgram.go n p' ps)[i]?.any Program.sawPcr = ps[i]?.any Program.sawPcr
  | [], hf, _ => by cases hf
  | q :: qs, hf, i => by
    simp only [setProgram.go]
    split
    · rename_i hq
      have hqp : q = p := by simpa [hq] using hf
      cases i <;> simp [hqp, hs]
    · rename_i hq
      have hf' : qs.find? (·.programNumber == n) = some p := by simpa [hq] using hf
      cases i with
      | zero => rfl
      | succ k => simpa using sawPcr_setProgram_go hs hf' k

theorem sawPcrAt_setProgram {n : Nat} {p p' : Program} (hp : s.program? n = some p)
    (hs : p'.sawPcr = p.sawPcr) (i : Nat) : (s.setProgram n p').sawPcrAt i = s.sawPcrAt i :=
  sawPcr_setProgram_go hs hp i

/-- One call on a stream: only a packet sets a flag, and registering or unregistering a
handler keeps them all. -/
theorem sawPcrAt_call (d : Diagnostics) (c : Call) (i : Nat) :
    (s.call d c).1.sawPcrAt i = (s.sawPcrAt i || s.sights d i c) := by
  cases c with
  | readPacket pkt => exact sawPcrAt_readPacket d pkt i
  | register n pid h =>
    simp only [call, sights, Bool.or_false]
    split
    · rfl
    · rename_i p hp
      split
      · rename_i p' hr
        exact sawPcrAt_setProgram hp (Program.sawPcr_register hr) i
      · rfl
  | unregister n pid =>
    simp only [call, sights, Bool.or_false]
    split
    · rfl
    · rename_i p hp
      exact sawPcrAt_setProgram hp (Program.sawPcr_unregister pid) i

theorem calls_append (d : Diagnostics) (cs cs' : List Call) :
    s.calls d (cs ++ cs') = (s.calls d cs).1.calls (s.calls d cs).2 cs' := by
  induction cs generalizing s d with
  | nil => rfl
  | cons c cs ih =>
    simp only [List.cons_append, calls]
    exact ih _

/-- The run: after a sequence of calls, a program's flag is set exactly when it was set
before or one of the calls sighted a PCR for it, in the state the calls before it left. -/
theorem sawPcrAt_calls (i : Nat) :
    ∀ (s : Stream) (d : Diagnostics) (cs : List Call),
      (s.calls d cs).1.sawPcrAt i = true ↔
        s.sawPcrAt i = true ∨ ∃ pre c post, cs = pre ++ c :: post ∧
          (s.calls d pre).1.sights (s.calls d pre).2 i c = true
  | s, d, [] => by simp [calls]
  | s, d, c :: cs => by
    rw [calls, sawPcrAt_calls i _ _ cs, sawPcrAt_call, Bool.or_eq_true]
    constructor
    · rintro ((hflag | hsight) | ⟨pre, c', post, rfl, hsight⟩)
      · exact .inl hflag
      · exact .inr ⟨[], c, cs, rfl, hsight⟩
      · exact .inr ⟨c :: pre, c', post, rfl, hsight⟩
    · rintro (hflag | ⟨pre, c', post, hsplit, hsight⟩)
      · exact .inl (.inl hflag)
      · -- the sighting call is the first one, or one of the rest
        cases pre with
        | nil =>
          obtain ⟨rfl, rfl⟩ := List.cons.inj hsplit
          exact .inl (.inr hsight)
        | cons a pre =>
          obtain ⟨rfl, rfl⟩ := List.cons.inj hsplit
          exact .inr ⟨pre, c', post, rfl, hsight⟩

/-- A flag once set stays set. -/
theorem sawPcrAt_calls_append {d : Diagnostics} {cs : List Call} {i : Nat}
    (h : (s.calls d cs).1.sawPcrAt i = true) (cs' : List Call) :
    (s.calls d (cs ++ cs')).1.sawPcrAt i = true := by
  rw [calls_append]
  exact (sawPcrAt_calls i _ _ cs').2 (.inl h)

/-- Some program's flag is set exactly when the flag at some index is. -/
theorem sawPcr_iff (s : Stream) : s.sawPcr = true ↔ ∃ i, s.sawPcrAt i = true := by
  simp only [Stream.sawPcr, sawPcrAt, List.any_eq_true, Option.any_eq_true, List.mem_iff_getElem?]
  constructor
  · rintro ⟨p, ⟨i, hi⟩, hp⟩
    exact ⟨i, p, hi, hp⟩
  · rintro ⟨i, p, hi, hp⟩
    exact ⟨p, ⟨i, hi⟩, hp⟩

/-- While no PAT is known, packets off PID `0` change nothing. -/
theorem calls_without_pat (hs : s.pat = none) (d : Diagnostics) :
    ∀ pkts : List TsPacket, (∀ pkt ∈ pkts, pkt.pid ≠ patPid) →
      s.calls d (pkts.map .readPacket) = (s, d)
  | [], _ => rfl
  | pkt :: pkts, hpids => by
    have hpkt : s.readPacket d pkt = ⟨s, d, .ok ()⟩ := by
      unfold readPacket
      rw [if_pos ⟨by simp [hs], hpids pkt List.mem_cons_self⟩]
    simp only [List.map_cons, calls, call, hpkt]
    exact calls_without_pat hs d pkts fun q hq => hpids q (List.mem_cons_of_mem _ hq)

end Stream

namespace Validator

/-- What the phase's segment-wide error can be: a missing PAT, a missing PMT, or, in the
streaming phase of a media segment with no program's flag set, a missing PCR. -/
theorem missing_cases {v : Validator} {e : Error} (h : v.missing = some e) :
    e = .patNotFound ∨ (∃ n pid, e = .pmtNotFound n pid) ∨
      (e = .noPcrInSegment ∧ v.segmentType.isMedia = true ∧ v.phase = .streaming ∧
        v.stream.sawPcr = false) := by
  unfold missing at h
  split at h
  · exact .inl (Option.some.inj h).symm
  · exact .inr (.inl ⟨_, _, (Option.some.inj h).symm⟩)
  · rename_i hph
    split at h
    · rename_i hcond
      simp only [Bool.not_eq_true'] at hcond
      exact .inr (.inr ⟨(Option.some.inj h).symm, hcond.1, hph, hcond.2⟩)
    · cases h

theorem missing_eq_noPcr {v : Validator} (hm : v.segmentType.isMedia = true)
    (hph : v.phase = .streaming) (hs : v.stream.sawPcr = false) :
    v.missing = some .noPcrInSegment := by
  simp [missing, hph, hm, hs]

/-- The phase's missing table or PCR is a hard error. -/
theorem isSoft_of_missing {v : Validator} {e : Error} (h : v.missing = some e) :
    e.isSoft = false := by
  rcases missing_cases h with rfl | ⟨n, pid, rfl⟩ | ⟨rfl, -⟩ <;> rfl

/-- Of the phase's errors only the missing PCR is reported with its code and text. -/
theorem missing_toIssue_eq_iff {v : Validator} {e : Error} (h : v.missing = some e) :
    e.toIssue = Error.noPcrInSegment.toIssue ↔ v.segmentType.isMedia = true ∧
      v.phase = .streaming ∧ v.stream.sawPcr = false := by
  constructor
  · intro heq
    -- a missing PAT or PMT has a code of its own
    rcases missing_cases h with rfl | ⟨n, pid, rfl⟩ | ⟨-, hcond⟩
    · simp [Error.toIssue, Error.code] at heq
    · simp [Error.toIssue, Error.code] at heq
    · exact hcond
  · rintro ⟨hm, hph, hs⟩
    rw [missing_eq_noPcr hm hph hs, Option.some.injEq] at h
    rw [← h]

/-- The segment-wide error `finish` records: the one the run's phase leaves, checked only while
no error was recorded. -/
def endError (v : Validator) : Option Error :=
  if v.diagnostics.isClean then v.missing else none

/-- The errors the end of a run adds: its segment-wide error, then faults of the handlers'
streams. -/
theorem finish_errors (v : Validator) :
    ∃ es : List Error, v.finish.diagnostics.errors =
      v.diagnostics.errors ++ (v.endError.map Error.toIssue).toList ++ es.map Error.toIssue ∧
      ∀ e ∈ es, e.isStreamFault = true := by
  -- the diagnostics the handlers are ended from
  obtain ⟨d, hd, hfin⟩ : ∃ d : Diagnostics,
      d.errors = v.diagnostics.errors ++ (v.endError.map Error.toIssue).toList ∧
        v.finish.diagnostics = (v.stream.finish d).2 := by
    unfold finish endError
    split
    · cases hmiss : v.missing with
      | none => exact ⟨_, by simp, rfl⟩
      | some e => exact ⟨_, by simp [Diagnostics.record, isSoft_of_missing hmiss], rfl⟩
    · exact ⟨_, by simp, rfl⟩
  obtain ⟨es, hes, hf⟩ := v.stream.addsFaults_finish d
  exact ⟨es, by rw [hfin, hes, hd], hf⟩

/-- A media segment that reached the streaming phase without error and with no program's flag
set ends with no PCR reported, as its first error. -/
theorem finish_noPcr {v : Validator} (hm : v.segmentType.isMedia = true)
    (hph : v.phase = .streaming) (hc : v.diagnostics.isClean = true)
    (hs : v.stream.sawPcr = false) :
    ∃ rest, v.finish.diagnostics.errors = Error.noPcrInSegment.toIssue :: rest := by
  have hend : v.endError = some .noPcrInSegment := by
    rw [endError, if_pos hc, missing_eq_noPcr hm hph hs]
  have hnil : v.diagnostics.errors = [] := by
    simpa [Diagnostics.isClean_eq] using hc
  obtain ⟨es, hes, -⟩ := v.finish_errors
  refine ⟨es.map Error.toIssue, ?_⟩
  rw [hes, hend, hnil]
  rfl

/-- For a media segment the end of a run reports no PCR exactly when the run reached the
streaming phase cleanly with no program's flag set: the handlers report only faults of their
own streams. -/
theorem noPcr_mem_finish_iff {v : Validator} (hm : v.segmentType.isMedia = true) :
    Error.noPcrInSegment.toIssue ∈ v.finish.diagnostics.errors.drop v.diagnostics.errors.length ↔
      v.phase = .streaming ∧ v.diagnostics.isClean = true ∧ v.stream.sawPcr = false := by
  obtain ⟨es, hes, hf⟩ := v.finish_errors
  have hfaults : Error.noPcrInSegment.toIssue ∉ es.map Error.toIssue := by
    simp only [List.mem_map, not_exists, not_and]
    intro e he heq
    have hcode := congrArg Issue.code heq
    have hsf := hf e he
    cases e <;> simp_all [Error.isStreamFault, Error.toIssue, Error.code]
  rw [hes, List.append_assoc, List.drop_left, List.mem_append, or_iff_left hfaults]
  unfold endError
  split
  · rename_i hc
    cases hmiss : v.missing with
    | none =>
      -- no error of the phase: the streaming phase of a segment that saw a PCR
      simp only [Option.map_none, Option.toList_none, List.not_mem_nil, false_iff]
      rintro ⟨hph, -, hs⟩
      rw [missing_eq_noPcr hm hph hs] at hmiss
      cases hmiss
    | some e =>
      simp only [Option.map_some, Option.toList_some, List.mem_singleton]
      rw [eq_comm, missing_toIssue_eq_iff hmiss]
      simp [hm, hc]
  · rename_i hc
    simp [hc]

end Validator

/-- PCR sighting is tracked exactly and monotonically. Along every sequence of calls on a
stream (packets routed, handlers registered and unregistered), the flag of the program at
index `i` is set after the calls exactly when it was set before, or one of the calls was a
packet that reached the program while its installed PMT named the packet's PID as PCR PID,
and carried a PCR; once set, it stays set. Some program's flag is set exactly when one at some
index is. A handler handed a packet is given its program's flag with that packet counted, the
flag the program keeps. While no PAT is known, packets off PID `0` change no program and reach
no handler. At the end of a run of a media segment that reached the streaming phase cleanly,
with no program's flag set, no PCR is reported as the first error, and among the errors the
end of the run adds a missing PCR is reported exactly in that case. -/
theorem pcr_sighting_exact :
    (∀ (s : Stream) (d : Diagnostics) (cs : List Stream.Call) (i : Nat),
      ((s.calls d cs).1.sawPcrAt i = true ↔
        s.sawPcrAt i = true ∨ ∃ pre c post, cs = pre ++ c :: post ∧
          (s.calls d pre).1.sights (s.calls d pre).2 i c = true) ∧
      ∀ cs', (s.calls d cs).1.sawPcrAt i = true → (s.calls d (cs ++ cs')).1.sawPcrAt i = true) ∧
    (∀ s : Stream, s.sawPcr = true ↔ ∃ i, s.sawPcrAt i = true) ∧
    (∀ (p : Program) (d : Diagnostics) (pkt : TsPacket) (es : EsInfo) (h : AvcHandler),
      pkt.pid ≠ p.pid → p.pidEntry pkt.pid = some ⟨es, some h⟩ →
      let b := p.sawPcr || p.carriesPcr pkt
      (p.readPacket d pkt).state.sawPcr = b ∧
      p.readPacket d pkt =
        ⟨{ p with
            sawPcr := b
            pids := setHandler pkt.pid (some (h.processTsPacket d b pkt).state) p.pids },
          (h.processTsPacket d b pkt).diagnostics, (h.processTsPacket d b pkt).result⟩) ∧
    (∀ (s : Stream) (d : Diagnostics) (pkts : List TsPacket), s.pat = none →
      (∀ pkt ∈ pkts, pkt.pid ≠ patPid) → s.calls d (pkts.map .readPacket) = (s, d)) ∧
    ∀ v : Validator, v.segmentType.isMedia = true →
      ((v.phase = .streaming ∧ v.diagnostics.isClean = true ∧ v.stream.sawPcr = false) →
        ∃ rest, v.finish.diagnostics.errors = Error.noPcrInSegment.toIssue :: rest) ∧
      (Error.noPcrInSegment.toIssue ∈ v.finish.diagnostics.errors.drop v.diagnostics.errors.length ↔
        v.phase = .streaming ∧ v.diagnostics.isClean = true ∧ v.stream.sawPcr = false) := by
  refine ⟨fun s d cs i => ⟨Stream.sawPcrAt_calls i s d cs, fun cs' h =>
      Stream.sawPcrAt_calls_append h cs'⟩, Stream.sawPcr_iff,
    fun p d pkt es h hpid he => ⟨p.sawPcr_readPacket d pkt, p.readPacket_of_handler hpid he d⟩,
    fun s d pkts hs hpids => Stream.calls_without_pat hs d pkts hpids, fun v hm => ⟨?_, ?_⟩⟩
  · rintro ⟨hph, hc, hs⟩
    exact Validator.finish_noPcr hm hph hc hs
  · exact Validator.noPcr_mem_finish_iff hm

-- a PCR on program 1's PCR PID counts only once its PMT is installed
example :
    let pcr : TsPacket :=
      { header := { pid := 0x100, adaptationControl := 2 }
        adaptationField := some { length := 183, pcr := some ⟨0, 0⟩ } }
    (oneProgramStream.calls {} [.readPacket pcr, .readPacket oneAvcPmtPacket]).1.sawPcrAt 0 =
        false ∧
      (oneProgramStream.calls {} [.readPacket oneAvcPmtPacket, .readPacket pcr]).1.sawPcrAt 0 =
        true := by
  decide +kernel

end MpegTs
