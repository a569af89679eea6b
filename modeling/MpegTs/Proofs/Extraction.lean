import MpegTs.Proofs.UnwatchedPids
import MpegTs.Proofs.Reassembly
import MpegTs.Proofs.SapOrder
import MpegTs.Segment.Verdict

/-!
# Extraction of the AVC elementary streams

A validator given an extractor opens a sink for each AVC handler, and the handler copies out
the payload of each PES packet its assembler completes: `processPes` copies before it checks,
and `finish` copies a last unbounded PES whether or not it checks it. A sink that refuses a
write is an I/O error, so what is copied depends on the sinks; for an extractor whose sinks
open and take every write (`Extractor.Opens`), such as the in-memory one that extraction on
gives, this file shows that the copy of each PID is exactly what the assembler of that PID
completes over the packets routed to it since the PMT was installed, and then at its finish
(`Validator.extractions_of_run`).

What carries it is an invariant of the handler table (`Tabled`): each handler sits on the first
entry of its PID, which is the entry the demultiplexer hands packets to, and its state is
the assembler run over the packets it was handed, its sink one that takes every write
(`HandlerRan`). The assembler's state and
outcome do not depend on the diagnostics it records into (`PesAssembler.push_diagnostics`), so
that run is a function of the packets alone.

The copy is not one PES payload per PES packet: a scrambled packet, or a PES packet whose
stream ID has no optional header, disables the assembler with a warning, and nothing after
it is completed (`extraction_after_scrambled`).

## Main statements

* `PesAssembler.pushAll_diagnostics`: reassembly does not read the diagnostics.
* `AvcHandler.processTsPacket_ok`, `AvcHandler.finish_extracted`: what one handler copies.
* `Validator.extracts_feedAll`: the run lemma over the streaming phase.
* `Validator.Extracts.finish_extractions`: what such a validator copies out at its finish.
* `Validator.extractions_of_run`: the copy of every AVC stream of a run.
-/

namespace MpegTs

/-! ## Reassembly does not read the diagnostics -/

namespace PesAssembler

/-- Opening a PES packet passes the diagnostics through: its state and outcome do not depend
on them. -/
theorem start_diagnostics (a : PesAssembler) (d d' : Diagnostics) (pusi : Bool)
    (x : List UInt8) (done : List CompletedPes) :
    (a.start d pusi x done).state = (a.start d' pusi x done).state ∧
      (a.start d pusi x done).result = (a.start d' pusi x done).result := by
  unfold start
  split
  · exact ⟨rfl, rfl⟩
  split
  · exact ⟨rfl, rfl⟩
  -- scrambled, or no optional header: the assembler is disabled either way
  split
  · exact ⟨rfl, rfl⟩
  split
  · exact ⟨rfl, rfl⟩
  -- the PTS checks
  split
  · exact ⟨rfl, rfl⟩
  split
  · exact ⟨rfl, rfl⟩
  -- unbounded, then bounded with its declared length read or not
  split
  · exact ⟨rfl, rfl⟩
  split
  · exact ⟨rfl, rfl⟩
  · exact ⟨rfl, rfl⟩

theorem push_diagnostics (a : PesAssembler) (d d' : Diagnostics) (p : TsPacket) :
    (a.push d p).state = (a.push d' p).state ∧ (a.push d p).result = (a.push d' p).result := by
  unfold push
  split
  · exact ⟨rfl, rfl⟩
  split
  · exact ⟨rfl, rfl⟩
  split
  · exact ⟨rfl, rfl⟩
  · exact ⟨rfl, rfl⟩
  dsimp only
  split
  · exact start_diagnostics _ d d' _ _ _
  · split
    · exact ⟨rfl, rfl⟩
    · exact ⟨rfl, rfl⟩
  · exact ⟨rfl, rfl⟩

/-- A run of pushes does not read the diagnostics. -/
theorem pushAll_diagnostics (d d' : Diagnostics) :
    ∀ (ps : List TsPacket) (a : PesAssembler),
      (pushAll a d ps).state = (pushAll a d' ps).state ∧
        (pushAll a d ps).result = (pushAll a d' ps).result
  | [], _ => ⟨rfl, rfl⟩
  | p :: ps, a => by
    obtain ⟨hstate, hresult⟩ := push_diagnostics a d d' p
    simp only [pushAll]
    rw [hresult]
    split
    · exact ⟨hstate, rfl⟩
    · rw [hstate]
      obtain ⟨hs, hr⟩ := pushAll_diagnostics (a.push d p).diagnostics (a.push d' p).diagnostics
        ps (a.push d' p).state
      exact ⟨hs, by rw [hr]⟩

/-- What finish hands back does not depend on the diagnostics: an unfinished bounded PES is an
error or dropped, and neither hands anything back. -/
theorem finishedPes_finish (a : PesAssembler) (d d' : Diagnostics) :
    finishedPes (a.finish d).result = finishedPes (a.finish d').result := by
  unfold finish
  split
  · rfl
  split
  · rfl
  · rfl
  · dsimp only
    split <;> split <;> rfl

/-- A run of pushes that got through, then one more push. -/
theorem pushAll_snoc (p : TsPacket) :
    ∀ {ps : List TsPacket} {a a₁ : PesAssembler} {d d₁ : Diagnostics} {out : List CompletedPes},
      pushAll a d ps = ⟨a₁, d₁, .ok out⟩ →
      pushAll a d (ps ++ [p]) =
        ⟨(a₁.push d₁ p).state, (a₁.push d₁ p).diagnostics, (a₁.push d₁ p).result.map (out ++ ·)⟩
  | [], a, a₁, d, d₁, out, h => by
    simp only [pushAll, Stepped.mk.injEq, Except.ok.injEq] at h
    obtain ⟨rfl, rfl, rfl⟩ := h
    simp only [List.nil_append, pushAll]
    cases (a.push d p).result <;> simp [Except.map]
  | q :: ps, a, a₁, d, d₁, out, h => by
    obtain ⟨a₂, d₂, done, out', hpush, hrest, rfl⟩ := pushAll_cons_ok h
    simp only [List.cons_append, pushAll, hpush]
    rw [pushAll_snoc p hrest]
    cases (a₁.push d₁ p).result <;> simp [Except.map]

end PesAssembler

/-- The PES payloads the assembler of a PID completes over a run of packets, then at its
finish; nothing if a push fails. -/
def PesAssembler.completedOver (pid : Nat) (ps : List TsPacket) : List CompletedPes :=
  match PesAssembler.pushAll { pid } {} ps with
  | ⟨a, d, .ok out⟩ => out ++ finishedPes (a.finish d).result
  | ⟨_, _, .error _⟩ => []

/-! ## What one handler copies out -/

namespace AvcHandler

variable {h : AvcHandler}

/-- A PES payload is copied out, whatever its check finds, by a handler whose sink takes its
writes; the sink stays. -/
theorem processPes_copies (hs : h.sink.Accepts) (pes : CompletedPes) (s : Bool) :
    (h.processPes pes s).1.assembler = h.assembler ∧ (h.processPes pes s).1.sink = h.sink ∧
      (h.processPes pes s).1.extracted = h.extracted.map (· ++ pes.data) := by
  rw [processPes_fst, extract_of_accepts hs]
  exact processNals_keeps s _ (h.appendCopy pes.data)

/-- PES payloads that all pass their checks are copied out in order. -/
theorem processAll_copies (s : Bool) :
    ∀ (pess : List CompletedPes) (h : AvcHandler), h.sink.Accepts →
      (h.processAll s pess).2 = .ok () →
      (h.processAll s pess).1.assembler = h.assembler ∧ (h.processAll s pess).1.sink = h.sink ∧
        (h.processAll s pess).1.extracted = h.extracted.map (· ++ pess.flatMap (·.data))
  | [], h, _, _ => ⟨rfl, rfl, by simp [processAll]⟩
  | pes :: rest, h, hs, hr => by
    obtain ⟨hasm, hsink, hext⟩ := processPes_copies hs pes s
    unfold processAll at hr ⊢
    cases hp : h.processPes pes s with
    | mk h₁ r =>
      rw [hp] at hr hasm hsink hext
      cases r with
      | error e => cases hr
      | ok u =>
        obtain ⟨hasm', hsink', hext'⟩ := processAll_copies s rest h₁ (hsink ▸ hs) hr
        refine ⟨hasm'.trans hasm, hsink'.trans hsink, ?_⟩
        rw [hext', hext, Option.map_map]
        simp [Function.comp_def]

/-- A transport packet the handler takes without a fault: its assembler takes one push, and
every PES payload that push completed is copied out, in order, to the same sink. -/
theorem processTsPacket_ok {d : Diagnostics} {b : Bool} {pkt : TsPacket} (hs : h.sink.Accepts)
    (hr : (h.processTsPacket d b pkt).result = .ok ()) :
    ∃ done, (h.assembler.push d pkt).result = .ok done ∧
      (h.processTsPacket d b pkt).state.assembler = (h.assembler.push d pkt).state ∧
      (h.processTsPacket d b pkt).state.sink = h.sink ∧
      (h.processTsPacket d b pkt).state.extracted = h.extracted.map (· ++ done.flatMap (·.data)) := by
  unfold processTsPacket at hr ⊢
  dsimp only at hr ⊢
  split at hr
  · cases hr
  rename_i done hdone
  rw [hdone]
  exact ⟨done, rfl, processAll_copies b done _ hs hr⟩

/-- The last PES payload is copied out whether it is checked or not. -/
theorem endLast_extracted (hs : h.sink.Accepts) (clean : Bool) (pes : CompletedPes) :
    (h.endLast clean pes).1.extracted = h.extracted.map (· ++ pes.data) := by
  unfold endLast
  split
  · exact (processPes_copies hs pes _).2.2
  · rw [extract_of_accepts hs]
    rfl

/-- Ending the stream copies out the PES payload the assembler hands back, if any: whatever
its check finds, and whether or not an error was recorded before. -/
theorem finish_extracted (hs : h.sink.Accepts) (d : Diagnostics) :
    (h.finish d).state.extracted =
      h.extracted.map
        (· ++ (PesAssembler.finishedPes (h.assembler.finish d).result).flatMap (·.data)) := by
  dsimp only [finish, endStream]
  split
  · rename_i e he
    simp [he, PesAssembler.finishedPes]
  · rename_i hnone
    simp [hnone, PesAssembler.finishedPes]
  · rename_i pes hpes
    rw [hpes, endLast_extracted (h := { h with assembler := (h.assembler.finish d).state }) hs]
    simp [PesAssembler.finishedPes]

end AvcHandler

/-! ## The handler table -/

/-- An entry of a table after a handler is replaced: one it had, or the replaced entry of
`q`. -/
theorem mem_setHandler {q : Nat} {h : Option AvcHandler} {e : PidEntry} :
    ∀ {es : List PidEntry}, e ∈ setHandler q h es → e ∈ es ∨ (e.es.pid = q ∧ e.handler = h)
  | [], he => by cases he
  | e₀ :: es, he => by
    unfold setHandler at he
    split at he
    · rename_i h₀
      rcases List.mem_cons.1 he with rfl | he
      · exact Or.inr ⟨h₀, rfl⟩
      · exact Or.inl (List.mem_cons_of_mem _ he)
    · rcases List.mem_cons.1 he with rfl | he
      · exact Or.inl List.mem_cons_self
      · rcases mem_setHandler he with he | he
        · exact Or.inl (List.mem_cons_of_mem _ he)
        · exact Or.inr he

/-- A handler table in which every handler meets `S` for its PID, and only the first entry of a
PID, the one packets of the PID are handed to, may have a handler. -/
def Tabled (S : Nat → AvcHandler → Prop) : List PidEntry → Prop
  | [] => True
  | e :: es => (∀ h, e.handler = some h → S e.es.pid h) ∧
      (∀ e' ∈ es, e'.es.pid = e.es.pid → e'.handler = none) ∧ Tabled S es

namespace Tabled

variable {S S' : Nat → AvcHandler → Prop}

theorem of_none : ∀ {es : List PidEntry}, (∀ e ∈ es, e.handler = none) → Tabled S es
  | [], _ => trivial
  | e :: es, h =>
    ⟨fun _ he => (by rw [h e List.mem_cons_self] at he; cases he),
      fun e' he' _ => h e' (List.mem_cons_of_mem _ he'),
      of_none fun e' he' => h e' (List.mem_cons_of_mem _ he')⟩

/-- Every handler of the table meets `S` for its PID. -/
theorem handler : ∀ {es : List PidEntry}, Tabled S es → ∀ e ∈ es, ∀ h, e.handler = some h →
    S e.es.pid h
  | [], _, _, he, _, _ => by cases he
  | _ :: _, ⟨hhead, _, htail⟩, e, he, h, hh => by
    rcases List.mem_cons.1 he with rfl | he
    · exact hhead h hh
    · exact handler htail e he h hh

theorem mono : ∀ {es : List PidEntry}, Tabled S es →
    (∀ e ∈ es, ∀ h, e.handler = some h → S e.es.pid h → S' e.es.pid h) → Tabled S' es
  | [], _, _ => trivial
  | e :: _, ⟨hhead, hlater, htail⟩, hS =>
    ⟨fun h hh => hS e List.mem_cons_self h hh (hhead h hh), hlater,
      mono htail fun e' he' => hS e' (List.mem_cons_of_mem _ he')⟩

/-- A PID whose first entry has no handler has no handler anywhere in the table. -/
theorem pid_ne {q : Nat} : ∀ {es : List PidEntry}, Tabled S es →
    ((es.find? (·.es.pid == q)).bind (·.handler)) = none →
    ∀ e ∈ es, ∀ h, e.handler = some h → e.es.pid ≠ q
  | [], _, _, _, he, _, _ => by cases he
  | e₀ :: es, ⟨_, hlater, htail⟩, hq, e, he, h, hh => by
    by_cases h₀ : e₀.es.pid = q
    · -- the first entry of `q` is `e₀`, which has no handler, and none after it has one
      rw [find?_pid_cons_of_eq h₀, Option.bind_some] at hq
      rintro rfl
      rcases List.mem_cons.1 he with rfl | he
      · rw [hq] at hh
        cases hh
      · rw [hlater e he h₀.symm] at hh
        cases hh
    · rw [find?_pid_cons_of_ne h₀] at hq
      rcases List.mem_cons.1 he with rfl | he
      · exact h₀
      · exact pid_ne htail hq e he h hh

/-- The handler of the first entry of a PID meets `S` for that PID. -/
theorem find? {q : Nat} {es : List PidEntry} (ht : Tabled S es) {e : PidEntry}
    (hfind : es.find? (·.es.pid == q) = some e) {h : AvcHandler} (hh : e.handler = some h) :
    S q h := by
  have hpid : e.es.pid = q := by simpa using List.find?_some hfind
  rw [← hpid]
  exact ht.handler e (List.mem_of_find?_eq_some hfind) h hh

/-- Replacing the handler of the first entry of `q` by one that meets `S'`. -/
theorem setHandler {q : Nat} {h' : AvcHandler} (hnew : S' q h') :
    ∀ {es : List PidEntry}, Tabled S es →
      (∀ e ∈ es, ∀ h, e.handler = some h → e.es.pid ≠ q → S e.es.pid h → S' e.es.pid h) →
      Tabled S' (MpegTs.setHandler q (some h') es)
  | [], _, _ => trivial
  | e :: es, ⟨hhead, hlater, htail⟩, hS => by
    have hS' : ∀ e' ∈ es, ∀ h, e'.handler = some h → e'.es.pid ≠ q → S e'.es.pid h →
        S' e'.es.pid h := fun e' he' => hS e' (List.mem_cons_of_mem _ he')
    unfold MpegTs.setHandler
    split
    · -- `e` is the first entry of `q`: it takes the new handler, and none after it has one
      rename_i he
      refine ⟨fun h hh => ?_, hlater, htail.mono fun e' he' h hh hs => ?_⟩
      · cases hh
        rw [he]
        exact hnew
      · exact hS' e' he' h hh (fun hq => by rw [hlater e' he' (hq.trans he.symm)] at hh; cases hh) hs
    · rename_i he
      refine ⟨fun h hh => hS e List.mem_cons_self h hh he (hhead h hh), fun e' he' hpid => ?_,
        setHandler hnew htail hS'⟩
      -- an entry of the rest is one it had, or the replaced entry of `q`
      rcases mem_setHandler he' with he' | ⟨hq, -⟩
      · exact hlater e' he' hpid
      · exact absurd (hpid.symm.trans hq) he

/-- A handler on a new last entry of a PID the table does not have. -/
theorem append {i : EsInfo} {h : AvcHandler} (hS : S i.pid h) :
    ∀ {es : List PidEntry}, Tabled S es → es.find? (·.es.pid == i.pid) = none →
      Tabled S (es ++ [⟨i, some h⟩])
  | [], _, _ => ⟨fun h' hh => (by cases hh; exact hS), fun _ he _ => (by cases he), trivial⟩
  | e :: es, ⟨hhead, hlater, htail⟩, hnone => by
    have hne : e.es.pid ≠ i.pid := fun heq => by
      rw [find?_pid_cons_of_eq heq] at hnone
      cases hnone
    rw [find?_pid_cons_of_ne hne] at hnone
    refine ⟨hhead, fun e' he' hpid => ?_, append hS htail hnone⟩
    rcases List.mem_append.1 he' with he' | he'
    · exact hlater e' he' hpid
    · rw [List.mem_singleton.1 he'] at hpid
      exact absurd hpid.symm hne

/-- Registering a handler that meets `S` for its PID keeps the table. -/
theorem register {p p' : Program} {q : Nat} {h : AvcHandler} (ht : Tabled S p.pids) (hS : S q h)
    (hr : p.register q h = .ok p') : Tabled S p'.pids := by
  unfold Program.register at hr
  split at hr
  · cases hr
  rename_i es hes
  have hpid : es.pid = q := by
    obtain ⟨pmt, -, hfind⟩ := Option.bind_eq_some_iff.1 hes
    simpa using List.find?_some hfind
  split at hr
  · cases hr
    exact ht.setHandler hS fun _ _ _ _ _ h => h
  · rename_i hentry
    cases hr
    have hnone : p.pids.find? (·.es.pid == es.pid) = none := by
      simpa [Program.pidEntry, hpid] using hentry
    rw [← hpid] at hS
    exact ht.append hS hnone

/-- Attaching handlers that meet `S` for their PIDs keeps the table, whatever the outcome. -/
theorem installHandlers (t : SegmentType) (x : Option Extractor)
    (hnew : ∀ {q h}, openHandler t x q = .ok h → S q h)
    (streams : List EsInfo) (d : Diagnostics) (p : Program) (ht : Tabled S p.pids) :
    Tabled S (MpegTs.installHandlers t x d p streams).1.pids :=
  installHandlers_invariant (fun p => Tabled S p.pids) (fun hopen hreg ht => ht.register (hnew hopen) hreg)
    d p streams ht

end Tabled

/-- What ending the handlers does to an entry: the stream stays, and a handler is replaced by
its finished state. -/
def Finished (e e' : PidEntry) : Prop :=
  e'.es = e.es ∧ (e.handler = none → e'.handler = none) ∧
    ∀ h, e.handler = some h → ∃ d, e'.handler = some (h.finish d).state

theorem finishEntries_cons (d : Diagnostics) (e : PidEntry) (es : List PidEntry) :
    ∃ e', Finished e e' ∧ ∃ d', (Program.finishEntries d (e :: es)).1 =
      e' :: (Program.finishEntries d' es).1 := by
  cases hh : e.handler with
  | none =>
    refine ⟨e, ⟨rfl, fun _ => hh, fun h hs => ?_⟩, d, ?_⟩
    · rw [hh] at hs
      cases hs
    · simp [Program.finishEntries, hh]
  | some h =>
    refine ⟨{ e with handler := some (h.finish d).state }, ⟨rfl, fun hs => ?_, fun h' hs => ?_⟩, ?_⟩
    · rw [hh] at hs
      cases hs
    · rw [hh] at hs
      cases hs
      exact ⟨d, rfl⟩
    · simp only [Program.finishEntries, hh]
      exact ⟨_, rfl⟩

theorem mem_finishEntries {e' : PidEntry} :
    ∀ {es : List PidEntry} {d : Diagnostics}, e' ∈ (Program.finishEntries d es).1 →
      ∃ e ∈ es, Finished e e'
  | [], _, he' => by simp [Program.finishEntries] at he'
  | e :: es, d, he' => by
    obtain ⟨e₁, hfin, d₁, heq⟩ := finishEntries_cons d e es
    rw [heq] at he'
    rcases List.mem_cons.1 he' with rfl | he'
    · exact ⟨e, List.mem_cons_self, hfin⟩
    · obtain ⟨e₀, he₀, hfin₀⟩ := mem_finishEntries he'
      exact ⟨e₀, List.mem_cons_of_mem _ he₀, hfin₀⟩

theorem exists_finishEntries {e : PidEntry} :
    ∀ {es : List PidEntry} (d : Diagnostics), e ∈ es →
      ∃ e' ∈ (Program.finishEntries d es).1, Finished e e'
  | e₀ :: es, d, he => by
    obtain ⟨e₁, hfin, d₁, heq⟩ := finishEntries_cons d e₀ es
    rw [heq]
    rcases List.mem_cons.1 he with rfl | he
    · exact ⟨e₁, List.mem_cons_self, hfin⟩
    · obtain ⟨e', he', hfin'⟩ := exists_finishEntries d₁ he
      exact ⟨e', List.mem_cons_of_mem _ he', hfin'⟩

/-- Ending the handlers of a table takes each handler that meets `S` to one that meets `S'`. -/
theorem Tabled.finishEntries {S S' : Nat → AvcHandler → Prop}
    (hfin : ∀ q h d, S q h → S' q (h.finish d).state) :
    ∀ (es : List PidEntry) (d : Diagnostics), Tabled S es →
      Tabled S' (Program.finishEntries d es).1
  | [], _, _ => by simp [Program.finishEntries, Tabled]
  | e :: es, d, ⟨hhead, hlater, htail⟩ => by
    obtain ⟨e', ⟨hes, hnone, hsome⟩, d', heq⟩ := finishEntries_cons d e es
    rw [heq]
    refine ⟨fun h' hh' => ?_, fun e'' he'' hpid => ?_, Tabled.finishEntries hfin es d' htail⟩
    · cases hh : e.handler with
      | none =>
        rw [hnone hh] at hh'
        cases hh'
      | some h =>
        obtain ⟨d₁, hd₁⟩ := hsome h hh
        rw [hd₁] at hh'
        cases hh'
        rw [hes]
        exact hfin _ h d₁ (hhead h hh)
    · -- a later entry of the same PID came from one that had no handler
      obtain ⟨e₁, he₁, hes₁, hnone₁, -⟩ := mem_finishEntries he''
      apply hnone₁
      apply hlater e₁ he₁
      rw [← hes₁, hpid, hes]

/-! ## Handlers that have been handed their packets -/

/-- The transport packets among `ds` that a streaming validator, whose program has its PMT on
`pmtPid`, hands to the handler of PID `q`: those that decode on `q`, when `q` is not a table
PID below `0x10`, not the null PID and not the PMT PID. -/
def routedTo (pmtPid q : Nat) (ds : List (List UInt8)) : List TsPacket :=
  ds.filterMap fun data =>
    match TsPacket.parse data with
    | .ok pkt => if pkt.pid = q ∧ 0x10 ≤ q ∧ q ≠ nullPid ∧ q ≠ pmtPid then some pkt else none
    | .error _ => none

theorem routedTo_snoc {data : List UInt8} {pkt : TsPacket} (hdata : TsPacket.parse data = .ok pkt)
    (pmtPid q : Nat) (ds : List (List UInt8)) :
    routedTo pmtPid q (ds ++ [data]) = routedTo pmtPid q ds ++
      if pkt.pid = q ∧ 0x10 ≤ q ∧ q ≠ nullPid ∧ q ≠ pmtPid then [pkt] else [] := by
  by_cases hc : pkt.pid = q ∧ 0x10 ≤ q ∧ q ≠ nullPid ∧ q ≠ pmtPid
  · simp only [routedTo, List.filterMap_append, List.filterMap_cons, List.filterMap_nil, hdata,
      if_pos hc]
  · simp only [routedTo, List.filterMap_append, List.filterMap_cons, List.filterMap_nil, hdata,
      if_neg hc]

/-- A packet not handed to the handler of `q` leaves what it was handed. -/
theorem routedTo_snoc_of_not {data : List UInt8} {pkt : TsPacket}
    (hdata : TsPacket.parse data = .ok pkt) {pmtPid q : Nat}
    (hnot : ¬(pkt.pid = q ∧ 0x10 ≤ q ∧ q ≠ nullPid ∧ q ≠ pmtPid)) (ds : List (List UInt8)) :
    routedTo pmtPid q (ds ++ [data]) = routedTo pmtPid q ds := by
  rw [routedTo_snoc hdata, if_neg hnot, List.append_nil]

/-- A handler of PID `q`, copying to a sink that takes every write, that has been handed the
packets `ps`: its assembler is the assembler of `q` after pushing them, none failing, and it
has copied out what those pushes completed. -/
def HandlerRan (q : Nat) (ps : List TsPacket) (h : AvcHandler) : Prop :=
  h.sink.Accepts ∧ ∃ out, (PesAssembler.pushAll { pid := q } {} ps).result = .ok out ∧
    h.assembler = (PesAssembler.pushAll { pid := q } {} ps).state ∧
    h.extracted = some (out.flatMap (·.data))

namespace HandlerRan

/-- A handler opened for `q` by an extractor whose sinks open and take every write. -/
theorem opened {x : Extractor} (hx : x.Opens) {t : SegmentType} {q : Nat} {h : AvcHandler}
    (hh : openHandler t (some x) q = .ok h) : HandlerRan q [] h := by
  rcases openHandler_ok hh with ⟨hnone, -⟩ | ⟨x', s, hsome, hs, rfl⟩
  · cases hnone
  · cases hsome
    obtain ⟨s', hs', hacc⟩ := hx q
    rw [hs] at hs'
    cases hs'
    exact ⟨hacc, [], rfl, rfl, rfl⟩

/-- The handler step: one more packet handed over without a fault. -/
theorem processTsPacket {q : Nat} {ps : List TsPacket} {h : AvcHandler} (hr : HandlerRan q ps h)
    {d : Diagnostics} {b : Bool} {pkt : TsPacket} (hok : (h.processTsPacket d b pkt).result = .ok ()) :
    HandlerRan q (ps ++ [pkt]) (h.processTsPacket d b pkt).state := by
  obtain ⟨hs, out, hout, hasm, hext⟩ := hr
  obtain ⟨done, hdone, hasm', hsink', hext'⟩ := AvcHandler.processTsPacket_ok hs hok
  cases hrun : PesAssembler.pushAll { pid := q } {} ps with
  | mk a₁ d₁ r =>
    rw [hrun] at hout hasm
    cases hout
    -- the run's own diagnostics and the validator's give the same push
    obtain ⟨hstate, hresult⟩ := PesAssembler.push_diagnostics a₁ d₁ d pkt
    rw [hasm] at hdone hasm'
    refine ⟨hsink' ▸ hs, out ++ done, ?_, ?_, ?_⟩
    · rw [PesAssembler.pushAll_snoc pkt hrun, hresult, hdone]
      rfl
    · rw [PesAssembler.pushAll_snoc pkt hrun, hasm', hstate]
    · rw [hext', hext]
      simp

/-- At its finish, a handler has copied out what the assembler of its PID completes over the
packets it was handed. -/
theorem finish {q : Nat} {ps : List TsPacket} {h : AvcHandler} (hr : HandlerRan q ps h)
    (d : Diagnostics) :
    (h.finish d).state.extracted = some ((PesAssembler.completedOver q ps).flatMap (·.data)) := by
  obtain ⟨hs, out, hout, hasm, hext⟩ := hr
  rw [AvcHandler.finish_extracted hs, hext, hasm]
  cases hrun : PesAssembler.pushAll { pid := q } {} ps with
  | mk a₁ d₁ r =>
    rw [hrun] at hout
    cases hout
    simp only [PesAssembler.completedOver, hrun, Option.map_some, List.flatMap_append,
      PesAssembler.finishedPes_finish a₁ d d₁]

end HandlerRan

/-- A table whose handlers are not handed a packet. -/
theorem Tabled.snoc_of_not {pmtPid : Nat} {fed : List (List UInt8)} {es : List PidEntry}
    (ht : Tabled (fun q => HandlerRan q (routedTo pmtPid q fed)) es) {data : List UInt8}
    {pkt : TsPacket} (hdata : TsPacket.parse data = .ok pkt)
    (hnot : ∀ e ∈ es, ∀ h, e.handler = some h →
      ¬(pkt.pid = e.es.pid ∧ 0x10 ≤ e.es.pid ∧ e.es.pid ≠ nullPid ∧ e.es.pid ≠ pmtPid)) :
    Tabled (fun q => HandlerRan q (routedTo pmtPid q (fed ++ [data]))) es :=
  ht.mono fun e he h hh hr => by
    rw [routedTo_snoc_of_not hdata (hnot e he h hh)]
    exact hr

/-! ## The streaming phase -/

namespace Program

variable {p : Program}

theorem notePcr_pids (pkt : TsPacket) : (p.notePcr pkt).pids = p.pids := by
  unfold notePcr
  split <;> rfl

/-- Once the PMT is installed, a PMT packet leaves the handler table alone. -/
theorem readPmt_pids (hpmt : p.pmt.isSome = true) (d : Diagnostics) (pkt : TsPacket) :
    (p.readPmt d pkt).state.pids = p.pids := by
  unfold readPmt
  split
  · rfl
  split
  · rfl
  split
  · rfl
  split
  · rfl
  split
  · split <;> rfl
  · rename_i hnone
    rw [hnone] at hpmt
    cases hpmt

/-- Before its PMT, a program reads a PMT packet into a table without handlers. -/
theorem readPmt_new_handlers (n pid : Nat) (d : Diagnostics) (pkt : TsPacket) :
    ∀ e ∈ ((Program.new n pid).readPmt d pkt).state.pids, e.handler = none := by
  unfold readPmt
  split
  · simp [Program.new]
  split
  · simp [Program.new]
  split
  · simp [Program.new]
  split
  · simp [Program.new]
  split
  · split <;> simp [Program.new]
  · intro e he
    obtain ⟨es, -, rfl⟩ := List.mem_map.1 he
    rfl

/-- A program that streams and copies its AVC streams: its PMT, on `pmtPid`, is installed,
and each of its handlers has been handed the packets of `fed` routed to it. -/
structure Extracts (pmtPid : Nat) (fed : List (List UInt8)) (p : Program) : Prop where
  pid : p.pid = pmtPid
  pmt : p.pmt.isSome = true
  table : Tabled (fun q => HandlerRan q (routedTo pmtPid q fed)) p.pids

/-- The program step while streaming, for a packet on a PID the validator demultiplexes: the
handler of its PID, if any, takes it, and no other handler is handed anything. -/
theorem Extracts.readPacket {pmtPid : Nat} {fed : List (List UInt8)} (hx : p.Extracts pmtPid fed)
    {data : List UInt8} {pkt : TsPacket} (hdata : TsPacket.parse data = .ok pkt)
    (hlow : 0x10 ≤ pkt.pid) (hnull : pkt.pid ≠ nullPid) {d : Diagnostics}
    (hok : (p.readPacket d pkt).result = .ok ()) :
    (p.readPacket d pkt).state.Extracts pmtPid (fed ++ [data]) := by
  have hnote := keeps_notePcr (p := p) pkt
  have ht : Tabled (fun q => HandlerRan q (routedTo pmtPid q fed)) (p.notePcr pkt).pids := by
    rw [notePcr_pids]
    exact hx.table
  have hpid : (p.notePcr pkt).pid = pmtPid := hnote.pid.trans hx.pid
  have hpmt : (p.notePcr pkt).pmt.isSome = true := by
    rw [hnote.pmt]
    exact hx.pmt
  revert hok
  unfold Program.readPacket
  dsimp only
  split
  · -- a packet on the PMT PID is no handler's
    rename_i hpmtPid
    intro _
    have hkeep := keeps_readPmt hpmt d pkt
    refine ⟨hkeep.pid.trans hpid, by rw [hkeep.pmt]; exact hpmt, ?_⟩
    rw [readPmt_pids hpmt]
    refine ht.snoc_of_not hdata fun e _ _ _ ⟨hq, _, _, hne⟩ => hne ?_
    rw [← hq, ← hpmtPid, hpid]
  · rename_i hne
    have hne' : pkt.pid ≠ pmtPid := fun h => hne (hpid.trans h.symm)
    unfold dispatch
    split
    · -- the handler of the packet's PID takes it
      rename_i es h hentry
      intro hok
      have hold : HandlerRan pkt.pid (routedTo pmtPid pkt.pid fed) h := ht.find? hentry rfl
      have hrouted : routedTo pmtPid pkt.pid (fed ++ [data]) =
          routedTo pmtPid pkt.pid fed ++ [pkt] := by
        rw [routedTo_snoc hdata, if_pos ⟨rfl, hlow, hnull, hne'⟩]
      refine ⟨hpid, hpmt, ht.setHandler ?_ fun e _ h' _ hq hr => ?_⟩
      · rw [hrouted]
        exact hold.processTsPacket hok
      · rw [routedTo_snoc_of_not hdata fun hc => hq hc.1.symm]
        exact hr
    · -- no handler for the packet's PID, so none anywhere in the table
      rename_i hnone
      intro _
      have hbind : ((p.notePcr pkt).pidEntry pkt.pid).bind (·.handler) = none := by
        cases he : (p.notePcr pkt).pidEntry pkt.pid with
        | none => rfl
        | some e =>
          obtain ⟨es, h⟩ := e
          cases h with
          | none => rfl
          | some h => exact absurd he (hnone es h)
      exact ⟨hpid, hpmt,
        ht.snoc_of_not hdata fun e he h hh hc => ht.pid_ne hbind e he h hh hc.1.symm⟩

end Program

/-- Routing a packet through one program is that program's step. -/
theorem readPrograms_single (d : Diagnostics) (pkt : TsPacket) (p : Program) :
    readPrograms d pkt [p] =
      ([(p.readPacket d pkt).state], (p.readPacket d pkt).diagnostics, (p.readPacket d pkt).result) := by
  unfold readPrograms
  dsimp only
  split
  · rename_i e he
    rw [he]
  · rename_i he
    rw [he]
    rfl

namespace Validator

variable {v v' : Validator} {pmtPid : Nat} {fed : List (List UInt8)}

/-- While streaming, a packet below `0x10` or on the null PID leaves the stream and the phase
alone. -/
theorem route_of_table {pkt : TsPacket} (h : pkt.pid < 0x10 ∨ pkt.pid = nullPid) :
    (v.route pkt).1.stream = v.stream ∧ (v.route pkt).1.phase = v.phase := by
  rcases v.route_cases pkt with ⟨e, -, hr⟩ | hr | ⟨pat, -, -, -, -, hr⟩ | ⟨-, -, hr⟩ |
      ⟨hlow, hnull, -⟩
  · rw [hr]
    exact ⟨rfl, rfl⟩
  · rw [hr]
    exact ⟨rfl, rfl⟩
  · rw [hr]
    exact ⟨rfl, rfl⟩
  · rw [hr]
    exact ⟨rfl, rfl⟩
  · -- a table PID is never handed to the demultiplexer
    omega

/-- While streaming, any other packet goes to the demultiplexer. -/
theorem route_of_general {pkt : TsPacket} (hlow : 0x10 ≤ pkt.pid) (hnull : pkt.pid ≠ nullPid) :
    v.route pkt = v.demux pkt := by
  dsimp only [route]
  rw [if_neg (by simp only [patPid]; omega), if_neg (by omega), if_neg (by omega)]

/-- While streaming, a packet that decodes is routed. -/
theorem process_streaming (hph : v.phase = .streaming) {data : List UInt8} {pkt : TsPacket}
    (hdata : TsPacket.parse data = .ok pkt) : v.process data = v.route pkt := by
  simp only [process, hdata, hph]

/-- A streaming validator of one program, copying its AVC streams, whose handlers have each
been handed the packets of `fed` routed to them. -/
structure Extracts (pmtPid : Nat) (fed : List (List UInt8)) (v : Validator) : Prop where
  phase : v.phase = .streaming
  pat : v.stream.pat.isSome = true
  program : ∃ p, v.stream.programs = [p] ∧ p.Extracts pmtPid fed

/-- A packet that reaches no handler. -/
theorem Extracts.of_stream (hx : v.Extracts pmtPid fed) {data : List UInt8} {pkt : TsPacket}
    (hdata : TsPacket.parse data = .ok pkt) (h : pkt.pid < 0x10 ∨ pkt.pid = nullPid)
    (hph : v'.phase = v.phase) (hs : v'.stream = v.stream) : v'.Extracts pmtPid (fed ++ [data]) := by
  obtain ⟨p, hps, hp⟩ := hx.program
  refine ⟨hph.trans hx.phase, hs ▸ hx.pat, p, hs ▸ hps, hp.pid, hp.pmt, ?_⟩
  refine hp.table.snoc_of_not hdata fun e _ _ _ ⟨hq, hlow, hnull, _⟩ => ?_
  rw [← hq] at hlow hnull
  omega

/-- The step of the streaming phase: a feed that gets through hands its packet to the handler
of its PID, if the validator demultiplexes it, and to no other. -/
theorem Extracts.feed (hx : v.Extracts pmtPid fed) {data : List UInt8}
    (hfeed : v.feed data = (v', .ok ())) : v'.Extracts pmtPid (fed ++ [data]) := by
  have hproc := feed_eq_ok.1 hfeed
  -- counting the packet changes nothing the invariant reads
  have hx₁ : Extracts pmtPid fed { v with packets := v.packets + 1 } :=
    ⟨hx.phase, hx.pat, hx.program⟩
  obtain ⟨pkt, hdata⟩ : ∃ pkt, TsPacket.parse data = .ok pkt := by
    cases hdata : TsPacket.parse data with
    | error e => simp [process, hdata] at hproc
    | ok pkt => exact ⟨pkt, rfl⟩
  rw [process_streaming hx₁.phase hdata] at hproc
  by_cases hgen : 0x10 ≤ pkt.pid ∧ pkt.pid ≠ nullPid
  · -- the demultiplexer hands the packet to the one program
    rw [route_of_general hgen.1 hgen.2] at hproc
    unfold demux Stream.readPacket at hproc
    obtain ⟨p, hps, hp⟩ := hx.program
    have hcond : ¬(v.stream.pat.isNone = true ∧ pkt.pid ≠ patPid) := by
      rintro ⟨hnone, -⟩
      have hsome := hx.pat
      rw [Option.isNone_iff_eq_none.1 hnone] at hsome
      cases hsome
    simp only [hcond, if_false, hps, readPrograms_single, Prod.mk.injEq] at hproc
    obtain ⟨rfl, hres⟩ := hproc
    exact ⟨hx.phase, hx.pat, _, rfl, hp.readPacket hdata hgen.1 hgen.2 hres⟩
  · have h : pkt.pid < 0x10 ∨ pkt.pid = nullPid := by omega
    obtain ⟨hs, hph⟩ := route_of_table (v := { v with packets := v.packets + 1 }) h
    rw [hproc] at hs hph
    exact hx₁.of_stream hdata h hph hs

/-- The run lemma of the streaming phase: feeds that all get through hand each handler the
packets routed to it. -/
theorem extracts_feedAll :
    ∀ (ds : List (List UInt8)) {v : Validator} {fed : List (List UInt8)}, v.Extracts pmtPid fed →
      (v.feedAll ds).2 = .ok () → (v.feedAll ds).1.Extracts pmtPid (fed ++ ds)
  | [], v, fed, hx, _ => by
    rw [List.append_nil]
    exact hx
  | data :: rest, v, fed, hx, hr => by
    cases hfeed : v.feed data with
    | mk v₁ r =>
      cases r with
      | error e => simp [feedAll, hfeed] at hr
      | ok u =>
        simp only [feedAll, hfeed] at hr ⊢
        have h := extracts_feedAll rest (hx.feed hfeed) hr
        rwa [List.append_assoc, List.singleton_append] at h

/-- While awaiting the PMT, the program that a packet on the PMT PID leaves has no handler. -/
theorem demux_awaitingPmt_handlers {n : Nat} (hph : v.phase = .awaitingPmt n pmtPid)
    (hst : v.Staged) {pkt : TsPacket} (hpkt : pkt.pid = pmtPid) :
    ∀ q ∈ (v.demux pkt).1.stream.programs, ∀ e ∈ q.pids, e.handler = none := by
  have hprograms : v.stream.programs = [Program.new n pmtPid] := (hst.awaitingPmt hph).2
  intro q hq e he
  rcases (Stream.readPacket_single hprograms v.diagnostics pkt).2 with hps | hps
  · change q ∈ (v.stream.readPacket v.diagnostics pkt).state.programs at hq
    rw [hps, List.mem_singleton] at hq
    subst hq
    cases he
  · change q ∈ (v.stream.readPacket v.diagnostics pkt).state.programs at hq
    rw [hps, List.mem_singleton, Program.readPacket_new n pmtPid _ hpkt] at hq
    subst hq
    exact Program.readPmt_new_handlers n pmtPid _ pkt e he

/-- Installing the awaited PMT of the one program, whose table has no handler yet, leaves the
validator streaming, every handler fresh on the first entry of its PID and copying to a sink
that takes every write. -/
theorem install_extracts {n : Nat} {q : Program} (hph : v.phase = .awaitingPmt n pmtPid)
    {x : Extractor} (hx : v.extractor = some x) (hopens : x.Opens) (hpat : v.stream.pat.isSome = true) (hps : v.stream.programs = [q])
    (hawait : q.Awaits n pmtPid) (hnone : ∀ e ∈ q.pids, e.handler = none)
    (hinst : v.install n = (v', .ok ())) (hstream : v'.phase = .streaming) :
    v'.Extracts pmtPid [] := by
  have hfind : v.stream.program? n = some q := by
    simp [Stream.program?, hps, hawait.programNumber]
  unfold install at hinst
  split at hinst
  · rename_i hnone'
    rw [hfind] at hnone'
    cases hnone'
  rename_i q' hq'
  rw [hfind] at hq'
  cases hq'
  split at hinst
  · -- no PMT yet: still awaiting it
    obtain ⟨rfl, -⟩ := Prod.mk.inj hinst
    rw [hph] at hstream
    cases hstream
  rename_i pmt hpmt
  split at hinst
  rename_i p' d' r hhandlers
  split at hinst
  · simp at hinst
  obtain ⟨rfl, -⟩ := Prod.mk.inj hinst
  obtain ⟨hkeep, -⟩ := installHandlers_ok _ _ _ hhandlers
  have hset : (v.stream.setProgram n p').programs = [p'] := by
    simp [Stream.setProgram, Stream.setProgram.go, hps, hawait.programNumber]
  refine ⟨rfl, hpat, _, hset, ⟨hkeep.pid.trans hawait.pmtPid, by rw [hkeep.pmt, hpmt]; rfl, ?_⟩⟩
  -- the fresh handlers of the PMT's AVC streams on a table that had none
  have ht := Tabled.installHandlers (S := fun q => HandlerRan q (routedTo pmtPid q []))
    v.segmentType v.extractor (fun hh => HandlerRan.opened hopens (hx ▸ hh))
    pmt.streams v.diagnostics q (Tabled.of_none hnone)
  rw [hhandlers] at ht
  exact ht

/-- The packet that installs the awaited PMT leaves the validator streaming, every handler
fresh on the first entry of its PID and copying to a sink that takes every write. -/
theorem extracts_install {n : Nat} (hst : v.Staged) {x : Extractor} (hx : v.extractor = some x)
    (hopens : x.Opens)
    (hph : v.phase = .awaitingPmt n pmtPid) {data : List UInt8}
    (hproc : v.process data = (v', .ok ())) (hstream : v'.phase = .streaming) :
    v'.Extracts pmtPid [] := by
  rcases v.process_cases data with ⟨e, -, hr⟩ |
      ⟨pkt, -, hr | ⟨hph', -, hr⟩ | ⟨n', pid', hph', hpkt, ⟨e, he, hr⟩ | ⟨-, hr⟩⟩ | ⟨hph', hr⟩⟩ <;>
    rw [hr] at hproc
  · simp at hproc
  · obtain ⟨rfl, -⟩ := Prod.mk.inj hproc
    rw [hph] at hstream
    cases hstream
  · rw [hph] at hph'
    cases hph'
  · simp [hproc] at he
  · rw [hph, Phase.awaitingPmt.injEq] at hph'
    obtain ⟨rfl, rfl⟩ := hph'
    -- the PMT packet goes to the one program, which is left without handlers
    obtain ⟨hph₂, hpat₂, -, q, hq, hawait⟩ := demux_awaitingPmt hph hst hpkt
    have hnone := demux_awaitingPmt_handlers hph hst hpkt q
      (by rw [hq]; exact List.mem_singleton_self q)
    have hpat : v.stream.pat.isSome = true := by
      obtain ⟨pat, hpat, -⟩ := (hst.awaitingPmt hph).1.pat
      rw [hpat]
      rfl
    exact install_extracts (hph₂.trans hph) hx hopens (hpat₂ ▸ hpat) hq hawait hnone hproc
      hstream
  · rw [hph] at hph'
    cases hph'

/-! The extractor is fixed when a validator is made: no step changes it. -/

theorem extractor_readPat (pkt : TsPacket) : (v.readPat pkt).1.extractor = v.extractor := by
  unfold readPat
  repeat' split
  all_goals rfl

theorem extractor_install (programNumber : Nat) :
    (v.install programNumber).1.extractor = v.extractor := by
  unfold install
  repeat' split
  all_goals rfl

theorem extractor_route (pkt : TsPacket) : (v.route pkt).1.extractor = v.extractor := by
  dsimp only [route]
  repeat' split
  all_goals rfl

theorem extractor_process (data : List UInt8) : (v.process data).1.extractor = v.extractor := by
  rcases v.process_cases data with ⟨e, -, hr⟩ |
      ⟨pkt, -, hr | ⟨-, -, hr⟩ | ⟨n, pid, -, -, ⟨e, -, hr⟩ | ⟨-, hr⟩⟩ | ⟨-, hr⟩⟩ <;>
    rw [hr]
  -- a packet that fails to decode or is let through leaves the validator, closed by the rewrite
  · exact extractor_readPat pkt
  · rfl
  · exact extractor_install _
  · exact extractor_route pkt

theorem extractor_feed (data : List UInt8) : (v.feed data).1.extractor = v.extractor := by
  rcases v.feed_cases data with ⟨e, -, hr⟩ | ⟨-, hr⟩ <;> rw [hr] <;>
    exact extractor_process (v := { v with packets := v.packets + 1 }) data

theorem extractor_feedAll (ds : List (List UInt8)) (v : Validator) :
    (v.feedAll ds).1.extractor = v.extractor :=
  feedAll_of_feed (R := fun v w => w.extractor = v.extractor) (fun _ => rfl)
    (fun h₁ h₂ => h₂.trans h₁) (fun _ data => extractor_feed data) ds v

/-- Ending a validator of one program ends the handlers of its table. -/
theorem finish_single {p : Program} (hps : v.stream.programs = [p]) :
    ∃ d, v.finish.stream.programs = [{ p with pids := (Program.finishEntries d p.pids).1 }] := by
  simp only [finish, Stream.finish, hps, finishPrograms, Program.finish]
  exact ⟨_, rfl⟩

theorem mem_extractions {pid : Nat} {x : List UInt8} :
    (pid, x) ∈ v.extractions ↔ ∃ p ∈ v.stream.programs, ∃ e ∈ p.pids, ∃ h,
      e.handler = some h ∧ h.extracted = some x ∧ e.es.pid = pid := by
  simp only [extractions, List.mem_flatMap, List.mem_filterMap, Option.bind_eq_some_iff,
    Option.map_eq_some_iff, Prod.mk.injEq]
  constructor
  · rintro ⟨p, hp, e, he, h, hh, x', hx', rfl, rfl⟩
    exact ⟨p, hp, e, he, h, hh, hx', rfl⟩
  · rintro ⟨p, hp, e, he, h, hh, hx', rfl⟩
    exact ⟨p, hp, e, he, h, hh, x, hx', rfl, rfl⟩

/-- What a staged validator whose handlers have been handed `fed` copies out at its finish: a
copy for every AVC stream of its PMT, each the payloads that the assembler of the PID completes
over the packets of `fed` routed to it, and then at its finish. -/
theorem Extracts.finish_extractions (hx : v.Extracts pmtPid fed) (hst : v.Staged) :
    ∃ pmt : PmtSection, v.finish.stream.programs.map (·.pmt) = [some pmt] ∧
      (∀ es ∈ pmt.streams, es.streamType = avcStreamType →
        ∃ x, (es.pid, x) ∈ v.finish.extractions) ∧
      ∀ pid x, (pid, x) ∈ v.finish.extractions →
        x = (PesAssembler.completedOver pid (routedTo pmtPid pid fed)).flatMap (·.data) := by
  obtain ⟨p, hps, hp⟩ := hx.program
  obtain ⟨n', pid', pmt, p', -, hps', hserves⟩ := hst.streaming hx.phase
  rw [hps, List.cons.injEq] at hps'
  obtain ⟨rfl, -⟩ := hps'
  -- the handlers once finished
  obtain ⟨d, hfin⟩ := finish_single hps
  have htable : Tabled (fun q h => h.extracted =
      some ((PesAssembler.completedOver q (routedTo pmtPid q fed)).flatMap (·.data)))
      (Program.finishEntries d p.pids).1 :=
    Tabled.finishEntries (fun _ _ d hr => hr.finish d) p.pids d hp.table
  refine ⟨pmt, by simp [hfin, hserves.installed], fun es hes havc => ?_, fun pid x hx => ?_⟩
  · -- every AVC stream has a handler on the first entry of its PID, which finish keeps
    obtain ⟨e, hfind, he⟩ := (Option.any_eq_true _ _).1 (hserves.handled es hes havc)
    obtain ⟨h, hh⟩ := Option.isSome_iff_exists.1 he
    obtain ⟨e', he', hes', -, hsome⟩ := exists_finishEntries d (List.mem_of_find?_eq_some hfind)
    obtain ⟨d', hh'⟩ := hsome h hh
    have hpid : e'.es.pid = es.pid := by
      rw [hes']
      simpa using List.find?_some hfind
    exact ⟨_, mem_extractions.2 ⟨_, by rw [hfin]; exact List.mem_singleton_self _, e', he', _,
      hh', htable.handler e' he' _ hh', hpid⟩⟩
  · obtain ⟨p₁, hp₁, e, he, h, hh, hx', rfl⟩ := mem_extractions.1 hx
    rw [hfin, List.mem_singleton] at hp₁
    subst hp₁
    have hcopy := htable.handler e he h hh
    rw [hx'] at hcopy
    exact Option.some.inj hcopy

/-- A run from a fresh validator copying through an extractor whose sinks open and take
every write, all of whose feeds get through, in which `pmtPacket` installs the PMT awaited on
`pmtPid`: at its end every handler has been handed the packets of `post` routed to it. -/
theorem extracts_of_run (t : SegmentType) {x : Extractor} (hx : x.Opens)
    (pre post : List (List UInt8)) (pmtPacket : List UInt8) {n : Nat} {w : Validator}
    (hrun : ((Validator.new t).withExtractor (some x)).feedAll (pre ++ pmtPacket :: post) =
      (w, .ok ()))
    (hpre : (((Validator.new t).withExtractor (some x)).feedAll pre).1.phase =
      .awaitingPmt n pmtPid)
    (hinst : (((Validator.new t).withExtractor (some x)).feedAll (pre ++ [pmtPacket])).1.phase =
      .streaming) :
    w.Extracts pmtPid post := by
  -- split the run at the PMT packet
  have happ := feedAll_append ((Validator.new t).withExtractor (some x)) pre (pmtPacket :: post)
  rw [hrun] at happ
  rcases hv₀ : ((Validator.new t).withExtractor (some x)).feedAll pre with ⟨v₀, _ | _⟩
  · rw [hv₀] at happ
    cases happ
  rw [hv₀] at happ hpre
  have hst₀ : v₀.Staged := by
    have h := staged_feedAll pre ((Validator.new t).withExtractor (some x))
      (staged_of_stream (staged_new t false) rfl rfl rfl) (by rw [hv₀])
    rw [hv₀] at h
    exact h.1
  have hx₀ : v₀.extractor = some x := by
    have h := extractor_feedAll pre ((Validator.new t).withExtractor (some x))
    rwa [hv₀] at h
  rcases hv₁ : v₀.feed pmtPacket with ⟨v₁, _ | _⟩
  · simp [feedAll, hv₁] at happ
  have hrest : v₁.feedAll post = (w, .ok ()) := by
    simp only [feedAll, hv₁] at happ
    exact happ.symm
  have hph₁ : v₁.phase = .streaming := by
    have h := feedAll_append ((Validator.new t).withExtractor (some x)) pre [pmtPacket]
    simp only [hv₀, feedAll, hv₁] at h
    rw [h] at hinst
    exact hinst
  -- the PMT packet leaves fresh handlers, and the rest of the run hands them their packets
  have hx₁ : v₁.Extracts pmtPid [] :=
    extracts_install (v := { v₀ with packets := v₀.packets + 1 }) hst₀ hx₀ hx hpre
      (feed_eq_ok.1 hv₁) hph₁
  have h := extracts_feedAll post hx₁ (by rw [hrest])
  rw [hrest, List.nil_append] at h
  exact h

end Validator

/-- Elementary stream extraction copies out exactly what reassembly completes. Take an
extractor whose sinks all open and take every write, and a run of feeds from a fresh validator
copying through it, all of which get through, in which `pre` leaves it awaiting the PMT of
program `n` on `pmtPid` and `pmtPacket` installs that PMT, and finish it. Every AVC stream of
the installed PMT has a copy, and the copy of each PID is the payloads, in order, that the
assembler of that PID completes over the packets of `post` routed to it (those on that PID,
when it is at least `0x10`, not the null PID and not the PMT PID), and then at its finish: a
last unbounded PES is included whether or not errors were recorded, and an unfinished bounded
one adds nothing. -/
theorem Validator.extractions_of_run (t : SegmentType) (x : Extractor) (hx : x.Opens)
    (pre post : List (List UInt8)) (pmtPacket : List UInt8) {n pmtPid : Nat} {w : Validator}
    (hrun : ((Validator.new t).withExtractor (some x)).feedAll (pre ++ pmtPacket :: post) =
      (w, .ok ()))
    (hpre : (((Validator.new t).withExtractor (some x)).feedAll pre).1.phase =
      .awaitingPmt n pmtPid)
    (hinst : (((Validator.new t).withExtractor (some x)).feedAll (pre ++ [pmtPacket])).1.phase =
      .streaming) :
    ∃ pmt : PmtSection, w.finish.stream.programs.map (·.pmt) = [some pmt] ∧
      (∀ es ∈ pmt.streams, es.streamType = avcStreamType →
        ∃ x, (es.pid, x) ∈ w.finish.extractions) ∧
      ∀ pid x, (pid, x) ∈ w.finish.extractions →
        x = (PesAssembler.completedOver pid (routedTo pmtPid pid post)).flatMap (·.data) := by
  have hstaged : w.Staged := by
    have h := Validator.staged_feedAll _ ((Validator.new t).withExtractor (some x))
      (Validator.staged_of_stream (Validator.staged_new t false) rfl rfl rfl) (by rw [hrun])
    rw [hrun] at h
    exact h.1
  exact (Validator.extracts_of_run t hx pre post pmtPacket hrun hpre hinst).finish_extractions
    hstaged

/-- An access unit: delimiter, SPS, PPS and the start of an IDR slice. -/
def avcAccessUnit : List UInt8 :=
  [0x00, 0x00, 0x00, 0x01, 0x09, 0x70, 0x00, 0x00, 0x00, 0x01, 0x67, 0x42, 0xC0, 0x1E,
    0x00, 0x00, 0x00, 0x01, 0x68, 0xCE, 0x3C, 0x80, 0x00, 0x00, 0x00, 0x01, 0x65, 0x88, 0x80]

/-- An unbounded PES packet with a PTS on the AVC PID 0x100 of `Validator.patAndPmt`, carrying
a PCR and `avcAccessUnit`. -/
def avcPesPacket : List UInt8 :=
  [0x47, 0x41, 0x00, 0x30, 0x8C, 0x50, 0x00, 0x00, 0x00, 0x00, 0x7E, 0x00] ++
    List.replicate 133 0xFF ++
    [0x00, 0x00, 0x01, 0xE0, 0x00, 0x25, 0x84, 0x80, 0x05, 0x21, 0x00, 0x01, 0x00, 0x01] ++
    avcAccessUnit

/-- The copy of PID 0x100 after `Validator.patAndPmt` and one PES packet is the data that
reassembly completes over that packet. -/
theorem extractions_of_avcPesPacket :
    (0x100, (PesAssembler.completedOver 0x100 (routedTo 0x1000 0x100 [avcPesPacket])).flatMap
        (·.data)) ∈ ((Validator.new .general true).feedAll (Validator.patAndPmt.take 1 ++
          Validator.patAndPmt.getD 1 [] :: [avcPesPacket])).1.finish.extractions := by
  -- with extraction on, the validator copies through the in-memory extractor
  rw [Validator.new_true_eq]
  have hok : (((Validator.new .general).withExtractor (some .memory)).feedAll
      (Validator.patAndPmt.take 1 ++ Validator.patAndPmt.getD 1 [] :: [avcPesPacket])).2 =
      .ok () := by
    decide +kernel
  obtain ⟨pmt, hpmt, hcopies, hcopy⟩ := @Validator.extractions_of_run .general .memory
    Extractor.memory_opens (Validator.patAndPmt.take 1) [avcPesPacket]
    (Validator.patAndPmt.getD 1 []) 1 0x1000 _ (by rw [← hok]) (by decide +kernel)
    (by decide +kernel)
  -- the installed PMT lists an AVC stream on 0x100
  have hlisted : ((((Validator.new .general).withExtractor (some .memory)).feedAll
      (Validator.patAndPmt.take 1 ++ Validator.patAndPmt.getD 1 [] :: [avcPesPacket])).1.finish
        |>.stream.programs.map (·.pmt)).any
      (·.any fun sec => sec.streams.any fun es =>
        es.streamType == avcStreamType && es.pid == 0x100) = true := by
    decide +kernel
  rw [hpmt] at hlisted
  obtain ⟨es, hes, havc⟩ : ∃ es ∈ pmt.streams, es.streamType = avcStreamType ∧ es.pid = 0x100 := by
    simpa using hlisted
  obtain ⟨x, hx⟩ := hcopies es hes havc.1
  rw [havc.2] at hx
  rwa [hcopy _ _ hx] at hx

/-- A payload-only packet on PID 0x100 with its scrambling control set. -/
def scrambledPacket : List UInt8 := [0x47, 0x01, 0x00, 0x90] ++ List.replicate 184 0xFF

/-- After `Validator.patAndPmt`, a PES packet alone is copied out whole, but behind a scrambled
packet it is copied as nothing: the run and its finish still succeed. -/
theorem extraction_after_scrambled :
    ((Validator.new .general true).feedAll
        (Validator.patAndPmt ++ [avcPesPacket])).1.finish.extractions = [(0x100, avcAccessUnit)] ∧
      ((Validator.new .general true).feedAll
        (Validator.patAndPmt ++ [scrambledPacket, avcPesPacket])).2 = .ok () ∧
      ((Validator.new .general true).feedAll
        (Validator.patAndPmt ++ [scrambledPacket, avcPesPacket])).1.finish.extractions =
        [(0x100, [])] := by
  decide +kernel

end MpegTs
