import MpegTs.Proofs.FirstError
import MpegTs.Proofs.Extraction

/-!
# The PID table of a program

A program learns its elementary streams from its PMT. The first PMT it accepts, one that a
section starting in a packet on its PMT PID decodes to and that carries its program number,
is installed with one entry per stream and no handler. Later PMTs, whatever their version,
change neither the PMT nor the table; a changed version is remarked on, once. Registering
and unregistering a handler, and the handlers themselves, change only the handler of an
entry.

So along every run of calls on a stream, each program's table lists the streams of its
installed PMT in order, and is empty before one is installed (`Program.Mirrors`). The table
then has an entry for every PID the PMT lists, and registration never takes its branch that
appends a new entry (`Program.Mirrors.register_eq`).

The remarks of a run, the warnings with code `0`, are what the version check adds: the
handlers only record errors, and no error has code `0`. Each program raises its version flag
once at most, and adds its remark as it does (`Program.Follows`).

## Main statements

* `Program.readPmt_cases`: what reading a PMT packet can do.
* `Program.Mirrors.register_eq`: registration under the invariant.
* `Stream.ran_calls`: the run lemma.
* `pidTable_follows_first_pmt`: the statement for every run.
-/

namespace MpegTs

/-! ## Remarks -/

namespace Diagnostics

/-- The remarks among the warnings: the entries with code `0`, a code no error has. -/
def remarks (d : Diagnostics) : List Issue := d.warnings.filter (·.code == 0)

@[simp] theorem remarks_warn (d : Diagnostics) (m : String) :
    (d.warn m).remarks = d.remarks ++ [⟨0, m⟩] := by
  simp [remarks, warn]

/-- Recording an error adds no remark, wherever it files it. -/
@[simp] theorem remarks_record (d : Diagnostics) (e : Error) : (d.record e).remarks = d.remarks := by
  unfold record remarks
  split <;> simp [Error.toIssue, e.code_ne_zero]

end Diagnostics

namespace PesAssembler

theorem remarks_start (a : PesAssembler) (d : Diagnostics) (pusi : Bool) (payload : List UInt8)
    (done : List CompletedPes) : (a.start d pusi payload done).diagnostics.remarks = d.remarks := by
  dsimp only [start, disable]
  -- every branch hands `d` on as it is, or with one error recorded
  repeat' split
  all_goals simp

/-- An assembler records at most an error, so it adds no remark. -/
theorem remarks_push (a : PesAssembler) (d : Diagnostics) (p : TsPacket) :
    (a.push d p).diagnostics.remarks = d.remarks := by
  dsimp only [push, disable]
  repeat' split
  all_goals simp [remarks_start]

end PesAssembler

theorem AvcHandler.remarks_processTsPacket (h : AvcHandler) (d : Diagnostics) (b : Bool)
    (p : TsPacket) : (h.processTsPacket d b p).diagnostics.remarks = d.remarks := by
  simp only [AvcHandler.processTsPacket]
  split <;> exact h.assembler.remarks_push d p

/-! ## Entries of a PID -/

/-- Replacing the handler of a PID, with the table split at the first entry of the PID. -/
theorem setHandler_split {pid : Nat} {h : Option AvcHandler} {e : PidEntry}
    {post : List PidEntry} (he : e.es.pid = pid) :
    ∀ {pre : List PidEntry}, (∀ x ∈ pre, x.es.pid ≠ pid) →
      setHandler pid h (pre ++ e :: post) = pre ++ { e with handler := h } :: post
  | [], _ => by simp [setHandler, he]
  | x :: pre, hpre => by
    have hx : x.es.pid ≠ pid := hpre x List.mem_cons_self
    simp [setHandler, hx, setHandler_split he fun y hy => hpre y (List.mem_cons_of_mem x hy)]

namespace Program

variable {p p' : Program}

/-- The first entry of a PID, split out of the table. -/
theorem pidEntry_eq_some {pid : Nat} {e : PidEntry} (h : p.pidEntry pid = some e) :
    ∃ pre post, p.pids = pre ++ e :: post ∧ e.es.pid = pid ∧ ∀ x ∈ pre, x.es.pid ≠ pid := by
  obtain ⟨he, pre, post, hsplit, hpre⟩ := List.find?_eq_some_iff_append.1 h
  exact ⟨pre, post, hsplit, by simpa using he, fun x hx => by simpa using hpre x hx⟩

theorem pidEntry_of_split {pid : Nat} {pre : List PidEntry} {e : PidEntry}
    {post : List PidEntry} (hsplit : p.pids = pre ++ e :: post) (he : e.es.pid = pid)
    (hpre : ∀ x ∈ pre, x.es.pid ≠ pid) : p.pidEntry pid = some e := by
  rw [pidEntry, hsplit]
  exact List.find?_eq_some_iff_append.2
    ⟨by simpa using he, pre, post, rfl, fun x hx => by simpa using hpre x hx⟩

/-! ## The invariant -/

/-- The entries of a program list the streams of its installed PMT, in order, and there are
none before a PMT is installed. -/
def Mirrors (p : Program) : Prop := p.pids.map (·.es) = (p.pmt.map (·.streams)).getD []

instance : DecidablePred Mirrors := fun _ => inferInstanceAs (Decidable (_ = _))

theorem mirrors_new (n pid : Nat) : (new n pid).Mirrors := rfl

theorem Mirrors.pids_eq_nil (h : p.Mirrors) (hp : p.pmt = none) : p.pids = [] := by
  simpa [Mirrors, hp] using h

theorem Mirrors.map_es {m : PmtSection} (h : p.Mirrors) (hp : p.pmt = some m) :
    p.pids.map (·.es) = m.streams := by
  simpa [Mirrors, hp] using h

/-- The first entry of a PID holds the stream the PMT lists first for it. -/
theorem Mirrors.pidEntry_es (h : p.Mirrors) (pid : Nat) :
    (p.pidEntry pid).map (·.es) = p.pmt.bind (·.findEs pid) := by
  cases hp : p.pmt with
  | none => simp [pidEntry, h.pids_eq_nil hp]
  | some m =>
    rw [Option.bind_some, PmtSection.findEs, ← h.map_es hp, List.find?_map]
    rfl

/-- A PID has an entry exactly when the installed PMT lists it. -/
theorem Mirrors.pidEntry_isSome (h : p.Mirrors) (pid : Nat) :
    (p.pidEntry pid).isSome ↔ ∃ m, p.pmt = some m ∧ ∃ es ∈ m.streams, es.pid = pid := by
  rw [← Option.isSome_map (f := (·.es)), h.pidEntry_es pid]
  cases p.pmt with
  | none => simp
  | some m => simp [PmtSection.findEs, List.find?_isSome]

/-- Registration finds an entry for every PID the PMT lists: it replaces the handler of the
first one, and is refused for any other PID. -/
theorem Mirrors.register_eq (h : p.Mirrors) (pid : Nat) (hd : AvcHandler) :
    p.register pid hd =
      if (p.pidEntry pid).isSome then .ok { p with pids := setHandler pid (some hd) p.pids }
      else .error (.unknownPidRegistration pid p.programNumber) := by
  have hes := h.pidEntry_es pid
  unfold register
  cases he : p.pidEntry pid with
  | none =>
    rw [he, Option.map_none] at hes
    rw [← hes]
    rfl
  | some e =>
    rw [he, Option.map_some] at hes
    rw [← hes]
    simp

/-! ## What a call does to a program -/

/-- `p'` is `p` with at most its PCR flag and its handlers changed. -/
structure Rehandles (p p' : Program) : Prop where
  pid : p'.pid = p.pid
  programNumber : p'.programNumber = p.programNumber
  pmt : p'.pmt = p.pmt
  streams : p'.pids.map (·.es) = p.pids.map (·.es)
  warned : p'.warnedPmtVersion = p.warnedPmtVersion

theorem Rehandles.refl (p : Program) : Rehandles p p := ⟨rfl, rfl, rfl, rfl, rfl⟩

theorem Rehandles.mirrors (hr : Rehandles p p') (h : p.Mirrors) : p'.Mirrors := by
  unfold Mirrors
  rw [hr.streams, hr.pmt]
  exact h

theorem rehandles_setHandler (pid : Nat) (h : Option AvcHandler) :
    Rehandles p { p with pids := setHandler pid h p.pids } :=
  ⟨rfl, rfl, rfl, map_es_setHandler pid h p.pids, rfl⟩

theorem rehandles_notePcr (pkt : TsPacket) : Rehandles p (p.notePcr pkt) := by
  unfold notePcr
  split
  · exact ⟨rfl, rfl, rfl, rfl, rfl⟩
  · exact Rehandles.refl p

theorem rehandles_dispatch (d : Diagnostics) (pkt : TsPacket) :
    Rehandles p (p.dispatch d pkt).state := by
  unfold dispatch
  split
  · exact rehandles_setHandler _ _
  · exact Rehandles.refl p

/-- A packet handed to a handler adds no remark. -/
theorem remarks_dispatch (d : Diagnostics) (pkt : TsPacket) :
    (p.dispatch d pkt).diagnostics.remarks = d.remarks := by
  unfold dispatch
  split
  · exact AvcHandler.remarks_processTsPacket _ _ _ _
  · rfl

/-- The remark of a program on a PMT of another version than its installed one. -/
def VersionRemark (p : Program) (i : Issue) : Prop :=
  ∃ m new, p.pmt = some m ∧ new ≠ m.version ∧
    i = ⟨0, pmtVersionWarning m.version new p.programNumber⟩

/-- What a run leaves of a program `p`, as `p'`, and what it adds to the remarks for it, as
`r`: the PMT PID and the number stay, and so do an installed PMT and the streams of the
table; and either `r` is empty and the version flag is as it was, or the flag is raised and
`r` is the one version remark of the program. -/
structure Follows (p p' : Program) (r : List Issue) : Prop where
  pid : p'.pid = p.pid
  programNumber : p'.programNumber = p.programNumber
  installed : ∀ m, p.pmt = some m → p'.pmt = some m ∧ p'.pids.map (·.es) = p.pids.map (·.es)
  remarks : r = [] ∧ p'.warnedPmtVersion = p.warnedPmtVersion ∨
    p.warnedPmtVersion = false ∧ p'.warnedPmtVersion = true ∧ ∃ i, r = [i] ∧ p'.VersionRemark i

theorem Rehandles.follows (hr : Rehandles p p') : Follows p p' [] :=
  ⟨hr.pid, hr.programNumber, fun _ hm => ⟨hr.pmt.trans hm, hr.streams⟩, .inl ⟨rfl, hr.warned⟩⟩

theorem VersionRemark.follows {i : Issue} {r : List Issue} (hi : p.VersionRemark i)
    (hf : Follows p p' r) : p'.VersionRemark i := by
  obtain ⟨m, new, hm, hnew, rfl⟩ := hi
  exact ⟨m, new, (hf.installed m hm).1, hnew, by rw [hf.programNumber]⟩

theorem Follows.trans {p₁ p₂ p₃ : Program} {r₁ r₂ : List Issue} (h₁ : Follows p₁ p₂ r₁)
    (h₂ : Follows p₂ p₃ r₂) : Follows p₁ p₃ (r₁ ++ r₂) := by
  refine ⟨h₂.pid.trans h₁.pid, h₂.programNumber.trans h₁.programNumber, fun m hm => ?_, ?_⟩
  · obtain ⟨hm₂, hes₂⟩ := h₁.installed m hm
    obtain ⟨hm₃, hes₃⟩ := h₂.installed m hm₂
    exact ⟨hm₃, hes₃.trans hes₂⟩
  -- the flag is raised once at most, so at most one of the two parts remarks
  rcases h₁.remarks with ⟨rfl, hw₁⟩ | ⟨hw₁, hw₂, i, rfl, hi⟩ <;>
    rcases h₂.remarks with ⟨rfl, hw₂'⟩ | ⟨hw₂', hw₃, j, rfl, hj⟩
  · exact .inl ⟨rfl, hw₂'.trans hw₁⟩
  · exact .inr ⟨hw₁ ▸ hw₂', hw₃, j, rfl, hj⟩
  · exact .inr ⟨hw₁, hw₂'.trans hw₂, i, rfl, hi.follows h₂⟩
  · rw [hw₂] at hw₂'
    cases hw₂'

/-! ## Reading the PMT -/

/-- A packet carries a PMT the program accepts: a section starts in it, and decodes to a PMT
of the program's number. -/
def Accepts (p : Program) (pkt : TsPacket) (m : PmtSection) : Prop :=
  ∃ payload, pkt.payload = some payload ∧ pkt.header.payloadStart = true ∧
    (sectionStart payload >>= parsePmt) = .ok m ∧ m.programNumber = p.programNumber

/-- What reading a PMT packet can do: nothing; install the PMT the program accepts, while none
is installed, with one entry per stream and no handler; or remark on one of another version
than the installed PMT, the first time only. -/
theorem readPmt_cases (p : Program) (d : Diagnostics) (pkt : TsPacket) :
    ((p.readPmt d pkt).state = p ∧ (p.readPmt d pkt).diagnostics = d) ∨
    (∃ m, p.pmt = none ∧ p.Accepts pkt m ∧
      (p.readPmt d pkt).state = { p with pmt := some m, pids := m.streams.map (⟨·, none⟩) } ∧
      (p.readPmt d pkt).diagnostics = d) ∨
    (∃ m new, p.pmt = some m ∧ new ≠ m.version ∧ p.warnedPmtVersion = false ∧
      (p.readPmt d pkt).state = { p with warnedPmtVersion := true } ∧
      (p.readPmt d pkt).diagnostics = d.warn (pmtVersionWarning m.version new p.programNumber)) := by
  unfold readPmt
  split
  · exact .inl ⟨rfl, rfl⟩
  rename_i payload hpay
  split
  · exact .inl ⟨rfl, rfl⟩
  rename_i hpusi
  split
  · exact .inl ⟨rfl, rfl⟩
  rename_i m hparse
  split
  · exact .inl ⟨rfl, rfl⟩
  rename_i hnum
  split
  · rename_i current hcur
    split
    · rename_i hchange
      exact .inr (.inr ⟨current, m.version, hcur, fun h => hchange.1 h.symm,
        by simpa using hchange.2, rfl, rfl⟩)
    · exact .inl ⟨rfl, rfl⟩
  · rename_i hnone
    exact .inr (.inl ⟨m, hnone, ⟨payload, hpay, by simpa using hpusi, hparse,
      by simpa using hnum⟩, rfl, rfl⟩)

/-- The PMT a program accepts is installed while none is. -/
theorem readPmt_of_accepts {pkt : TsPacket} {m : PmtSection} (hp : p.pmt = none)
    (ha : p.Accepts pkt m) (d : Diagnostics) :
    p.readPmt d pkt = ⟨{ p with pmt := some m, pids := m.streams.map (⟨·, none⟩) }, d, .ok ()⟩ := by
  obtain ⟨payload, hpay, hpusi, hparse, hnum⟩ := ha
  simp [readPmt, hpay, hpusi, hparse, hnum, hp]

/-- Reading a PMT packet keeps the invariant, and the program follows on with the remark it
made, if any. -/
theorem follows_readPmt (h : p.Mirrors) (d : Diagnostics) (pkt : TsPacket) :
    (p.readPmt d pkt).state.Mirrors ∧ ∃ r, Follows p (p.readPmt d pkt).state r ∧
      (p.readPmt d pkt).diagnostics.remarks = d.remarks ++ r := by
  rcases readPmt_cases p d pkt with
    ⟨hs, hd⟩ | ⟨m, hnone, -, hs, hd⟩ | ⟨m, new, hm, hnew, hw, hs, hd⟩
  · rw [hs, hd]
    exact ⟨h, [], (Rehandles.refl p).follows, by simp⟩
  · -- the first PMT: nothing was installed, so only the flag and the remarks are to check
    rw [hs, hd]
    refine ⟨by simp [Mirrors, Function.comp_def], [],
      ⟨rfl, rfl, fun m' hm' => by simp [hnone] at hm', .inl ⟨rfl, rfl⟩⟩, by simp⟩
  · rw [hs, hd]
    exact ⟨h, _, ⟨rfl, rfl, fun _ hm' => ⟨hm', rfl⟩, .inr ⟨hw, rfl, _, rfl, m, new, hm, hnew, rfl⟩⟩,
      Diagnostics.remarks_warn d _⟩

/-- The program step keeps the invariant, and the program follows on with the remark it made,
if any. -/
theorem follows_readPacket (h : p.Mirrors) (d : Diagnostics) (pkt : TsPacket) :
    (p.readPacket d pkt).state.Mirrors ∧ ∃ r, Follows p (p.readPacket d pkt).state r ∧
      (p.readPacket d pkt).diagnostics.remarks = d.remarks ++ r := by
  have hnote := rehandles_notePcr (p := p) pkt
  have hmir := hnote.mirrors h
  unfold readPacket
  dsimp only
  split
  · obtain ⟨hm, r, hf, hr⟩ := follows_readPmt hmir d pkt
    exact ⟨hm, r, by simpa using hnote.follows.trans hf, hr⟩
  · have hdisp := rehandles_dispatch (p := p.notePcr pkt) d pkt
    exact ⟨hdisp.mirrors hmir, [], by simpa using hnote.follows.trans hdisp.follows,
      by simp [remarks_dispatch]⟩

theorem notePcr_of_none (hp : p.pmt = none) (pkt : TsPacket) : p.notePcr pkt = p := by
  simp [notePcr, hp]

/-- The PMT a program accepts, in a packet on its PMT PID, is installed while none is. -/
theorem readPacket_of_accepts {pkt : TsPacket} {m : PmtSection} (hp : p.pmt = none)
    (hpid : pkt.pid = p.pid) (ha : p.Accepts pkt m) (d : Diagnostics) :
    p.readPacket d pkt = ⟨{ p with pmt := some m, pids := m.streams.map (⟨·, none⟩) }, d, .ok ()⟩ := by
  simp only [readPacket, notePcr_of_none hp, hpid, if_true]
  exact readPmt_of_accepts hp ha d

/-- While no PMT is installed, a packet installs one exactly when it is on the PMT PID and
carries a PMT the program accepts. -/
theorem readPacket_pmt_of_none (hp : p.pmt = none) (d : Diagnostics) (pkt : TsPacket)
    (m : PmtSection) :
    (p.readPacket d pkt).state.pmt = some m ↔ pkt.pid = p.pid ∧ p.Accepts pkt m := by
  constructor
  · intro hm
    by_cases hpid : pkt.pid = p.pid
    · simp only [readPacket, notePcr_of_none hp, hpid, if_true] at hm
      rcases readPmt_cases p d pkt with ⟨hs, -⟩ | ⟨m', -, ha, hs, -⟩ | ⟨m', -, hm', -⟩
      · rw [hs, hp] at hm
        cases hm
      · rw [hs] at hm
        cases hm
        exact ⟨hpid, ha⟩
      · rw [hp] at hm'
        cases hm'
    · -- off the PMT PID the packet goes to a handler, and the PMT stays uninstalled
      have hne : p.pid ≠ pkt.pid := fun h => hpid h.symm
      simp only [readPacket, notePcr_of_none hp, hne, if_false,
        (rehandles_dispatch (p := p) d pkt).pmt, hp] at hm
      cases hm
  · rintro ⟨hpid, ha⟩
    rw [readPacket_of_accepts hp hpid ha d]

/-- Once a PMT is installed, a packet on the PMT PID, whatever PMT it carries, changes
neither the PMT nor the table. -/
theorem readPacket_of_installed {m : PmtSection} (hp : p.pmt = some m) {pkt : TsPacket}
    (hpid : pkt.pid = p.pid) (d : Diagnostics) :
    (p.readPacket d pkt).state.pmt = some m ∧ (p.readPacket d pkt).state.pids = p.pids := by
  have hnote := rehandles_notePcr (p := p) pkt
  have hpid' : (p.notePcr pkt).pid = pkt.pid := by rw [hnote.pid, hpid]
  simp only [readPacket, hpid', if_true]
  rcases readPmt_cases (p.notePcr pkt) d pkt with
    ⟨hs, -⟩ | ⟨m', hnone, -, -, -⟩ | ⟨m', -, -, -, -, hs, -⟩
  · rw [hs, hnote.pmt, notePcr_pids]
    exact ⟨hp, rfl⟩
  · rw [hnote.pmt, hp] at hnone
    cases hnone
  · rw [hs]
    exact ⟨hnote.pmt.trans hp, notePcr_pids pkt⟩

/-- Registration succeeds exactly when the installed PMT lists the PID. -/
theorem Mirrors.register_ok_iff (h : p.Mirrors) (pid : Nat) (hd : AvcHandler) :
    (∃ p', p.register pid hd = .ok p') ↔
      ∃ m, p.pmt = some m ∧ ∃ es ∈ m.streams, es.pid = pid := by
  rw [← h.pidEntry_isSome pid, h.register_eq pid hd]
  by_cases he : (p.pidEntry pid).isSome <;> simp [he]

/-- A registration replaces the handler of the first entry of the PID, and nothing else. -/
theorem Mirrors.register_ok (h : p.Mirrors) {pid : Nat} {hd : AvcHandler}
    (hr : p.register pid hd = .ok p') :
    ∃ pre e post, p.pids = pre ++ e :: post ∧ e.es.pid = pid ∧ (∀ x ∈ pre, x.es.pid ≠ pid) ∧
      p' = { p with pids := pre ++ { e with handler := some hd } :: post } := by
  rw [h.register_eq] at hr
  split at hr
  · rename_i hsome
    obtain ⟨e, he⟩ := Option.isSome_iff_exists.1 hsome
    obtain ⟨pre, post, hsplit, hpid, hpre⟩ := pidEntry_eq_some he
    cases hr
    exact ⟨pre, e, post, hsplit, hpid, hpre, by rw [hsplit, setHandler_split hpid hpre]⟩
  · cases hr

theorem Mirrors.rehandles_register (h : p.Mirrors) {pid : Nat} {hd : AvcHandler}
    (hr : p.register pid hd = .ok p') : Rehandles p p' := by
  rw [h.register_eq] at hr
  split at hr
  · cases hr
    exact rehandles_setHandler _ _
  · cases hr

/-- Unregistering returns the handler of the first entry of the PID and empties it. -/
theorem unregister_of_split {pid : Nat} {pre : List PidEntry} {e : PidEntry}
    {post : List PidEntry} (hsplit : p.pids = pre ++ e :: post) (he : e.es.pid = pid)
    (hpre : ∀ x ∈ pre, x.es.pid ≠ pid) :
    p.unregister pid = ({ p with pids := pre ++ { e with handler := none } :: post }, e.handler) := by
  rw [unregister, pidEntry_of_split hsplit he hpre, hsplit, setHandler_split he hpre]

/-- Without an entry of the PID, unregistering changes nothing and returns no handler. -/
theorem unregister_of_forall_ne {pid : Nat} (h : ∀ x ∈ p.pids, x.es.pid ≠ pid) :
    p.unregister pid = (p, none) := by
  have hnone : p.pidEntry pid = none := List.find?_eq_none.2 (by simpa using h)
  simp [unregister, hnone]

/-- A registration that succeeds changes the table of the program and nothing else. -/
theorem register_ok_eq {pid : Nat} {hd : AvcHandler} {p' : Program}
    (hr : p.register pid hd = .ok p') : p' = { p with pids := p'.pids } := by
  unfold register at hr
  split at hr
  · cases hr
  · split at hr <;> cases hr <;> rfl

theorem rehandles_unregister (pid : Nat) : Rehandles p (p.unregister pid).1 := by
  unfold unregister
  split
  · exact rehandles_setHandler _ _
  · exact Rehandles.refl p

/-! ## The programs of a stream -/

/-- Programs before and after a run, one by one, each with the remarks it added. -/
inductive FollowsAll : List Program → List Program → List (List Issue) → Prop
  | nil : FollowsAll [] [] []
  | cons {p p' : Program} {r : List Issue} {ps ps' : List Program} {rs : List (List Issue)} :
    Follows p p' r → FollowsAll ps ps' rs → FollowsAll (p :: ps) (p' :: ps') (r :: rs)

theorem FollowsAll.refl : ∀ ps : List Program, FollowsAll ps ps (ps.map fun _ => [])
  | [] => .nil
  | p :: ps => .cons (Rehandles.refl p).follows (FollowsAll.refl ps)

/-- Two runs one after the other: each program adds what it added in both, and the remarks of
the two runs are those of all programs, in another order. -/
theorem FollowsAll.trans {ps₁ ps₂ ps₃ : List Program} {rs₁ rs₂ : List (List Issue)}
    (h₁ : FollowsAll ps₁ ps₂ rs₁) (h₂ : FollowsAll ps₂ ps₃ rs₂) :
    FollowsAll ps₁ ps₃ (List.zipWith (· ++ ·) rs₁ rs₂) ∧
      (List.zipWith (· ++ ·) rs₁ rs₂).flatten.Perm (rs₁.flatten ++ rs₂.flatten) := by
  induction h₁ generalizing ps₃ rs₂ with
  | nil =>
    cases h₂
    exact ⟨.nil, .nil⟩
  | @cons p p' r ps ps' rs hf _ ih =>
    cases h₂ with
    | @cons _ p'' r' _ ps'' rs' hf' h₂ =>
      obtain ⟨hall, hperm⟩ := ih h₂
      refine ⟨.cons (hf.trans hf') hall, ?_⟩
      simp only [List.zipWith_cons_cons, List.flatten_cons, List.append_assoc]
      refine List.Perm.append_left r ?_
      calc (r' ++ (List.zipWith (· ++ ·) rs rs').flatten).Perm (r' ++ (rs.flatten ++ rs'.flatten))
            := hperm.append_left r'
        _ = r' ++ rs.flatten ++ rs'.flatten := by rw [List.append_assoc]
        List.Perm _ (rs.flatten ++ r' ++ rs'.flatten) := List.perm_append_comm.append_right _
        _ = rs.flatten ++ (r' ++ rs'.flatten) := List.append_assoc _ _ _

/-- What a run from programs `ps` with diagnostics `d` to `ps'` with `d'` leaves: every program
mirrors its PMT, each follows on from the one it was, and the remarks added are, in some
order, those the programs added. -/
structure Ran (ps : List Program) (d : Diagnostics) (ps' : List Program) (d' : Diagnostics) :
    Prop where
  mirrors : ∀ p ∈ ps', p.Mirrors
  follows : ∃ rs, FollowsAll ps ps' rs ∧
    ∃ added, d'.remarks = d.remarks ++ added ∧ added.Perm rs.flatten

theorem Ran.of_followsAll {ps ps' : List Program} {d d' : Diagnostics} {rs : List (List Issue)}
    (hm : ∀ p ∈ ps', p.Mirrors) (hf : FollowsAll ps ps' rs)
    (hr : d'.remarks = d.remarks ++ rs.flatten) : Ran ps d ps' d' :=
  ⟨hm, rs, hf, _, hr, .refl _⟩

theorem Ran.refl {ps : List Program} (hm : ∀ p ∈ ps, p.Mirrors) (d : Diagnostics) :
    Ran ps d ps d :=
  .of_followsAll hm (FollowsAll.refl ps) (by simp)

theorem Ran.trans {ps₁ ps₂ ps₃ : List Program} {d₁ d₂ d₃ : Diagnostics}
    (h₁ : Ran ps₁ d₁ ps₂ d₂) (h₂ : Ran ps₂ d₂ ps₃ d₃) : Ran ps₁ d₁ ps₃ d₃ := by
  obtain ⟨rs₁, hf₁, added₁, hr₁, hp₁⟩ := h₁.follows
  obtain ⟨rs₂, hf₂, added₂, hr₂, hp₂⟩ := h₂.follows
  obtain ⟨hf, hp⟩ := hf₁.trans hf₂
  exact ⟨h₂.mirrors, _, hf, added₁ ++ added₂, by rw [hr₂, hr₁, List.append_assoc],
    (hp₁.append hp₂).trans hp.symm⟩

end Program

/-- Routing a packet through programs keeps the invariant, and each program follows on with
the remark it made, in program order. -/
theorem ran_readPrograms (pkt : TsPacket) :
    ∀ (d : Diagnostics) (ps : List Program), (∀ p ∈ ps, p.Mirrors) →
      (∀ p ∈ (readPrograms d pkt ps).1, p.Mirrors) ∧ ∃ rs,
        Program.FollowsAll ps (readPrograms d pkt ps).1 rs ∧
          (readPrograms d pkt ps).2.1.remarks = d.remarks ++ rs.flatten
  | d, [], _ => ⟨by simp [readPrograms], [], .nil, by simp [readPrograms]⟩
  | d, p :: ps, hps => by
    obtain ⟨hm, r, hf, hr⟩ := p.follows_readPacket (hps p List.mem_cons_self) d pkt
    have hps' : ∀ q ∈ ps, q.Mirrors := fun q hq => hps q (List.mem_cons_of_mem p hq)
    unfold readPrograms
    dsimp only
    split
    · -- the routing stops at this program; the ones after it are as they were
      refine ⟨List.forall_mem_cons.2 ⟨hm, hps'⟩, r :: ps.map fun _ => [],
        .cons hf (Program.FollowsAll.refl ps), by simp [hr]⟩
    · obtain ⟨hms, rs, hall, hrs⟩ := ran_readPrograms pkt _ ps hps'
      exact ⟨List.forall_mem_cons.2 ⟨hm, hms⟩, r :: rs, .cons hf hall, by simp [hrs, hr]⟩

/-! ## Runs of calls on a stream -/

namespace Stream

/-- A call on the demultiplexer: a packet to route, or a handler registered on or
unregistered from an elementary PID of the program with a given number. -/
inductive Call where
  | readPacket (packet : TsPacket)
  | register (programNumber pid : Nat) (handler : AvcHandler)
  | unregister (programNumber pid : Nat)

/-- The stream and the diagnostics after one call, whatever it returned. A call on a program
the stream does not have, and a refused registration, change nothing. -/
def call (s : Stream) (d : Diagnostics) : Call → Stream × Diagnostics
  | .readPacket packet =>
    let r := s.readPacket d packet
    (r.state, r.diagnostics)
  | .register n pid h =>
    match s.program? n with
    | none => (s, d)
    | some p =>
      match p.register pid h with
      | .ok p => (s.setProgram n p, d)
      | .error _ => (s, d)
  | .unregister n pid =>
    match s.program? n with
    | none => (s, d)
    | some p => (s.setProgram n (p.unregister pid).1, d)

/-- The stream and the diagnostics after a sequence of calls. -/
def calls (s : Stream) (d : Diagnostics) : List Call → Stream × Diagnostics
  | [] => (s, d)
  | c :: cs =>
    let r := s.call d c
    calls r.1 r.2 cs

/-- Replacing the program found by its number with one that follows on from it. -/
theorem followsAll_setProgram_go {n : Nat} {p p' : Program} (hp : p.Follows p' []) :
    ∀ {ps : List Program}, ps.find? (·.programNumber == n) = some p →
      Program.FollowsAll ps (setProgram.go n p' ps) (ps.map fun _ => [])
  | [], h => by cases h
  | q :: qs, h => by
    simp only [setProgram.go]
    split
    · rename_i hq
      rw [List.find?_cons_of_pos (by simpa using hq)] at h
      cases h
      exact .cons hp (Program.FollowsAll.refl qs)
    · rename_i hq
      rw [List.find?_cons_of_neg (by simpa using hq)] at h
      exact .cons (Program.Rehandles.refl q).follows (followsAll_setProgram_go hp h)

variable {s : Stream}

/-- Replacing the program found by its number with one that changed only its handlers. -/
theorem ran_setProgram (hs : ∀ q ∈ s.programs, q.Mirrors) {n : Nat} {p p' : Program}
    (hp : s.program? n = some p) (hr : p.Rehandles p') (d : Diagnostics) :
    Program.Ran s.programs d (s.setProgram n p').programs d := by
  have hp' : p'.Mirrors := hr.mirrors (hs p (List.mem_of_find?_eq_some hp))
  refine .of_followsAll (fun q (hq : q ∈ setProgram.go n p' s.programs) => ?_)
    (followsAll_setProgram_go hr.follows hp) (by simp)
  rcases mem_setProgram_go hq with hq | rfl
  · exact hs q hq
  · exact hp'

theorem ran_readPacket (hs : ∀ p ∈ s.programs, p.Mirrors) (d : Diagnostics) (pkt : TsPacket) :
    Program.Ran s.programs d (s.readPacket d pkt).state.programs
      (s.readPacket d pkt).diagnostics := by
  unfold Stream.readPacket
  split
  · exact .refl hs d
  · obtain ⟨hm, rs, hf, hr⟩ := ran_readPrograms pkt d s.programs hs
    exact .of_followsAll hm hf hr

/-- The step lemma: one call keeps the invariant, and the programs follow on. -/
theorem ran_call (hs : ∀ p ∈ s.programs, p.Mirrors) (d : Diagnostics) :
    ∀ c : Call, Program.Ran s.programs d (s.call d c).1.programs (s.call d c).2
  | .readPacket pkt => ran_readPacket hs d pkt
  | .register n pid h => by
    simp only [call]
    split
    · exact .refl hs d
    · rename_i p hp
      split
      · rename_i p' hr
        exact ran_setProgram hs hp ((hs p (List.mem_of_find?_eq_some hp)).rehandles_register hr) d
      · exact .refl hs d
  | .unregister n pid => by
    simp only [call]
    split
    · exact .refl hs d
    · rename_i p hp
      exact ran_setProgram hs hp (Program.rehandles_unregister pid) d

/-- The run lemma: every sequence of calls keeps the invariant, and the programs follow on. -/
theorem ran_calls :
    ∀ (s : Stream) (d : Diagnostics) (cs : List Call), (∀ p ∈ s.programs, p.Mirrors) →
      Program.Ran s.programs d (s.calls d cs).1.programs (s.calls d cs).2
  | _, d, [], hs => .refl hs d
  | s, d, c :: cs, hs =>
    (ran_call hs d c).trans (ran_calls (s.call d c).1 (s.call d c).2 cs (ran_call hs d c).mirrors)

end Stream

/-! ## The PID table along a run -/

/-- The PID table of every program of a stream follows the first PMT it accepts, along every
sequence of packets routed and handlers registered and unregistered, from programs that
mirror their PMTs, as new ones do.

Along the run every program's table lists the streams of its installed PMT in order, and is
empty before one is installed. Each program keeps its numbers, an installed PMT and the
streams of its table, and the remarks the run adds are, in some order, at most one per
program: its remark on a PMT of another version than the installed one, made as its version
flag is raised (`Program.Ran`).

Step by step: while no PMT is installed, a packet installs one exactly when it is on the PMT
PID and carries a PMT the program accepts, and then with one entry per stream and no
handler; once one is installed, a packet on the PMT PID changes neither the PMT nor the
table. Registration on a program that mirrors its PMT succeeds exactly when the PMT lists
the PID, and then replaces the handler of the first entry of the PID and nothing else, so no
entry is ever appended. Unregistration returns the handler of the first entry of the PID and
empties it, and without such an entry changes nothing and returns none. -/
theorem pidTable_mirrors_first_pmt (s : Stream) (hs : ∀ p ∈ s.programs, p.Mirrors)
    (d : Diagnostics) (cs : List Stream.Call) :
    Program.Ran s.programs d (s.calls d cs).1.programs (s.calls d cs).2 ∧
    (∀ (p : Program) (d : Diagnostics) (pkt : TsPacket) (m : PmtSection), p.pmt = none →
      ((p.readPacket d pkt).state.pmt = some m ↔ pkt.pid = p.pid ∧ p.Accepts pkt m) ∧
      (pkt.pid = p.pid → p.Accepts pkt m →
        (p.readPacket d pkt).state.pids = m.streams.map (⟨·, none⟩))) ∧
    (∀ (p : Program) (d : Diagnostics) (pkt : TsPacket) (m : PmtSection), p.pmt = some m →
      pkt.pid = p.pid →
        (p.readPacket d pkt).state.pmt = some m ∧ (p.readPacket d pkt).state.pids = p.pids) ∧
    (∀ p : Program, p.Mirrors → ∀ (pid : Nat) (hd : AvcHandler),
      ((∃ p', p.register pid hd = .ok p') ↔
        ∃ m, p.pmt = some m ∧ ∃ es ∈ m.streams, es.pid = pid) ∧
      ∀ p', p.register pid hd = .ok p' →
        ∃ pre e post, p.pids = pre ++ e :: post ∧ e.es.pid = pid ∧
          (∀ x ∈ pre, x.es.pid ≠ pid) ∧
          p' = { p with pids := pre ++ { e with handler := some hd } :: post }) ∧
    (∀ (p : Program) (pid : Nat) (pre : List PidEntry) (e : PidEntry) (post : List PidEntry),
      p.pids = pre ++ e :: post → e.es.pid = pid → (∀ x ∈ pre, x.es.pid ≠ pid) →
        p.unregister pid =
          ({ p with pids := pre ++ { e with handler := none } :: post }, e.handler)) ∧
    (∀ (p : Program) (pid : Nat), (∀ x ∈ p.pids, x.es.pid ≠ pid) →
      p.unregister pid = (p, none)) := by
  refine ⟨Stream.ran_calls s d cs hs, fun p d pkt m hp => ⟨p.readPacket_pmt_of_none hp d pkt m,
    fun hpid ha => by rw [p.readPacket_of_accepts hp hpid ha d]⟩,
    fun p d pkt m hp hpid => p.readPacket_of_installed hp hpid d,
    fun p hp pid hd => ⟨hp.register_ok_iff pid hd, fun p' hr => hp.register_ok hr⟩,
    fun p pid pre e post hsplit he hpre => p.unregister_of_split hsplit he hpre,
    fun p pid h => p.unregister_of_forall_ne h⟩

/-- A stream of one program, number 1 with its PMT on PID `0x1000`. -/
def oneProgramStream : Stream :=
  { pat := some { programs := [⟨1, 0x1000⟩] }, programs := [Program.new 1 0x1000] }

/-- The PMT packet of program 1: its PCR and one AVC stream on PID `0x100`. -/
def oneAvcPmtPacket : TsPacket :=
  { header := { payloadStart := true, pid := 0x1000, adaptationControl := 1 },
    payload := some ([0x00, 0x02, 0xb0, 0x12, 0x00, 0x01, 0xc1, 0x00, 0x00, 0xe1, 0x00, 0xf0,
      0x00, 0x1b, 0xe1, 0x00, 0xf0, 0x00, 0x15, 0xbd, 0x4d, 0x56] ++ List.replicate 162 0xff) }

/-- Reading the PMT of program 1, then registering and unregistering a handler on its AVC
stream. -/
def registerUnregisterCalls : List Stream.Call :=
  [.readPacket oneAvcPmtPacket, .register 1 0x100 (AvcHandler.new 0x100 .general),
    .unregister 1 0x100]

example : (oneProgramStream.calls {} registerUnregisterCalls).1.programs.map
    (fun p => p.pids.map fun e => (e.es.pid, e.handler.isSome)) = [[(0x100, false)]] := by
  decide +kernel

theorem pidTable_mirrors_first_pmt_oneProgram :
    (∀ p ∈ oneProgramStream.programs, p.Mirrors) ∧
      Program.Ran oneProgramStream.programs {}
        (oneProgramStream.calls {} registerUnregisterCalls).1.programs
        (oneProgramStream.calls {} registerUnregisterCalls).2 :=
  have hs : ∀ p ∈ oneProgramStream.programs, p.Mirrors :=
    List.forall_mem_singleton.2 (Program.mirrors_new 1 0x1000)
  ⟨hs, (pidTable_mirrors_first_pmt oneProgramStream hs {} registerUnregisterCalls).1⟩

end MpegTs
