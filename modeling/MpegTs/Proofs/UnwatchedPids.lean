import MpegTs.Proofs.ValidatorPhases
import Mathlib.Data.List.Forall2

/-!
# Packets on PIDs a validator does not read

A validator looks at a packet's PID in a few places only: the PAT and reserved table PIDs `0`
to `3`, the PMT PID of each program the PAT names, and once a program's PMT is installed, its
PCR PID and the elementary PIDs the PMT lists (`Validator.watches`). A packet on any other PID
is counted and does nothing else (`Validator.feed_unwatched`).

Two facts carry this through a run. The handler table of a program only holds streams of its
installed PMT (`Program.Listed`), so looking an unwatched PID up finds no handler. And whatever
the outcome of a feed, the PIDs a validator watches only grow (`Validator.Extends`), so a PID
that is not watched at the end of a run was not watched at any point of it. Finally nothing
reads the packet count (`Validator.feedAll_withPackets`).

## Main statements

* `Program.extends_readPacket`, `extends_installHandlers`: what any packet does to a program.
* `Validator.extends_feedAll`: the watched PIDs of a run, whatever its outcome.
* `Validator.feed_unwatched`: the frame lemma of one feed.
* `Validator.feedAll_insert_unwatched`: inserting an unwatched packet anywhere in a run.
-/

namespace MpegTs

/-! ## Programs -/

namespace Program

/-- The PIDs a program reads: its PMT PID, and once its PMT is installed, the PCR PID and the
elementary PIDs the PMT lists. -/
def watches (p : Program) (pid : Nat) : Bool :=
  p.pid == pid || p.pmt.any fun pmt => pmt.pcrPid == pid || pmt.streams.any (·.pid == pid)

/-- Every entry of the handler table is a stream of the installed PMT. -/
def Listed (p : Program) : Prop :=
  ∀ e ∈ p.pids, ∃ pmt, p.pmt = some pmt ∧ e.es ∈ pmt.streams

/-- What any packet does to a program, whatever its outcome: the PMT PID and an installed PMT
stay, and the handler table stays among the streams of the PMT. -/
structure Extends (p p' : Program) : Prop where
  pid : p'.pid = p.pid
  pmt : ∀ pmt, p.pmt = some pmt → p'.pmt = some pmt
  listed : p.Listed → p'.Listed

theorem Extends.refl (p : Program) : Extends p p := ⟨rfl, fun _ h => h, id⟩

theorem Extends.trans {p₁ p₂ p₃ : Program} (h₁ : Extends p₁ p₂) (h₂ : Extends p₂ p₃) :
    Extends p₁ p₃ :=
  ⟨h₂.pid.trans h₁.pid, fun pmt h => h₂.pmt pmt (h₁.pmt pmt h), fun h => h₂.listed (h₁.listed h)⟩

/-- A program that is extended reads every PID it read. -/
theorem Extends.watches {p p' : Program} (h : Extends p p') {pid : Nat}
    (hw : p.watches pid = true) : p'.watches pid = true := by
  unfold Program.watches at hw ⊢
  rw [h.pid]
  cases hpmt : p.pmt with
  | none =>
    simp only [hpmt, Option.any_none, Bool.or_false] at hw
    rw [hw, Bool.true_or]
  | some pmt =>
    rw [h.pmt pmt hpmt]
    rwa [hpmt] at hw

theorem listed_new (n pid : Nat) : (Program.new n pid).Listed := by
  simp [Listed, Program.new]

/-- Replacing a handler keeps the streams of the table. -/
@[simp] theorem map_es_setHandler (pid : Nat) (h : Option AvcHandler) :
    ∀ es : List PidEntry, (setHandler pid h es).map (·.es) = es.map (·.es)
  | [] => rfl
  | e :: es => by
    unfold setHandler
    split <;> simp [map_es_setHandler pid h es]

variable {p : Program}

theorem Listed.setHandler (hl : p.Listed) (pid : Nat) (h : Option AvcHandler) :
    ({ p with pids := MpegTs.setHandler pid h p.pids } : Program).Listed := by
  intro e he
  obtain ⟨e₀, he₀, hes⟩ : ∃ e₀ ∈ p.pids, e₀.es = e.es := by
    have : e.es ∈ (MpegTs.setHandler pid h p.pids).map (·.es) := List.mem_map_of_mem he
    simpa using this
  rw [← hes]
  exact hl e₀ he₀

theorem extends_notePcr (pkt : TsPacket) : Extends p (p.notePcr pkt) := by
  unfold notePcr
  split
  · exact ⟨rfl, fun _ h => h, id⟩
  · exact Extends.refl p

/-- A PMT packet installs the PMT with a handler table of its streams, or changes at most the
version warning. -/
theorem extends_readPmt (d : Diagnostics) (pkt : TsPacket) : Extends p (p.readPmt d pkt).state := by
  unfold readPmt
  split
  · exact Extends.refl p
  split
  · exact Extends.refl p
  split
  · exact Extends.refl p
  split
  · exact Extends.refl p
  split
  · split
    · exact ⟨rfl, fun _ h => h, id⟩
    · exact Extends.refl p
  · rename_i pmt _ _ _ hnone
    refine ⟨rfl, fun _ h => (by rw [hnone] at h; cases h), fun _ e he => ?_⟩
    obtain ⟨es, hes, rfl⟩ := List.mem_map.1 he
    exact ⟨pmt, rfl, hes⟩

theorem extends_dispatch (d : Diagnostics) (pkt : TsPacket) : Extends p (p.dispatch d pkt).state := by
  unfold dispatch
  split
  · exact ⟨rfl, fun _ h => h, fun hl => hl.setHandler _ _⟩
  · exact Extends.refl p

/-- The program step, whatever its outcome. -/
theorem extends_readPacket (d : Diagnostics) (pkt : TsPacket) :
    Extends p (p.readPacket d pkt).state := by
  have hnote := extends_notePcr (p := p) pkt
  unfold readPacket
  dsimp only
  split
  · exact hnote.trans (extends_readPmt d pkt)
  · exact hnote.trans (extends_dispatch d pkt)

/-- Registering a handler adds at most an entry for a stream the PMT lists. -/
theorem extends_register {pid : Nat} {h : AvcHandler} {p' : Program}
    (hr : p.register pid h = .ok p') : Extends p p' := by
  unfold register at hr
  split at hr
  · cases hr
  rename_i es hes
  obtain ⟨pmt, hpmt, hfind⟩ := Option.bind_eq_some_iff.1 hes
  split at hr
  · cases hr
    exact ⟨rfl, fun _ h => h, fun hl => hl.setHandler _ _⟩
  · cases hr
    refine ⟨rfl, fun _ h => h, fun hl e he => ?_⟩
    rcases List.mem_append.1 he with he | he
    · exact hl e he
    · rw [List.mem_singleton.1 he]
      exact ⟨pmt, hpmt, List.mem_of_find?_eq_some hfind⟩

end Program

/-- Attaching handlers extends the program, whatever the outcome. -/
theorem extends_installHandlers (t : SegmentType) (x : Option Extractor)
    (streams : List EsInfo) (d : Diagnostics) (p : Program) :
    p.Extends (installHandlers t x d p streams).1 :=
  installHandlers_invariant p.Extends (fun _ hr hp => hp.trans (Program.extends_register hr))
    d p streams (Program.Extends.refl p)

/-! ## Validators -/

namespace Program

/-- Programs extended one by one read every PID the old ones read. -/
theorem forall₂_extends_watches {ps ps' : List Program} (h : List.Forall₂ Extends ps ps')
    {pid : Nat} (hw : ps.any (·.watches pid) = true) : ps'.any (·.watches pid) = true := by
  induction h with
  | nil => exact hw
  | cons hp _ ih =>
    simp only [List.any_cons, Bool.or_eq_true] at hw ⊢
    rcases hw with hw | hw
    · exact Or.inl (hp.watches hw)
    · exact Or.inr (ih hw)

/-- Programs extended one by one stay listed. -/
theorem forall₂_extends_listed {ps ps' : List Program} (h : List.Forall₂ Extends ps ps')
    (hl : ∀ p ∈ ps, p.Listed) : ∀ p ∈ ps', p.Listed := by
  induction h with
  | nil => exact hl
  | cons hp _ ih =>
    intro p hp'
    rcases List.mem_cons.1 hp' with rfl | hp'
    · exact hp.listed (hl _ List.mem_cons_self)
    · exact ih (fun q hq => hl q (List.mem_cons_of_mem _ hq)) p hp'

theorem forall₂_extends_refl (ps : List Program) : List.Forall₂ Extends ps ps :=
  List.forall₂_same.2 fun p _ => Extends.refl p

end Program

/-- Routing a packet through programs extends each of them, whatever the outcome. -/
theorem forall₂_readPrograms (pkt : TsPacket) :
    ∀ (d : Diagnostics) (ps : List Program),
      List.Forall₂ Program.Extends ps (readPrograms d pkt ps).1
  | _, [] => .nil
  | d, p :: ps => by
    unfold readPrograms
    dsimp only
    split
    · exact .cons (Program.extends_readPacket d pkt) (Program.forall₂_extends_refl ps)
    · exact .cons (Program.extends_readPacket d pkt) (forall₂_readPrograms pkt _ ps)

/-- Replacing the program found by its number with an extension of it. -/
theorem forall₂_setProgram_go {n : Nat} {p p' : Program} (hp : p.Extends p') :
    ∀ {ps : List Program}, ps.find? (·.programNumber == n) = some p →
      List.Forall₂ Program.Extends ps (Stream.setProgram.go n p' ps)
  | [], h => by cases h
  | q :: qs, h => by
    simp only [Stream.setProgram.go]
    split
    · rename_i hq
      rw [List.find?_cons_of_pos (by simpa using hq)] at h
      cases h
      exact .cons hp (Program.forall₂_extends_refl qs)
    · rename_i hq
      rw [List.find?_cons_of_neg (by simpa using hq)] at h
      exact .cons (Program.Extends.refl q) (forall₂_setProgram_go hp h)

namespace Validator

/-- The PIDs a validator reads: the PAT and reserved table PIDs, and those its programs read. -/
def watches (v : Validator) (pid : Nat) : Bool :=
  decide (pid ≤ 3) || v.stream.programs.any (·.watches pid)

/-- Every program's handler table is among the streams of its PMT. -/
def Listed (v : Validator) : Prop := ∀ p ∈ v.stream.programs, p.Listed

/-- What any feed does to a validator: it reads every PID it read, and its programs stay
listed. -/
structure Extends (v v' : Validator) : Prop where
  watches : ∀ pid, v.watches pid = true → v'.watches pid = true
  listed : v.Listed → v'.Listed

variable {v v' : Validator}

theorem Extends.refl (v : Validator) : Extends v v := ⟨fun _ h => h, id⟩

theorem Extends.trans {v₁ v₂ v₃ : Validator} (h₁ : Extends v₁ v₂) (h₂ : Extends v₂ v₃) :
    Extends v₁ v₃ :=
  ⟨fun pid h => h₂.watches pid (h₁.watches pid h), fun h => h₂.listed (h₁.listed h)⟩

/-- Programs extended one by one extend the validator. -/
theorem Extends.of_programs
    (h : List.Forall₂ Program.Extends v.stream.programs v'.stream.programs) : Extends v v' := by
  refine ⟨fun pid hw => ?_, Program.forall₂_extends_listed h⟩
  unfold Validator.watches at hw ⊢
  simp only [Bool.or_eq_true] at hw ⊢
  rcases hw with hw | hw
  · exact Or.inl hw
  · exact Or.inr (Program.forall₂_extends_watches h hw)

theorem Extends.of_stream (hs : v'.stream.programs = v.stream.programs) : Extends v v' :=
  .of_programs (hs ▸ Program.forall₂_extends_refl _)

theorem listed_new (t : SegmentType) (x : Bool) : (Validator.new t x).Listed := by
  intro p hp
  cases hp

/-- The PAT adds the one program it lists, fresh. -/
theorem extends_readPat (pkt : TsPacket) : Extends v (v.readPat pkt).1 := by
  unfold readPat
  split
  · exact Extends.refl v
  · exact Extends.refl v
  split
  · split
    · exact Extends.refl v
    split
    · exact Extends.refl v
    refine ⟨fun pid hw => ?_, fun hl p hp => ?_⟩
    · unfold watches at hw ⊢
      simp only [List.any_append, Bool.or_eq_true] at hw ⊢
      rcases hw with hw | hw
      · exact Or.inl hw
      · exact Or.inr (Or.inl hw)
    · rcases List.mem_append.1 hp with hp | hp
      · exact hl p hp
      · rw [List.mem_singleton.1 hp]
        exact Program.listed_new _ _
  · exact Extends.refl v

theorem extends_demux (pkt : TsPacket) : Extends v (v.demux pkt).1 := by
  unfold demux Stream.readPacket
  split
  · exact Extends.of_stream rfl
  · exact Extends.of_programs (forall₂_readPrograms pkt _ _)

/-- Installing a PMT's handlers extends the program, whatever the outcome. -/
theorem extends_install (n : Nat) : Extends v (v.install n).1 := by
  unfold install
  split
  · exact Extends.refl v
  rename_i p hfind
  split
  · exact Extends.refl v
  rename_i pmt _
  split
  rename_i p' d' r hinst
  have hext : p.Extends p' := by
    have h := extends_installHandlers v.segmentType v.extractor pmt.streams v.diagnostics p
    rw [hinst] at h
    exact h
  have hset := forall₂_setProgram_go hext hfind
  split
  · exact Extends.of_programs hset
  · exact Extends.of_programs hset

theorem extends_route (pkt : TsPacket) : Extends v (v.route pkt).1 := by
  rcases v.route_cases pkt with ⟨e, -, hr⟩ | hr | ⟨pat, -, -, -, -, hr⟩ | ⟨-, -, hr⟩ | ⟨-, -, hr⟩ <;>
    rw [hr]
  · exact Extends.refl v
  · exact Extends.refl v
  · exact Extends.of_stream rfl
  · exact Extends.of_stream rfl
  · exact extends_demux pkt

/-- The step of a packet check, whatever its outcome. -/
theorem extends_process (data : List UInt8) : Extends v (v.process data).1 := by
  rcases v.process_cases data with ⟨e, -, hr⟩ |
      ⟨pkt, -, hr | ⟨-, -, hr⟩ | ⟨n, pid, -, -, ⟨e, -, hr⟩ | ⟨-, hr⟩⟩ | ⟨-, hr⟩⟩ <;>
    rw [hr]
  · exact Extends.refl v
  · exact Extends.refl v
  · exact extends_readPat pkt
  · exact extends_demux pkt
  · exact (extends_demux pkt).trans (extends_install _)
  · exact extends_route pkt

/-- The validator step, whatever its outcome. -/
theorem extends_feed (data : List UInt8) : Extends v (v.feed data).1 := by
  have hcount : Extends v { v with packets := v.packets + 1 } := Extends.of_stream rfl
  have hproc := hcount.trans (extends_process (v := { v with packets := v.packets + 1 }) data)
  rcases v.feed_cases data with ⟨e, -, hr⟩ | ⟨-, hr⟩ <;> rw [hr]
  · exact hproc.trans (Extends.of_stream rfl)
  · exact hproc

/-- A relation that composes, and that every feed moves along whatever its outcome, relates the
start of every run to its end. -/
theorem feedAll_of_feed {R : Validator → Validator → Prop} (hrefl : ∀ v, R v v)
    (htrans : ∀ {u v w}, R u v → R v w → R u w) (hfeed : ∀ v data, R v (v.feed data).1) :
    ∀ (ds : List (List UInt8)) (v : Validator), R v (v.feedAll ds).1
  | [], v => hrefl v
  | data :: rest, v => by
    have hstep := hfeed v data
    unfold feedAll
    split
    · rename_i hr
      rw [hr] at hstep
      exact hstep
    · rename_i v₁ hr
      rw [hr] at hstep
      exact htrans hstep (feedAll_of_feed hrefl htrans hfeed rest v₁)

/-- The run lemma: along any run, whether it fails or not, the watched PIDs only grow and the
programs stay listed. -/
theorem extends_feedAll (ds : List (List UInt8)) (v : Validator) : Extends v (v.feedAll ds).1 :=
  feedAll_of_feed Extends.refl Extends.trans (fun _ data => extends_feed data) ds v

end Validator

/-! ## Packets on PIDs nobody reads -/

namespace Program

variable {p : Program} {pid : Nat}

/-- What a program does not read: neither its PMT PID nor, once its PMT is installed, its PCR PID
or a PID the PMT lists. -/
theorem watches_eq_false (hw : p.watches pid = false) :
    p.pid ≠ pid ∧ ∀ pmt, p.pmt = some pmt → pmt.pcrPid ≠ pid ∧ ∀ es ∈ pmt.streams, es.pid ≠ pid := by
  simp only [watches, Bool.or_eq_false_iff, beq_eq_false_iff_ne] at hw
  refine ⟨hw.1, fun pmt hpmt => ?_⟩
  have h := hw.2
  simp only [hpmt, Option.any_some, Bool.or_eq_false_iff, beq_eq_false_iff_ne,
    List.any_eq_false] at h
  exact ⟨h.1, fun es hes => by simpa using h.2 es hes⟩

/-- A listed program has no entry for a PID it does not read. -/
theorem pidEntry_unwatched (hl : p.Listed) (hw : p.watches pid = false) : p.pidEntry pid = none := by
  have hnot := (watches_eq_false hw).2
  refine List.find?_eq_none.2 fun e he hpid => ?_
  obtain ⟨pmt, hpmt, hes⟩ := hl e he
  exact (hnot pmt hpmt).2 e.es hes (by simpa using hpid)

/-- A packet on a PID that a listed program does not read leaves it and the diagnostics alone. -/
theorem readPacket_unwatched (hl : p.Listed) {pkt : TsPacket} (hw : p.watches pkt.pid = false)
    (d : Diagnostics) : p.readPacket d pkt = ⟨p, d, .ok ()⟩ := by
  obtain ⟨hpid, hpmt⟩ := watches_eq_false hw
  -- no PCR is noted: the packet is not on the PCR PID
  have hnote : p.notePcr pkt = p := by
    unfold notePcr
    rw [if_neg]
    cases h : p.pmt with
    | none => simp
    | some pmt =>
      have hpcr : (pmt.pcrPid == pkt.pid) = false := beq_eq_false_iff_ne.2 (hpmt pmt h).1
      simp [hpcr]
  unfold readPacket
  dsimp only
  rw [hnote, if_neg hpid]
  unfold dispatch
  rw [pidEntry_unwatched hl hw]

end Program

/-- Programs that do not read a packet's PID pass it through untouched. -/
theorem readPrograms_unwatched {pkt : TsPacket} (d : Diagnostics) :
    ∀ {ps : List Program}, (∀ p ∈ ps, p.Listed) → ps.any (·.watches pkt.pid) = false →
      readPrograms d pkt ps = (ps, d, .ok ())
  | [], _, _ => rfl
  | p :: ps, hl, hw => by
    simp only [List.any_cons, Bool.or_eq_false_iff] at hw
    unfold readPrograms
    rw [p.readPacket_unwatched (hl p List.mem_cons_self) hw.1]
    dsimp only
    rw [readPrograms_unwatched d (fun q hq => hl q (List.mem_cons_of_mem _ hq)) hw.2]

namespace Validator

variable {v : Validator}

theorem demux_unwatched (hl : v.Listed) {pkt : TsPacket}
    (hw : v.stream.programs.any (·.watches pkt.pid) = false) : v.demux pkt = (v, .ok ()) := by
  unfold demux Stream.readPacket
  split
  · rfl
  · rw [readPrograms_unwatched _ hl hw]

/-- The frame lemma of a packet check: a staged, listed validator that does not read a
packet's PID is left as it was. -/
theorem process_unwatched (hst : v.Staged) (hl : v.Listed) {data : List UInt8} {pkt : TsPacket}
    (hdata : TsPacket.parse data = .ok pkt) (hw : v.watches pkt.pid = false) :
    v.process data = (v, .ok ()) := by
  obtain ⟨hlow, hprogs⟩ : 3 < pkt.pid ∧ v.stream.programs.any (·.watches pkt.pid) = false := by
    simp only [watches, Bool.or_eq_false_iff, decide_eq_false_iff_not, Nat.not_le] at hw
    exact hw
  unfold process
  rw [hdata]
  dsimp only
  split
  · rw [if_neg (by simp only [patPid]; omega)]
  · -- the PMT PID belongs to the one program awaiting it, so the packet is on another PID
    rename_i n pmtPid hph
    have hprograms : v.stream.programs = [Program.new n pmtPid] := (hst.awaitingPmt hph).2
    have hne : pkt.pid ≠ pmtPid := by
      rintro heq
      simp [hprograms, Program.watches, Program.new, heq] at hprogs
    rw [if_neg hne]
  · dsimp only [route]
    rw [if_neg (by simp only [patPid]; omega), if_neg (by omega)]
    split
    · rfl
    · exact demux_unwatched hl hprogs

/-- The frame lemma of a feed: such a packet is counted and does nothing else. -/
theorem feed_unwatched (hst : v.Staged) (hl : v.Listed) {data : List UInt8} {pkt : TsPacket}
    (hdata : TsPacket.parse data = .ok pkt) (hw : v.watches pkt.pid = false) :
    v.feed data = ({ v with packets := v.packets + 1 }, .ok ()) := by
  unfold feed
  rw [process_unwatched (v := { v with packets := v.packets + 1 }) hst hl hdata hw]

/-! ## The packet count -/

/-! No check reads the packet count and none but `feed` changes it: each step commutes with
setting it. -/

theorem readPat_withPackets (v : Validator) (n : Nat) (pkt : TsPacket) :
    ({ v with packets := n } : Validator).readPat pkt =
      ({ (v.readPat pkt).1 with packets := n }, (v.readPat pkt).2) := by
  unfold readPat
  split
  · rfl
  · rfl
  · split
    · split
      · rfl
      · split
        · rfl
        · rfl
    · rfl

theorem demux_withPackets (v : Validator) (n : Nat) (pkt : TsPacket) :
    ({ v with packets := n } : Validator).demux pkt =
      ({ (v.demux pkt).1 with packets := n }, (v.demux pkt).2) := rfl

theorem install_withPackets (v : Validator) (n programNumber : Nat) :
    ({ v with packets := n } : Validator).install programNumber =
      ({ (v.install programNumber).1 with packets := n }, (v.install programNumber).2) := by
  unfold install
  dsimp only
  split
  · rfl
  split
  · rfl
  split
  · rfl
  · rfl

theorem route_withPackets (v : Validator) (n : Nat) (pkt : TsPacket) :
    ({ v with packets := n } : Validator).route pkt =
      ({ (v.route pkt).1 with packets := n }, (v.route pkt).2) := by
  dsimp only [route]
  split
  · split
    · rfl
    · rfl
    · split
      · rfl
      · rfl
  split
  · split
    · rfl
    · rfl
  split
  · rfl
  · rfl

theorem process_withPackets (v : Validator) (n : Nat) (data : List UInt8) :
    ({ v with packets := n } : Validator).process data =
      ({ (v.process data).1 with packets := n }, (v.process data).2) := by
  unfold process
  split
  · rfl
  rename_i pkt _
  -- the phase of both sides, once the count is projected away
  dsimp only
  split
  · split
    · exact readPat_withPackets v n pkt
    · rfl
  · split
    · rw [demux_withPackets]
      rcases v.demux pkt with ⟨v₁, _ | _⟩
      · rfl
      · exact install_withPackets v₁ n _
    · rfl
  · exact route_withPackets v n pkt

/-- A feed counts one packet, whatever count it starts from. -/
theorem feed_withPackets (v : Validator) (k : Nat) (data : List UInt8) :
    ({ v with packets := v.packets + k } : Validator).feed data =
      ({ (v.feed data).1 with packets := (v.feed data).1.packets + k }, (v.feed data).2) := by
  have hk : v.packets + k + 1 = v.packets + 1 + k := by omega
  unfold feed
  dsimp only
  rw [process_withPackets v (v.packets + k + 1), process_withPackets v (v.packets + 1), hk]
  rcases v.process data with ⟨v₁, _ | _⟩
  · rfl
  · rfl

/-- A run from a validator that has counted `k` packets more ends as the run from it, with `k`
packets more counted. -/
theorem feedAll_withPackets (k : Nat) :
    ∀ (ds : List (List UInt8)) (v : Validator),
      ({ v with packets := v.packets + k } : Validator).feedAll ds =
        ({ (v.feedAll ds).1 with packets := (v.feedAll ds).1.packets + k }, (v.feedAll ds).2)
  | [], _ => rfl
  | data :: rest, v => by
    unfold feedAll
    rw [feed_withPackets]
    rcases v.feed data with ⟨v₁, _ | _⟩
    · rfl
    · exact feedAll_withPackets k rest v₁

theorem finish_withPackets (v : Validator) (n : Nat) :
    ({ v with packets := n } : Validator).finish = { v.finish with packets := n } := rfl

/-! ## Runs -/

/-- A run over two lists of packets is the run over the first, then, if it got through, the run
over the second. -/
theorem feedAll_append (v : Validator) (ds es : List (List UInt8)) :
    v.feedAll (ds ++ es) =
      match v.feedAll ds with
      | (v', .error e) => (v', .error e)
      | (v', .ok ()) => v'.feedAll es := by
  induction ds generalizing v with
  | nil => rfl
  | cons data rest ih =>
    simp only [List.cons_append, feedAll]
    rcases v.feed data with ⟨v₁, _ | _⟩
    · rfl
    · exact ih v₁

end Validator

/-- Packets on PIDs that a run does not read never change its verdict. Take a run of feeds from
a fresh validator, stopping after the first that fails, which ends in `w` with outcome `r`, and
a packet that decodes on a PID that `w` does not read: not `0` to `3`, not the PMT PID the PAT
names, and not the PCR PID or an elementary PID of the PMT installed. Inserting the packet at
any point of the run gives the same outcome and the same final state, but for one more packet
counted if the run reaches it; so the diagnostics after `finish` are the same. -/
theorem Validator.feedAll_insert_unwatched (t : SegmentType) (x : Bool)
    (pre post : List (List UInt8)) {data : List UInt8} {pkt : TsPacket} {w : Validator}
    {r : Except Error Unit} (hdata : TsPacket.parse data = .ok pkt)
    (hrun : (Validator.new t x).feedAll (pre ++ post) = (w, r))
    (hw : w.watches pkt.pid = false) :
    ((Validator.new t x).feedAll (pre ++ data :: post)).1.finish.diagnostics =
        w.finish.diagnostics ∧
      ((Validator.new t x).feedAll (pre ++ data :: post)).2 = r ∧
      ((Validator.new t x).feedAll (pre ++ data :: post)).1 =
        { w with packets := w.packets + if ((Validator.new t x).feedAll pre).2.isOk then 1 else 0 } := by
  -- the run with the packet inserted is the same state as the run without, recounted
  suffices h : (Validator.new t x).feedAll (pre ++ data :: post) =
      ({ w with packets := w.packets + if ((Validator.new t x).feedAll pre).2.isOk then 1 else 0 },
        r) by
    rw [h]
    exact ⟨rfl, rfl, rfl⟩
  rw [Validator.feedAll_append] at hrun ⊢
  rcases hpre : (Validator.new t x).feedAll pre with ⟨v, _ | _⟩
  · -- the run fails before the packet is reached
    rw [hpre] at hrun
    obtain ⟨rfl, rfl⟩ := Prod.mk.inj hrun
    rfl
  · -- the packet reaches a staged, listed validator that does not read its PID
    rw [hpre] at hrun
    dsimp only at hrun ⊢
    have hst : v.Staged := by
      have h := Validator.staged_feedAll pre _ (Validator.staged_new t x) (by rw [hpre])
      rw [hpre] at h
      exact h.1
    have hl : v.Listed := by
      have h := Validator.extends_feedAll pre (Validator.new t x)
      rw [hpre] at h
      exact h.listed (Validator.listed_new t x)
    -- the rest of the run only adds PIDs to read, so the packet's was not read before it
    have hwv : v.watches pkt.pid = false := by
      have h := Validator.extends_feedAll post v
      rw [hrun] at h
      cases hv : v.watches pkt.pid with
      | false => rfl
      | true =>
        have := h.watches _ hv
        rw [hw] at this
        cases this
    simp only [Validator.feedAll, Validator.feed_unwatched hst hl hdata hwv]
    rw [Validator.feedAll_withPackets 1 post v, hrun]
    rfl

/-- A packet with a PCR on PID `0x200`, which no program reads. -/
def strayPcrPacket : List UInt8 :=
  [0x47, 0x02, 0x00, 0x20, 0xB7, 0x10, 0x00, 0x00, 0x00, 0x00, 0x7E, 0x00] ++
    List.replicate 176 0xFF

/-- What `strayPcrPacket` decodes to: an adaptation field with a PCR of `0`, no payload. -/
def strayPcr : TsPacket :=
  { header := { pid := 0x200, adaptationControl := 2 },
    adaptationField := some { length := 183, pcr := some ⟨0, 0⟩ } }

/-- The stray PCR inserted between the PAT and the PMT of a general segment. -/
theorem feedAll_insert_strayPcr :
    TsPacket.parse strayPcrPacket = .ok strayPcr ∧
      ((Validator.new .general).feedAll
          (Validator.patAndPmt.take 1 ++ Validator.patAndPmt.drop 1)).1.watches strayPcr.pid =
        false ∧
      ((Validator.new .general).feedAll (Validator.patAndPmt.take 1 ++
          strayPcrPacket :: Validator.patAndPmt.drop 1)).1.finish.diagnostics =
        ((Validator.new .general).feedAll
          (Validator.patAndPmt.take 1 ++ Validator.patAndPmt.drop 1)).1.finish.diagnostics := by
  have hparse : TsPacket.parse strayPcrPacket = .ok strayPcr := by decide +kernel
  have hw : ((Validator.new .general).feedAll
      (Validator.patAndPmt.take 1 ++ Validator.patAndPmt.drop 1)).1.watches strayPcr.pid = false := by
    decide +kernel
  exact ⟨hparse, hw, (Validator.feedAll_insert_unwatched .general false _ _ hparse rfl hw).1⟩

end MpegTs
