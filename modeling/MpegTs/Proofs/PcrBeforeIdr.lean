import MpegTs.Proofs.ValidatorSteps
import Mathlib.Control.Monad.Basic
import Mathlib.Data.List.Infix

/-!
# An IDR picture is accepted only after a PCR

An AVC handler refuses the first coded slice of an IDR picture while its program has seen no
PCR on its PCR PID. The flag it reads is the program's flag when the PES packet holding the
slice is completed: at the transport packet that ends a bounded PES packet, at the next start
for an unbounded one, or at the end of the run. This file shows what that guarantees over a
whole run of a `Validator`: a handler records an IDR slice (`sawIdr`) only in a program for
which a packet carrying a PCR on its PCR PID was among the packets fed (`IdrAfterPcr`), after
every run of feeds and again after `finish`.

The PCR may come after the packet that carries the slice's own bytes, so long as it comes no
later than the packet that completes the slice's PES packet: `idrSlice_before_pcr` is such a
run, accepted without error.

The proof is one invariant kept by every packet (`Program.PcrOrder`): a program's PCR flag is
set only by a packet that was fed and carries a PCR on the PCR PID of its PMT, and each of its
handlers has recorded an IDR slice, or its own copy of the flag, only once the flag is set
(`AvcHandler.FollowsPcr`). Failing packets keep it too, so no run needs to succeed.

## Main statements

* `AvcHandler.followsPcr_processTsPacket`, `AvcHandler.followsPcr_finish`: the handler step.
* `Program.PcrOrder.readPacket`: the program step.
* `Validator.pcrOrder_feedAll`: the run.
* `Validator.idrSlice_after_pcr`: the guarantee after a run and after `finish`.
-/

namespace MpegTs

/-! ## Handlers -/

namespace AvcHandler

/-- What a handler may have recorded while its program's PCR flag is `b`: the first IDR slice,
and its own copy of the flag, only once the flag is set. -/
structure FollowsPcr (b : Bool) (h : AvcHandler) : Prop where
  sawIdr : h.sawIdr = true → b = true
  sawPcr : h.sawPcr = true → b = true

theorem FollowsPcr.mono {b b' : Bool} {h : AvcHandler} (hf : FollowsPcr b h)
    (hb : b = true → b' = true) : FollowsPcr b' h :=
  ⟨fun hi => hb (hf.sawIdr hi), fun hp => hb (hf.sawPcr hp)⟩

/-- A handler opened for a PID has recorded nothing yet. -/
theorem followsPcr_openHandler (b : Bool) {t : SegmentType} {x : Option Extractor} {pid : Nat}
    {h : AvcHandler} (hh : openHandler t x pid = .ok h) : FollowsPcr b h := by
  rcases openHandler_ok hh with ⟨-, rfl⟩ | ⟨-, s, -, -, rfl⟩
  · exact ⟨fun h => by simp [AvcHandler.new] at h, fun h => by simp [AvcHandler.new] at h⟩
  · exact ⟨fun h => by simp [AvcHandler.new, withExtraction] at h,
      fun h => by simp [AvcHandler.new, withExtraction] at h⟩

variable {b s : Bool}

/-- Checking units records an IDR slice only when the PCR flag it is given is set. -/
theorem followsPcr_processNals (hs : s = true → b = true) :
    ∀ (raws : List (List UInt8)) (h : AvcHandler), FollowsPcr b h →
      FollowsPcr b (h.processNals s raws).1
  | [], _, hf => hf
  | raw :: rest, h, hf => by
    simp only [processNals]
    cases NalUnit.parse raw with
    | error e => exact hf
    | ok nal =>
      simp only
      split
      · exact hf
      · split
        · -- a first IDR slice without the flag is refused before it is recorded
          exact ⟨hf.sawIdr, hf.sawPcr⟩
        · rename_i hcheck
          apply followsPcr_processNals hs rest
          refine ⟨fun hi => ?_, hf.sawPcr⟩
          cases hsi : h.sawIdr
          · have hidr : nal.isIdrSlice = true := by simpa [hsi] using hi
            cases hs' : s
            · simp [hsi, hidr, hs'] at hcheck
            · exact hs hs'
          · exact hf.sawIdr hsi

/-- A PES payload is extracted, which changes only the copy, then its units are checked. -/
theorem followsPcr_processPes (hs : s = true → b = true) {h : AvcHandler} (pes : CompletedPes)
    (hf : FollowsPcr b h) : FollowsPcr b (h.processPes pes s).1 := by
  rw [processPes_fst]
  split
  · exact hf
  · exact followsPcr_processNals hs _ _ ⟨hf.sawIdr, hf.sawPcr⟩

theorem followsPcr_processAll (hs : s = true → b = true) :
    ∀ (pess : List CompletedPes) (h : AvcHandler), FollowsPcr b h →
      FollowsPcr b (h.processAll s pess).1
  | [], _, hf => hf
  | pes :: rest, h, hf => by
    have hpes := followsPcr_processPes hs pes hf
    simp only [processAll]
    split
    · rename_i h' e heq
      rw [heq] at hpes
      exact hpes
    · rename_i h' heq
      rw [heq] at hpes
      exact followsPcr_processAll hs rest h' hpes

/-- One transport packet: the handler copies the program's flag `b` and checks what it
completes against it. -/
theorem followsPcr_processTsPacket {h : AvcHandler} (d : Diagnostics) (p : TsPacket)
    (hf : FollowsPcr b h) : FollowsPcr b (h.processTsPacket d b p).state := by
  have hcopy : FollowsPcr b { h with sawPcr := b, assembler := (h.assembler.push d p).state } :=
    ⟨hf.sawIdr, id⟩
  simp only [processTsPacket]
  split
  · exact hcopy
  · exact followsPcr_processAll id _ _ hcopy

/-- The last PES payload is checked against the handler's own copy of the flag, or only
extracted. -/
theorem followsPcr_endLast {h : AvcHandler} (clean : Bool) (pes : CompletedPes)
    (hf : FollowsPcr b h) : FollowsPcr b (h.endLast clean pes).1 := by
  unfold endLast
  split
  · exact followsPcr_processPes hf.sawPcr pes hf
  · split
    · exact hf
    · rename_i h' he
      rw [extract_ok he]
      exact ⟨hf.sawIdr, hf.sawPcr⟩

/-- The end of the run checks a last PES payload against the handler's own copy of the flag. -/
theorem followsPcr_finish {h : AvcHandler} (d : Diagnostics) (hf : FollowsPcr b h) :
    FollowsPcr b (h.finish d).state := by
  have hrest : FollowsPcr b { h with assembler := (h.assembler.finish d).state } :=
    ⟨hf.sawIdr, hf.sawPcr⟩
  dsimp only [finish, endStream]
  split
  · exact hrest
  · exact hrest
  · exact followsPcr_endLast _ _ hrest

end AvcHandler

/-! ## Programs -/

/-- Replacing a handler brings in no handler but the new one. -/
theorem handler_of_mem_setHandler {pid : Nat} {hopt : Option AvcHandler} {h : AvcHandler} :
    ∀ {es : List PidEntry} {e : PidEntry}, e ∈ setHandler pid hopt es → e.handler = some h →
      (∃ e₀ ∈ es, e₀.handler = some h) ∨ hopt = some h
  | [], _, he, _ => by simp [setHandler] at he
  | e₀ :: es, e, he, hh => by
    simp only [setHandler] at he
    split at he
    · rcases List.mem_cons.1 he with rfl | he
      · exact Or.inr hh
      · exact Or.inl ⟨_, List.mem_cons_of_mem _ he, hh⟩
    · rcases List.mem_cons.1 he with rfl | he
      · exact Or.inl ⟨_, List.mem_cons_self, hh⟩
      · rcases handler_of_mem_setHandler he hh with ⟨e₁, he₁, hh₁⟩ | hnew
        · exact Or.inl ⟨e₁, List.mem_cons_of_mem _ he₁, hh₁⟩
        · exact Or.inr hnew

namespace Program

/-- The packet carries a PCR on the PCR PID of the program's installed PMT. -/
def carriesPcr (p : Program) (pkt : TsPacket) : Bool :=
  p.pmt.any (·.pcrPid == pkt.pid) && pkt.pcr.isSome

/-- The invariant of a program, `fed` holding of the packets fed so far: its PCR flag was set
by one of them carrying a PCR on its PCR PID, and its handlers follow the flag. -/
structure PcrOrder (fed : TsPacket → Prop) (p : Program) : Prop where
  pcrFed : p.sawPcr = true → ∃ pkt, fed pkt ∧ p.carriesPcr pkt = true
  handlers : ∀ e ∈ p.pids, ∀ h, e.handler = some h → h.FollowsPcr p.sawPcr

variable {fed : TsPacket → Prop} {p : Program}

theorem PcrOrder.mono {fed' : TsPacket → Prop} (hp : PcrOrder fed p)
    (hfed : ∀ pkt, fed pkt → fed' pkt) : PcrOrder fed' p := by
  refine ⟨fun hs => ?_, hp.handlers⟩
  obtain ⟨pkt, hpkt, hc⟩ := hp.pcrFed hs
  exact ⟨pkt, hfed pkt hpkt, hc⟩

theorem pcrOrder_new (fed : TsPacket → Prop) (programNumber pid : Nat) :
    (Program.new programNumber pid).PcrOrder fed :=
  ⟨fun h => by simp [Program.new] at h, fun e he => by simp [Program.new] at he⟩

/-- A program whose PMT and flag stay, and whose handlers are its own or follow the flag. -/
theorem PcrOrder.of_handlers {p' : Program} (hp : PcrOrder fed p) (hpmt : p'.pmt = p.pmt)
    (hpcr : p'.sawPcr = p.sawPcr)
    (hh : ∀ e ∈ p'.pids, ∀ h, e.handler = some h →
      (∃ e₀ ∈ p.pids, e₀.handler = some h) ∨ h.FollowsPcr p.sawPcr) :
    PcrOrder fed p' := by
  refine ⟨fun hs => ?_, fun e he h hsome => ?_⟩
  · obtain ⟨pkt, hpkt, hc⟩ := hp.pcrFed (hpcr ▸ hs)
    exact ⟨pkt, hpkt, by simpa [carriesPcr, hpmt] using hc⟩
  · rw [hpcr]
    rcases hh e he h hsome with ⟨e₀, he₀, hh₀⟩ | hnew
    · exact hp.handlers e₀ he₀ h hh₀
    · exact hnew

/-- Noting a PCR: the flag is set only by a packet that carries one. -/
theorem PcrOrder.notePcr (hp : PcrOrder fed p) {pkt : TsPacket} (hpkt : fed pkt) :
    PcrOrder fed (p.notePcr pkt) := by
  unfold Program.notePcr
  split
  · rename_i hc
    refine ⟨fun _ => ⟨pkt, hpkt, hc⟩, fun e he h hh => ?_⟩
    exact (hp.handlers e he h hh).mono fun _ => rfl
  · exact hp

/-- Reading a PMT installs one only where none was, and then with no handler. -/
theorem PcrOrder.readPmt (hp : PcrOrder fed p) (d : Diagnostics) (pkt : TsPacket) :
    PcrOrder fed (p.readPmt d pkt).state := by
  unfold Program.readPmt
  split
  · exact hp
  · split
    · exact hp
    · split
      · exact hp
      · split
        · exact hp
        · split
          · split
            · exact ⟨hp.pcrFed, hp.handlers⟩
            · exact hp
          · -- no PMT yet: no packet could have set the flag, and the new entries have no handler
            rename_i hnone
            refine ⟨fun hs => ?_, fun e he h hh => ?_⟩
            · obtain ⟨pkt', _, hc⟩ := hp.pcrFed hs
              simp [carriesPcr, hnone] at hc
            · simp only [List.mem_map] at he
              obtain ⟨es, _, rfl⟩ := he
              cases hh

/-- Handing a packet to its handler: the handler is given the program's flag. -/
theorem PcrOrder.dispatch (hp : PcrOrder fed p) (d : Diagnostics) (pkt : TsPacket) :
    PcrOrder fed (p.dispatch d pkt).state := by
  unfold Program.dispatch
  split
  · rename_i es h _
    refine hp.of_handlers rfl rfl fun e he h' hh => ?_
    rcases handler_of_mem_setHandler he hh with hold | hnew
    · exact Or.inl hold
    · -- the handler of the packet's PID, stepped with the program's flag
      obtain ⟨e₀, he₀, hh₀⟩ : ∃ e₀ ∈ p.pids, e₀.handler = some h := by
        rename_i hentry
        obtain ⟨he₀, -⟩ := List.find?_eq_some_iff_append.1 hentry
        exact ⟨_, List.mem_of_find?_eq_some hentry, rfl⟩
      cases Option.some.inj hnew
      exact Or.inr (AvcHandler.followsPcr_processTsPacket d pkt (hp.handlers e₀ he₀ h hh₀))
  · exact hp

/-- The program step: one packet keeps the invariant, once it counts as fed. -/
theorem PcrOrder.readPacket (hp : PcrOrder fed p) (d : Diagnostics) {pkt : TsPacket}
    (hpkt : fed pkt) : PcrOrder fed (p.readPacket d pkt).state := by
  have hnote := hp.notePcr hpkt
  dsimp only [Program.readPacket]
  split
  · exact hnote.readPmt d pkt
  · exact hnote.dispatch d pkt

/-- Registering a handler that follows the flag. -/
theorem PcrOrder.register (hp : PcrOrder fed p) {pid : Nat} {h : AvcHandler} {p' : Program}
    (hr : p.register pid h = .ok p') (hh : h.FollowsPcr p.sawPcr) : PcrOrder fed p' := by
  unfold Program.register at hr
  split at hr
  · cases hr
  · split at hr
    · cases hr
      refine hp.of_handlers rfl rfl fun e he h' hh' => ?_
      rcases handler_of_mem_setHandler he hh' with hold | hnew
      · exact Or.inl hold
      · cases Option.some.inj hnew
        exact Or.inr hh
    · cases hr
      refine hp.of_handlers rfl rfl fun e he h' hh' => ?_
      rcases List.mem_append.1 he with he | he
      · exact Or.inl ⟨e, he, hh'⟩
      · simp only [List.mem_singleton] at he
        subst he
        cases Option.some.inj hh'
        exact Or.inr hh

/-- Attaching fresh handlers keeps the invariant, also when it stops partway. -/
theorem PcrOrder.installHandlers (t : SegmentType) (x : Option Extractor) :
    ∀ (d : Diagnostics) (p : Program) (es : List EsInfo), PcrOrder fed p →
      PcrOrder fed (MpegTs.installHandlers t x d p es).1 :=
  installHandlers_invariant (PcrOrder fed) fun hopen hr hp =>
    hp.register hr (AvcHandler.followsPcr_openHandler _ hopen)

/-- Ending the handlers of entries: each ends following the flag it followed. -/
theorem followsPcr_finishEntries {b : Bool} :
    ∀ (d : Diagnostics) (es : List PidEntry),
      (∀ e ∈ es, ∀ h, e.handler = some h → h.FollowsPcr b) →
      ∀ e ∈ (finishEntries d es).1, ∀ h, e.handler = some h → h.FollowsPcr b
  | _, [], _ => by simp [finishEntries]
  | d, e₀ :: es, hes => by
    simp only [finishEntries]
    intro e he h hh
    rcases List.mem_cons.1 he with rfl | he
    · split at hh
      · rename_i h₀ hh₀
        cases Option.some.inj hh
        exact AvcHandler.followsPcr_finish d (hes e₀ List.mem_cons_self h₀ hh₀)
      · exact hes e₀ List.mem_cons_self h hh
    · exact followsPcr_finishEntries _ es (fun e' he' => hes e' (List.mem_cons_of_mem _ he')) e
        he h hh

theorem PcrOrder.finish (hp : PcrOrder fed p) (d : Diagnostics) : PcrOrder fed (p.finish d).1 :=
  ⟨hp.pcrFed, followsPcr_finishEntries d p.pids hp.handlers⟩

end Program

/-! ## The stream and the validator -/

section Stream

variable {fed : TsPacket → Prop}

theorem pcrOrder_readPrograms (d : Diagnostics) {pkt : TsPacket} (hpkt : fed pkt) :
    ∀ ps : List Program, (∀ p ∈ ps, p.PcrOrder fed) →
      ∀ p ∈ (readPrograms d pkt ps).1, p.PcrOrder fed
  | [], _ => by simp [readPrograms]
  | p :: ps, hps => by
    have hp := (hps p List.mem_cons_self).readPacket d hpkt
    have hrest : ∀ q ∈ ps, q.PcrOrder fed := fun q hq => hps q (List.mem_cons_of_mem _ hq)
    simp only [readPrograms]
    split
    · intro q hq
      rcases List.mem_cons.1 hq with rfl | hq
      · exact hp
      · exact hrest q hq
    · intro q hq
      rcases List.mem_cons.1 hq with rfl | hq
      · exact hp
      · exact pcrOrder_readPrograms _ hpkt ps hrest q hq

theorem pcrOrder_finishPrograms :
    ∀ (d : Diagnostics) (ps : List Program), (∀ p ∈ ps, p.PcrOrder fed) →
      ∀ p ∈ (finishPrograms d ps).1, p.PcrOrder fed
  | _, [], _ => by simp [finishPrograms]
  | d, p :: ps, hps => by
    simp only [finishPrograms]
    intro q hq
    rcases List.mem_cons.1 hq with rfl | hq
    · exact (hps p List.mem_cons_self).finish d
    · exact pcrOrder_finishPrograms _ ps (fun q hq => hps q (List.mem_cons_of_mem _ hq)) q hq

theorem mem_setProgram_go {n : Nat} {p q : Program} :
    ∀ {qs : List Program}, q ∈ Stream.setProgram.go n p qs → q ∈ qs ∨ q = p
  | [], hq => by simp [Stream.setProgram.go] at hq
  | q₀ :: qs, hq => by
    simp only [Stream.setProgram.go] at hq
    split at hq
    · rcases List.mem_cons.1 hq with rfl | hq
      · exact Or.inr rfl
      · exact Or.inl (List.mem_cons_of_mem _ hq)
    · rcases List.mem_cons.1 hq with rfl | hq
      · exact Or.inl List.mem_cons_self
      · rcases mem_setProgram_go hq with hq | rfl
        · exact Or.inl (List.mem_cons_of_mem _ hq)
        · exact Or.inr rfl

end Stream

namespace Validator

/-- Every program of the validator's stream keeps the invariant. -/
def PcrOrder (fed : TsPacket → Prop) (v : Validator) : Prop :=
  ∀ p ∈ v.stream.programs, p.PcrOrder fed

variable {fed : TsPacket → Prop} {v : Validator}

theorem pcrOrder_new (t : SegmentType) (x : Bool) : (Validator.new t x).PcrOrder fed := by
  intro p hp
  simp [Validator.new] at hp

theorem PcrOrder.readPat (hv : v.PcrOrder fed) (pkt : TsPacket) :
    (v.readPat pkt).1.PcrOrder fed := by
  unfold Validator.readPat
  split
  · exact hv
  · exact hv
  · split
    · split
      · exact hv
      · split
        · exact hv
        · -- the program the PAT lists joins with no flag and no handler
          intro p hp
          rcases List.mem_append.1 hp with hp | hp
          · exact hv p hp
          · simp only [List.mem_singleton] at hp
            subst hp
            exact Program.pcrOrder_new fed _ _
    · exact hv

theorem PcrOrder.install (hv : v.PcrOrder fed) (programNumber : Nat) :
    (v.install programNumber).1.PcrOrder fed := by
  unfold Validator.install
  split
  · exact hv
  · rename_i p hfind
    have hp : p.PcrOrder fed := hv p (List.mem_of_find?_eq_some hfind)
    split
    · exact hv
    · rename_i pmt _
      have hinst := Program.PcrOrder.installHandlers v.segmentType v.extractor v.diagnostics p
        pmt.streams hp
      split
      rename_i p' d' r hres
      rw [hres] at hinst
      -- the program with its handlers takes its place, whether or not all were attached
      have hprograms : ∀ q ∈ (v.stream.setProgram programNumber p').programs, q.PcrOrder fed := by
        intro q hq
        rcases mem_setProgram_go hq with hq | rfl
        · exact hv q hq
        · exact hinst
      split <;> exact hprograms

theorem PcrOrder.demux (hv : v.PcrOrder fed) {pkt : TsPacket} (hpkt : fed pkt) :
    (v.demux pkt).1.PcrOrder fed := by
  unfold Validator.demux Stream.readPacket
  split
  · exact hv
  · exact pcrOrder_readPrograms v.diagnostics hpkt _ hv

theorem PcrOrder.route (hv : v.PcrOrder fed) {pkt : TsPacket} (hpkt : fed pkt) :
    (v.route pkt).1.PcrOrder fed := by
  rcases v.route_cases pkt with ⟨e, -, hr⟩ | hr | ⟨pat, -, -, -, -, hr⟩ | ⟨-, -, hr⟩ | ⟨-, -, hr⟩ <;>
    rw [hr]
  -- only a packet handed to the demultiplexer reaches a program
  · exact hv
  · exact hv
  · exact hv
  · exact hv
  · exact hv.demux hpkt

/-- The validator step, whatever its outcome. -/
theorem PcrOrder.process (hv : v.PcrOrder fed) {data : List UInt8}
    (hdata : ∀ pkt, TsPacket.parse data = .ok pkt → fed pkt) : (v.process data).1.PcrOrder fed := by
  rcases v.process_cases data with ⟨e, -, hr⟩ |
      ⟨pkt, hparse, hr | ⟨-, -, hr⟩ | ⟨n, pid, -, -, ⟨e, -, hr⟩ | ⟨-, hr⟩⟩ | ⟨-, hr⟩⟩ <;>
    rw [hr]
  · exact hv
  · exact hv
  · exact hv.readPat pkt
  · exact hv.demux (hdata pkt hparse)
  · exact (hv.demux (hdata pkt hparse)).install _
  · exact hv.route (hdata pkt hparse)

theorem PcrOrder.feed (hv : v.PcrOrder fed) {data : List UInt8}
    (hdata : ∀ pkt, TsPacket.parse data = .ok pkt → fed pkt) : (v.feed data).1.PcrOrder fed := by
  have hproc := PcrOrder.process (v := { v with packets := v.packets + 1 }) hv hdata
  -- recording an error changes no program
  rcases v.feed_cases data with ⟨e, -, hr⟩ | ⟨-, hr⟩ <;> rw [hr] <;> exact hproc

/-- Feeds packets in order, stopping after the first that fails. -/
def feedAll (v : Validator) : List (List UInt8) → Validator × Except Error Unit
  | [] => (v, .ok ())
  | data :: rest =>
    match v.feed data with
    | (v, .error e) => (v, .error e)
    | (v, .ok ()) => v.feedAll rest

/-- The packets of a list of transport packets that decode. -/
def Decodes (ds : List (List UInt8)) (pkt : TsPacket) : Prop :=
  ∃ data ∈ ds, TsPacket.parse data = .ok pkt

/-- The run: feeding packets keeps the invariant for the packets fed. -/
theorem pcrOrder_feedAll {all : List (List UInt8)} :
    ∀ (ds : List (List UInt8)) (v : Validator), (∀ data ∈ ds, data ∈ all) →
      v.PcrOrder (Decodes all) → (v.feedAll ds).1.PcrOrder (Decodes all)
  | [], _, _, hv => hv
  | data :: rest, v, hds, hv => by
    have hfeed := hv.feed fun pkt hp => ⟨data, hds data List.mem_cons_self, hp⟩
    simp only [feedAll]
    split
    · rename_i v' e heq
      rw [heq] at hfeed
      exact hfeed
    · rename_i v' heq
      rw [heq] at hfeed
      exact pcrOrder_feedAll rest v' (fun d hd => hds d (List.mem_cons_of_mem _ hd)) hfeed

theorem PcrOrder.finish (hv : v.PcrOrder fed) : v.finish.PcrOrder fed := by
  unfold Validator.finish Stream.finish
  exact pcrOrder_finishPrograms _ _ hv

/-- A handler of the validator has recorded the first coded slice of an IDR picture only in
a program for which one of the packets `ds` carried a PCR on its PCR PID. -/
def IdrAfterPcr (ds : List (List UInt8)) (v : Validator) : Prop :=
  ∀ p ∈ v.stream.programs, ∀ e ∈ p.pids, ∀ h, e.handler = some h → h.sawIdr = true →
    ∃ data ∈ ds, ∃ pkt, TsPacket.parse data = .ok pkt ∧ p.carriesPcr pkt = true

theorem PcrOrder.idrAfterPcr {ds : List (List UInt8)} (hv : v.PcrOrder (Decodes ds)) :
    v.IdrAfterPcr ds := by
  intro p hp e he h hh hidr
  have hpo := hv p hp
  obtain ⟨pkt, ⟨data, hdata, hparse⟩, hc⟩ := hpo.pcrFed ((hpo.handlers e he h hh).sawIdr hidr)
  exact ⟨data, hdata, pkt, hparse, hc⟩

/-- Over every run of feeds from a fresh validator, and again once it is finished, a handler
has recorded the first coded slice of an IDR picture only in a program for which a packet
carrying a PCR on its PCR PID was among the packets fed. Read on each prefix of a run, the
PCR comes at or before the packet whose feed first recorded the slice. -/
theorem idrSlice_after_pcr (t : SegmentType) (x : Bool) (ds : List (List UInt8)) :
    ((Validator.new t x).feedAll ds).1.IdrAfterPcr ds ∧
      ((Validator.new t x).feedAll ds).1.finish.IdrAfterPcr ds := by
  have hrun := pcrOrder_feedAll ds (Validator.new t x) (fun _ h => h) (pcrOrder_new t x)
  exact ⟨hrun.idrAfterPcr, hrun.finish.idrAfterPcr⟩

/-- The PAT, the PMT of program 1 with its PCR and an AVC stream on PID `0x100`, a packet
starting a bounded PES packet whose payload begins with an IDR slice, and the packet that ends
that PES packet, a PCR in its adaptation field. -/
def idrBeforePcr : List (List UInt8) :=
  [[0x47, 0x40, 0x00, 0x10, 0x00, 0x00, 0xb0, 0x0d, 0x00, 0x01, 0xc1, 0x00, 0x00, 0x00, 0x01,
      0xf0, 0x00, 0x2a, 0xb1, 0x04, 0xb2] ++ List.replicate 167 0xff,
   [0x47, 0x50, 0x00, 0x10, 0x00, 0x02, 0xb0, 0x12, 0x00, 0x01, 0xc1, 0x00, 0x00, 0xe1, 0x00,
      0xf0, 0x00, 0x1b, 0xe1, 0x00, 0xf0, 0x00, 0x15, 0xbd, 0x4d, 0x56] ++ List.replicate 162 0xff,
   [0x47, 0x41, 0x00, 0x10, 0x00, 0x00, 0x01, 0xe0, 0x00, 0xbc, 0x84, 0x80, 0x05, 0x21, 0x00,
      0x01, 0x00, 0x01, 0x00, 0x00, 0x00, 0x01, 0x65, 0x88, 0x80] ++ List.replicate 163 0xaa,
   [0x47, 0x01, 0x00, 0x31, 0x07, 0x10, 0x00, 0x00, 0x00, 0x00, 0x00, 0x00] ++
      List.replicate 176 0xbb]

/-- The PCR need not precede the packet carrying the IDR slice: every packet of
`idrBeforePcr` is accepted and the handler records the slice, the third packet carries the
slice's start code and header, and none of the first three carries a PCR. -/
theorem idrSlice_before_pcr :
    ((Validator.new .general).feedAll idrBeforePcr).2 = .ok () ∧
    (((Validator.new .general).feedAll idrBeforePcr).1.stream.programs.any fun p =>
      p.pids.any fun e => e.handler.any (·.sawIdr)) = true ∧
    (((idrBeforePcr.drop 2).head?.bind fun data => (TsPacket.parse data).toOption).any fun pkt =>
      pkt.payload.any fun bytes => decide ([0, 0, 1, 0x65] <:+: bytes)) = true ∧
    ((idrBeforePcr.take 3).all fun data =>
      (TsPacket.parse data).toOption.all (·.pcr.isNone)) = true := by
  decide +kernel

end Validator

end MpegTs
