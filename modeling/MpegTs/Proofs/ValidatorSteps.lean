import MpegTs.Segment.Validator

/-!
# What one packet can do to the validator

This file says once everything a step of the validator can do with one packet, guards
included, so that each invariant of the validator is proved by a case analysis over these
outcomes rather than over the branches of the step's definition.

`Validator.process_cases`: a packet that does not decode fails the step; while awaiting the
PAT, the PAT is read; while awaiting the PMT, a packet on the PMT PID is demultiplexed and,
if that succeeds, the handlers are installed; while streaming, the packet is routed; any other
packet is let through.

`Validator.feed_cases`: a feed counts its packet, checks it, and records an error the check
raises.

`Validator.route_cases`, routing while streaming:

* a PAT that fails to decode fails the step, and leaves the validator as it was;
* a PAT of another version than the known one is remarked on, once;
* a reserved table PID is remarked on at its first sight;
* a packet on a general purpose PID goes to the demultiplexer;
* anything else leaves the validator as it was.

`openHandler_ok`, `openHandler_error`: a handler is opened fresh, copying to the sink its
extractor opened, if any, and fails to open only with the sink's I/O error;
`installHandlers_invariant`: attaching handlers keeps what registering one keeps;
`installHandlers_cons_ok`: what attaching handlers that gets through does with one stream.
-/

namespace MpegTs

/-- A handler is opened fresh: `AvcHandler.new`, copying to the sink the extractor opened when
there is an extractor. -/
theorem openHandler_ok {t : SegmentType} {x : Option Extractor} {pid : Nat} {h : AvcHandler}
    (hh : openHandler t x pid = .ok h) :
    (x = none ∧ h = AvcHandler.new pid t) ∨
      ∃ x' s, x = some x' ∧ x'.openSink pid = .ok s ∧
        h = (AvcHandler.new pid t).withExtraction s := by
  unfold openHandler at hh
  split at hh
  · cases hh
    exact .inl ⟨rfl, rfl⟩
  · rename_i x'
    split at hh
    · cases hh
    · rename_i s hs
      cases hh
      exact .inr ⟨x', s, rfl, hs, rfl⟩

/-- A handler fails to open only when its sink does not, an I/O error. -/
theorem openHandler_error {t : SegmentType} {x : Option Extractor} {pid : Nat} {e : Error}
    (hh : openHandler t x pid = .error e) : ∃ reason, e = .io reason := by
  unfold openHandler at hh
  split at hh
  · cases hh
  · split at hh
    · cases hh
      exact ⟨_, rfl⟩
    · cases hh

/-- Whatever its outcome, attaching handlers leaves a program with every property that
registering an opened handler keeps. -/
theorem installHandlers_invariant {t : SegmentType} {x : Option Extractor} (P : Program → Prop)
    (hreg : ∀ {p p' : Program} {pid : Nat} {h : AvcHandler}, openHandler t x pid = .ok h →
      p.register pid h = .ok p' → P p → P p') :
    ∀ (d : Diagnostics) (p : Program) (streams : List EsInfo), P p →
      P (installHandlers t x d p streams).1
  | _, _, [], hp => hp
  | d, p, es :: rest, hp => by
    unfold installHandlers
    split
    · exact hp
    split
    · exact installHandlers_invariant P hreg _ p rest hp
    split
    · exact hp
    rename_i h hopen
    split
    · exact hp
    · rename_i p' hr
      exact installHandlers_invariant P hreg d p' rest (hreg hopen hr hp)

/-- The first stream of a PMT that attaching handlers gets through: it is no media stream in
an initialization segment; a stream that is not AVC is warned about, an AVC stream gets an
opened handler registered; and the rest gets through after it. -/
theorem installHandlers_cons_ok {t : SegmentType} {x : Option Extractor} {d d' : Diagnostics}
    {p p' : Program} {es : EsInfo} {rest : List EsInfo}
    (h : installHandlers t x d p (es :: rest) = (p', d', .ok ())) :
    (t = .initialization → isMediaStreamType es.streamType = false) ∧
      ((es.streamType ≠ avcStreamType ∧
          installHandlers t x (d.warn (noHandlerWarning es.streamType es.pid)) p rest =
            (p', d', .ok ())) ∨
        (es.streamType = avcStreamType ∧ ∃ hd p₁, openHandler t x es.pid = .ok hd ∧
          p.register es.pid hd = .ok p₁ ∧ installHandlers t x d p₁ rest = (p', d', .ok ()))) := by
  unfold installHandlers at h
  split at h
  · simp at h
  rename_i hmedia
  refine ⟨fun ht => by simpa [ht] using hmedia, ?_⟩
  split at h
  · rename_i havc
    exact .inl ⟨havc, h⟩
  · rename_i havc
    split at h
    · simp at h
    rename_i hd hopen
    split at h
    · simp at h
    rename_i p₁ hreg
    exact .inr ⟨Decidable.of_not_not havc, hd, p₁, hopen, hreg, h⟩

namespace Validator

/-- The outcomes of routing one packet while streaming. -/
theorem route_cases (v : Validator) (pkt : TsPacket) :
    (∃ e, patOf pkt = .error e ∧ v.route pkt = (v, .error e)) ∨
    v.route pkt = (v, .ok ()) ∨
    (∃ pat : PatSection, pkt.pid = patPid ∧ patOf pkt = .ok (some pat) ∧
      v.stream.pat.map (·.version) ≠ some pat.version ∧ v.warnedPatVersion = false ∧
      v.route pkt =
        ({ v with warnedPatVersion := true
                  diagnostics := v.diagnostics.warn (patVersionWarning pat.version) }, .ok ())) ∨
    ((pkt.pid = 1 ∨ pkt.pid = 2 ∨ pkt.pid = 3) ∧ pkt.pid ∉ v.warnedPids ∧
      v.route pkt =
        ({ v with warnedPids := v.warnedPids ++ [pkt.pid]
                  diagnostics := v.diagnostics.warn (reservedPidWarning pkt.pid) }, .ok ())) ∨
    (0x10 ≤ pkt.pid ∧ pkt.pid ≠ nullPid ∧ v.route pkt = v.demux pkt) := by
  -- one equation for the step, split along the branches of its definition
  generalize hr : v.route pkt = r
  unfold route at hr
  dsimp only at hr
  split at hr
  · -- the PAT PID
    rename_i hpat
    split at hr
    · rename_i e he
      exact .inl ⟨e, he, hr.symm⟩
    · exact .inr (.inl hr.symm)
    · rename_i pat hp
      split at hr
      · rename_i hcond
        simp only [Bool.not_eq_true'] at hcond
        exact .inr (.inr (.inl ⟨pat, hpat, hp, hcond.1, hcond.2, hr.symm⟩))
      · exact .inr (.inl hr.symm)
  split at hr
  · -- a reserved table PID
    rename_i hpid
    split at hr
    · exact .inr (.inl hr.symm)
    · rename_i hnew
      exact .inr (.inr (.inr (.inl ⟨hpid, by simpa using hnew, hr.symm⟩)))
  split at hr
  · exact .inr (.inl hr.symm)
  · -- a general purpose PID
    rename_i hpat hres hlow
    simp only [patPid] at hpat
    exact .inr (.inr (.inr (.inr ⟨by omega, by omega, hr.symm⟩)))

/-- The outcomes of checking one packet, by the phase. -/
theorem process_cases (v : Validator) (data : List UInt8) :
    (∃ e, TsPacket.parse data = .error e ∧ v.process data = (v, .error e)) ∨
    ∃ pkt, TsPacket.parse data = .ok pkt ∧
      (v.process data = (v, .ok ()) ∨
        (v.phase = .awaitingPat ∧ pkt.pid = patPid ∧ v.process data = v.readPat pkt) ∨
        (∃ n pid, v.phase = .awaitingPmt n pid ∧ pkt.pid = pid ∧
          ((∃ e, (v.demux pkt).2 = .error e ∧ v.process data = v.demux pkt) ∨
            ((v.demux pkt).2 = .ok () ∧ v.process data = (v.demux pkt).1.install n))) ∨
        (v.phase = .streaming ∧ v.process data = v.route pkt)) := by
  generalize hr : v.process data = r
  unfold process at hr
  split at hr
  · rename_i e he
    exact .inl ⟨e, he, hr.symm⟩
  rename_i pkt hpkt
  refine .inr ⟨pkt, hpkt, ?_⟩
  split at hr
  · rename_i hph
    split at hr
    · rename_i hpid
      exact .inr (.inl ⟨hph, hpid, hr.symm⟩)
    · exact .inl hr.symm
  · rename_i n pid hph
    split at hr
    · -- the PMT PID: the demultiplexer's outcome decides
      rename_i hpid
      split at hr
      · rename_i v₁ e hdemux
        refine .inr (.inr (.inl ⟨n, pid, hph, hpid, .inl ⟨e, by rw [hdemux], ?_⟩⟩))
        rw [← hr, hdemux]
      · rename_i v₁ hdemux
        refine .inr (.inr (.inl ⟨n, pid, hph, hpid, .inr ⟨by rw [hdemux], ?_⟩⟩))
        rw [← hr, hdemux]
    · exact .inl hr.symm
  · rename_i hph
    exact .inr (.inr (.inr ⟨hph, hr.symm⟩))

/-- A feed checks its packet, counted, and records an error the check raises. -/
theorem feed_cases (v : Validator) (data : List UInt8) :
    (∃ e, ({ v with packets := v.packets + 1 }.process data).2 = .error e ∧
      v.feed data =
        ({ ({ v with packets := v.packets + 1 }.process data).1 with
            diagnostics :=
              ({ v with packets := v.packets + 1 }.process data).1.diagnostics.record e },
          .error e)) ∨
    (({ v with packets := v.packets + 1 }.process data).2 = .ok () ∧
      v.feed data = { v with packets := v.packets + 1 }.process data) := by
  generalize hr : v.feed data = r
  unfold feed at hr
  split at hr
  · rename_i v₁ e hproc
    refine .inl ⟨e, by rw [hproc], ?_⟩
    rw [← hr, hproc]
  · rename_i v₁ hproc
    exact .inr ⟨by rw [hproc], by rw [← hr, hproc]⟩

/-- A feed succeeds exactly when the check of its packet, counted, does, and leaves what the
check leaves. -/
theorem feed_eq_ok {v v' : Validator} {data : List UInt8} :
    v.feed data = (v', .ok ()) ↔
      { v with packets := v.packets + 1 }.process data = (v', .ok ()) := by
  rcases v.feed_cases data with ⟨e, he, hr⟩ | ⟨-, hr⟩ <;> rw [hr]
  · -- the check failed, so neither side holds
    refine ⟨fun h => ?_, fun h => ?_⟩
    · cases h
    · rw [h] at he
      cases he

end Validator

end MpegTs
