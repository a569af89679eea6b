import MpegTs.Avc.Handler
import Mathlib.Control.Monad.Basic

/-!
# The SAP type 1/2 check is a language over NAL units

In a segment that must start with a SAP of type 1 or 2, an AVC handler checks the NAL units
of the PES payloads it completes, one unit at a time. This file shows that the check sees
only the sequence of NAL units, whatever PES packets carry them (`processAll_eq_processNals`),
and that on that sequence it decides a plain language (`breaksSapOrder`): before the first IDR
slice there is no non-IDR slice, no second access unit delimiter, and the first delimiter
announces an I picture. The check fails at the first unit that breaks the language, naming the
requirement it breaks (`SapFaultAt`); otherwise its final stage records whether an IDR slice
or a delimiter was seen (`sapStageAfter`).

The proof keeps one invariant along the units: the stage is `sapStageAfter` of the units seen,
and they do not break the order. `advance_sapStageAfter` is the step, `processNals_sap` the run.

## Main statements

* `AvcHandler.processAll_eq_processNals`: packetisation does not matter.
* `advance_sapStageAfter`: one unit moves the stage on as the language says.
* `AvcHandler.sap_check_language`: the check on PES payloads, in SAP and in general mode.
-/

namespace MpegTs

/-! ## The language -/

namespace NalUnit

/-- A coded slice of a non-IDR picture or of an auxiliary picture. -/
def isNonIdrSlice (n : NalUnit) : Bool :=
  n.nalType == nalTypeNonIdrSlice || n.nalType == nalTypeAuxSlice

/-- A decoded unit carries a primary picture type exactly when it is a delimiter. -/
theorem primaryPicType_isSome_of_parse {raw : List UInt8} {n : NalUnit}
    (h : parse raw = .ok n) : n.primaryPicType.isSome = n.isDelimiter := by
  cases raw with
  | nil => simp [parse] at h
  | cons header body =>
    simp only [parse] at h
    split at h
    · cases h
    · split at h
      · rename_i hdelim
        cases body with
        | nil => simp [Except.map] at h
        | cons b _ =>
          simp only [Except.map, Except.ok.injEq] at h
          subst h
          simp [primaryPicType, isDelimiter, hdelim]
      · rename_i hdelim
        split at h
        · cases hs : SliceHeader.ofBody (header.toNat % 32) body with
          | error e => simp [hs, Functor.map, Except.map] at h
          | ok sh =>
            simp only [hs, Functor.map, Except.map, Except.ok.injEq] at h
            subst h
            simp [primaryPicType, isDelimiter, hdelim]
        · simp only [Except.map, Except.ok.injEq] at h
          subst h
          simp [primaryPicType, isDelimiter, hdelim]

end NalUnit

/-- The NAL units before the first IDR slice, all of them when there is none. -/
def beforeIdr (ns : List NalUnit) : List NalUnit := ns.takeWhile (!·.isIdrSlice)

/-- The first delimiter of the units announces a primary picture type that allows no I
picture. -/
def firstDelimiterNotIntra (ns : List NalUnit) : Bool :=
  match (ns.find? (·.isDelimiter)).bind (·.primaryPicType) with
  | some t => !isIntraPrimaryPicType t
  | none => false

/-- Units ahead of any IDR slice that break the start of a SAP of type 1 or 2: a non-IDR
slice, a second delimiter, or a first delimiter that announces no I picture. -/
def orderFault (pre : List NalUnit) : Bool :=
  pre.any (·.isNonIdrSlice) || 2 ≤ pre.countP (·.isDelimiter) || firstDelimiterNotIntra pre

/-- A NAL unit sequence breaks the start of a SAP of type 1 or 2. -/
def breaksSapOrder (ns : List NalUnit) : Bool := orderFault (beforeIdr ns)

/-- The stage a checker that accepted the units is in: an IDR slice seen, else a delimiter
seen, else neither. -/
def sapStageAfter (ns : List NalUnit) : SapStage :=
  if ns.any (·.isIdrSlice) then .sawIdrSlice
  else if ns.any (·.isDelimiter) then .sawFirstDelimiter
  else .sawNeither

/-- The requirement that the unit `n`, after the units `pre`, breaks. -/
inductive SapFaultAt (pre : List NalUnit) (n : NalUnit) : SapFault → Prop
  | nonIdrSlice : n.isNonIdrSlice = true → SapFaultAt pre n (.nonIdrSlice n.nalType)
  | secondDelimiter : n.isDelimiter = true → pre.any (·.isDelimiter) = true →
      SapFaultAt pre n .secondDelimiter
  | firstDelimiterNotIntra {t : Nat} : n.primaryPicType = some t →
      isIntraPrimaryPicType t = false → pre.any (·.isDelimiter) = false →
      SapFaultAt pre n (.firstDelimiterNotIntra t)

namespace NalUnit

theorem isDelimiter_of_isIdrSlice {n : NalUnit} (h : n.isIdrSlice = true) :
    n.isDelimiter = false := by
  simp only [isIdrSlice, isDelimiter, beq_iff_eq] at h ⊢
  simp [h, nalTypeIdrSlice, nalTypeDelimiter]

theorem isNonIdrSlice_of_isDelimiter {n : NalUnit} (h : n.isDelimiter = true) :
    n.isNonIdrSlice = false := by
  simp only [isDelimiter, isNonIdrSlice, beq_iff_eq] at h ⊢
  simp [h, nalTypeDelimiter, nalTypeNonIdrSlice, nalTypeAuxSlice]

end NalUnit

/-! ### Units before the first IDR slice -/

theorem beforeIdr_append_of_idr {xs : List NalUnit} (ys : List NalUnit)
    (h : xs.any (·.isIdrSlice) = true) : beforeIdr (xs ++ ys) = beforeIdr xs := by
  induction xs with
  | nil => simp at h
  | cons x xs ih =>
    by_cases hx : x.isIdrSlice = true
    · simp [beforeIdr, hx]
    · have htail : xs.any (·.isIdrSlice) = true := by simpa [hx] using h
      have hrest := ih htail
      simp only [beforeIdr] at hrest
      simp [beforeIdr, hx, hrest]

theorem beforeIdr_append_of_no_idr {xs : List NalUnit} (ys : List NalUnit)
    (h : xs.any (·.isIdrSlice) = false) : beforeIdr (xs ++ ys) = xs ++ beforeIdr ys := by
  have hall : ∀ x ∈ xs, (!x.isIdrSlice) = true := by simpa using h
  exact List.takeWhile_append_of_pos hall

/-- Before the first IDR slice come the units before it so far, and nothing once it is seen. -/
theorem beforeIdr_append (xs ys : List NalUnit) :
    ∃ zs, beforeIdr (xs ++ ys) = beforeIdr xs ++ zs := by
  cases h : xs.any (·.isIdrSlice)
  · have hxs : beforeIdr xs = xs := by
      simpa [beforeIdr] using beforeIdr_append_of_no_idr [] h
    exact ⟨beforeIdr ys, by rw [beforeIdr_append_of_no_idr ys h, hxs]⟩
  · exact ⟨[], by rw [beforeIdr_append_of_idr ys h, List.append_nil]⟩

theorem firstDelimiterNotIntra_append {xs : List NalUnit} (ys : List NalUnit)
    (h : xs.any (·.isDelimiter) = true) :
    firstDelimiterNotIntra (xs ++ ys) = firstDelimiterNotIntra xs := by
  obtain ⟨d, hd⟩ : ∃ d, xs.find? (·.isDelimiter) = some d := by
    cases hf : xs.find? (·.isDelimiter) with
    | none =>
      obtain ⟨x, hx, hd⟩ := List.any_eq_true.1 h
      simp [List.find?_eq_none.1 hf x hx] at hd
    | some d => exact ⟨d, rfl⟩
  simp [firstDelimiterNotIntra, List.find?_append, hd]

/-- A broken order stays broken whatever follows. -/
theorem orderFault_append {xs : List NalUnit} (ys : List NalUnit) (h : orderFault xs = true) :
    orderFault (xs ++ ys) = true := by
  simp only [orderFault, Bool.or_eq_true, decide_eq_true_eq] at h ⊢
  rcases h with (hnon | hcount) | hfirst
  · exact Or.inl (Or.inl (by simp [hnon]))
  · exact Or.inl (Or.inr (by simp only [List.countP_append]; omega))
  · -- a first delimiter stays the first one
    have hdelim : xs.any (·.isDelimiter) = true := by
      cases hf : xs.find? (·.isDelimiter) with
      | none => simp [firstDelimiterNotIntra, hf] at hfirst
      | some d =>
        have := List.find?_some hf
        exact List.any_eq_true.2 ⟨d, List.mem_of_find?_eq_some hf, this⟩
    exact Or.inr (by rw [firstDelimiterNotIntra_append ys hdelim]; exact hfirst)

theorem breaksSapOrder_append {xs : List NalUnit} (ys : List NalUnit)
    (h : breaksSapOrder xs = true) : breaksSapOrder (xs ++ ys) = true := by
  obtain ⟨zs, hzs⟩ := beforeIdr_append xs ys
  rw [breaksSapOrder, hzs]
  exact orderFault_append zs h

/-! ### One unit -/

theorem advance_sawIdrSlice (n : NalUnit) : SapStage.sawIdrSlice.advance n = .ok .sawIdrSlice := by
  unfold SapStage.advance
  cases n.primaryPicType <;> rfl

/-- Before an IDR slice, a unit that is not a first delimiter is checked by its type. -/
theorem advance_open {s : SapStage} {n : NalUnit} (hs : s ≠ .sawIdrSlice)
    (hppt : s = .sawNeither → n.primaryPicType = none) :
    s.advance n =
      if n.isIdrSlice then .ok .sawIdrSlice
      else if n.isDelimiter then .error (.sapViolation .secondDelimiter)
      else if n.isNonIdrSlice then .error (.sapViolation (.nonIdrSlice n.nalType))
      else .ok s := by
  cases s with
  | sawIdrSlice => exact absurd rfl hs
  | sawNeither =>
    unfold SapStage.advance
    rw [hppt rfl]
    simp [NalUnit.isIdrSlice, NalUnit.isDelimiter, NalUnit.isNonIdrSlice]
  | sawFirstDelimiter =>
    unfold SapStage.advance
    cases n.primaryPicType <;> simp [NalUnit.isIdrSlice, NalUnit.isDelimiter, NalUnit.isNonIdrSlice]

/-- A first delimiter is checked by its primary picture type. -/
theorem advance_sawNeither_of_primaryPicType {n : NalUnit} {t : Nat}
    (h : n.primaryPicType = some t) :
    SapStage.sawNeither.advance n =
      if isIntraPrimaryPicType t then .ok .sawFirstDelimiter
      else .error (.sapViolation (.firstDelimiterNotIntra t)) := by
  unfold SapStage.advance
  rw [h]

/-- The step of the invariant: after units that keep the order, in the stage they lead to, one
more decoded unit either keeps the order and moves the stage on as `sapStageAfter` says, or
breaks it, and the check fails naming the requirement it breaks. -/
theorem advance_sapStageAfter {seen : List NalUnit} {n : NalUnit}
    (hseen : breaksSapOrder seen = false) (hn : n.primaryPicType.isSome = n.isDelimiter) :
    (breaksSapOrder (seen ++ [n]) = false ∧
        (sapStageAfter seen).advance n = .ok (sapStageAfter (seen ++ [n]))) ∨
      (breaksSapOrder (seen ++ [n]) = true ∧
        ∃ f, SapFaultAt seen n f ∧ (sapStageAfter seen).advance n = .error (.sapViolation f)) := by
  by_cases hidr : seen.any (·.isIdrSlice) = true
  · -- after an IDR slice nothing is checked
    have hb : beforeIdr (seen ++ [n]) = beforeIdr seen := beforeIdr_append_of_idr [n] hidr
    have hst : sapStageAfter seen = .sawIdrSlice := by simp [sapStageAfter, hidr]
    have hst' : sapStageAfter (seen ++ [n]) = .sawIdrSlice := by simp [sapStageAfter, hidr]
    refine Or.inl ⟨?_, ?_⟩
    · rw [breaksSapOrder, hb]
      exact hseen
    · rw [hst, hst', advance_sawIdrSlice]
  have hnoidr : seen.any (·.isIdrSlice) = false := by simpa using hidr
  have hb₀ : beforeIdr seen = seen := by
    simpa [beforeIdr] using beforeIdr_append_of_no_idr [] hnoidr
  -- what the units seen so far do not break
  have hok : orderFault seen = false := by rw [← hb₀]; exact hseen
  simp only [orderFault, Bool.or_eq_false_iff, decide_eq_false_iff_not, Nat.not_le] at hok
  obtain ⟨⟨hnon, hcount⟩, hfirst⟩ := hok
  have hne : sapStageAfter seen ≠ .sawIdrSlice := by
    simp only [sapStageAfter, hnoidr, Bool.false_eq_true, if_false]
    cases seen.any (·.isDelimiter) <;> simp
  by_cases hnidr : n.isIdrSlice = true
  · -- the first IDR slice: the order is kept for good
    have hdelim := NalUnit.isDelimiter_of_isIdrSlice hnidr
    have hppt : n.primaryPicType = none := by simpa [hdelim] using hn
    have hb : beforeIdr (seen ++ [n]) = seen := by
      rw [beforeIdr_append_of_no_idr [n] hnoidr]
      simp [beforeIdr, hnidr]
    refine Or.inl ⟨by rw [breaksSapOrder, hb, ← hb₀]; exact hseen, ?_⟩
    rw [advance_open hne (fun _ => hppt)]
    simp [hnidr, sapStageAfter]
  have hnidr' : n.isIdrSlice = false := by simpa using hnidr
  have hb : beforeIdr (seen ++ [n]) = seen ++ [n] := by
    rw [beforeIdr_append_of_no_idr [n] hnoidr]
    simp [beforeIdr, hnidr']
  by_cases hdelim : n.isDelimiter = true
  · obtain ⟨t, ht⟩ := Option.isSome_iff_exists.1 (hn.trans hdelim)
    have hnon' := NalUnit.isNonIdrSlice_of_isDelimiter hdelim
    by_cases hsd : seen.any (·.isDelimiter) = true
    · -- a second delimiter
      have hpos : 0 < seen.countP (·.isDelimiter) := List.countP_pos_iff.2 (List.any_eq_true.1 hsd)
      have hst : sapStageAfter seen = .sawFirstDelimiter := by simp [sapStageAfter, hnoidr, hsd]
      refine Or.inr ⟨?_, _, .secondDelimiter hdelim hsd, ?_⟩
      · have hcnt : 2 ≤ (seen ++ [n]).countP (·.isDelimiter) := by
          rw [List.countP_append]
          simp only [List.countP_singleton, hdelim, if_true]
          omega
        simp only [breaksSapOrder, hb, orderFault, Bool.or_eq_true, decide_eq_true_eq]
        exact Or.inl (Or.inr hcnt)
      · rw [advance_open hne (by simp [hst]), hst]
        simp [hnidr', hdelim]
    · -- the first delimiter: it must announce an I picture
      have hsd' : seen.any (·.isDelimiter) = false := by simpa using hsd
      have hst : sapStageAfter seen = .sawNeither := by simp [sapStageAfter, hnoidr, hsd']
      have hnone : seen.find? (·.isDelimiter) = none := by
        simpa [List.find?_eq_none] using hsd'
      have hcount0 : seen.countP (·.isDelimiter) = 0 := List.countP_eq_zero.2 (by simpa using hsd')
      have hfault : orderFault (seen ++ [n]) = !isIntraPrimaryPicType t := by
        simp [orderFault, firstDelimiterNotIntra, List.find?_append, hnone, hdelim, ht, hnon,
          hnon', hcount0]
      rw [hst, advance_sawNeither_of_primaryPicType ht]
      cases hintra : isIntraPrimaryPicType t
      · exact Or.inr ⟨by rw [breaksSapOrder, hb, hfault, hintra]; rfl, _,
          .firstDelimiterNotIntra ht hintra hsd', rfl⟩
      · refine Or.inl ⟨by rw [breaksSapOrder, hb, hfault, hintra]; rfl, ?_⟩
        simp [sapStageAfter, hnoidr, hnidr', hdelim]
  · -- any other unit is checked by its type
    have hdelim' : n.isDelimiter = false := by simpa using hdelim
    have hppt : n.primaryPicType = none := by simpa [hdelim'] using hn
    rw [advance_open hne (fun _ => hppt)]
    by_cases hnon' : n.isNonIdrSlice = true
    · refine Or.inr ⟨?_, _, .nonIdrSlice hnon', by simp [hnidr', hdelim', hnon']⟩
      simp [breaksSapOrder, hb, orderFault, hnon']
    · have hnon'' : n.isNonIdrSlice = false := by simpa using hnon'
      refine Or.inl ⟨?_, by simp [hnidr', hdelim', hnon'', sapStageAfter]⟩
      have hfirst' : firstDelimiterNotIntra (seen ++ [n]) = firstDelimiterNotIntra seen := by
        simp [firstDelimiterNotIntra, List.find?_append, hdelim']
      simp [breaksSapOrder, hb, orderFault, hnon, hnon'', hdelim', hfirst', hfirst, hcount]

namespace AvcHandler

/-! ## Only the NAL units count -/

/-- Extraction and checking touch different fields of a handler. -/
theorem processNals_appendCopy (s : Bool) (data : List UInt8) :
    ∀ (raws : List (List UInt8)) (h : AvcHandler),
      (h.appendCopy data).processNals s raws =
        ((h.processNals s raws).1.appendCopy data, (h.processNals s raws).2)
  | [], h => rfl
  | raw :: rest, ⟨pid, mode, asm, stage, idr, prev, pcr, sink, ext⟩ => by
    dsimp only [processNals, appendCopy]
    cases NalUnit.parse raw with
    | error e => rfl
    | ok nal =>
      dsimp only
      cases (if mode = .sap12 then stage.advance nal else .ok stage) with
      | error e => rfl
      | ok stage' =>
        dsimp only
        split
        · rfl
        · exact processNals_appendCopy s data rest ⟨pid, mode, asm, stage', idr || nal.isIdrSlice,
            some nal, pcr, sink, ext⟩

/-- Checking a sequence of units is checking its first part, then, if that passed, the rest. -/
theorem processNals_append (s : Bool) :
    ∀ (xs ys : List (List UInt8)) (h : AvcHandler),
      h.processNals s (xs ++ ys) =
        match h.processNals s xs with
        | (h', .error e) => (h', .error e)
        | (h', .ok ()) => h'.processNals s ys
  | [], ys, h => rfl
  | raw :: rest, ys, h => by
    simp only [List.cons_append, processNals]
    cases NalUnit.parse raw with
    | error e => rfl
    | ok nal =>
      simp only
      split
      · rfl
      · split
        · rfl
        · exact processNals_append s rest ys _

/-- A PES payload that holds NAL units, given to a handler whose sink takes its writes, is
extracted and its units checked. -/
theorem processPes_eq {h : AvcHandler} {pes : CompletedPes} (s : Bool) (hs : h.sink.Accepts)
    (hne : nalUnits pes.data ≠ []) :
    h.processPes pes s =
      ((h.processNals s (nalUnits pes.data)).1.appendCopy pes.data,
        (h.processNals s (nalUnits pes.data)).2) := by
  have hempty : (nalUnits pes.data).isEmpty = false := List.isEmpty_eq_false_iff.2 hne
  simp only [processPes, extract_of_accepts hs, processNals_appendCopy]
  cases (h.processNals s (nalUnits pes.data)).2 with
  | error e => rfl
  | ok u => simp [hempty]

/-- The check of PES payloads that each hold a NAL unit, by a handler whose sink takes its
writes, is the check of all their units in order: the outcome and every field but the
extraction agree. -/
theorem processAll_eq_processNals (s : Bool) :
    ∀ (pess : List CompletedPes) (h : AvcHandler), h.sink.Accepts →
      (∀ pes ∈ pess, nalUnits pes.data ≠ []) →
      (h.processAll s pess).2 =
          (h.processNals s (pess.flatMap fun pes => nalUnits pes.data)).2 ∧
        ∃ x, (h.processAll s pess).1 =
          { (h.processNals s (pess.flatMap fun pes => nalUnits pes.data)).1 with extracted := x }
  | [], h, _, _ => ⟨rfl, h.extracted, rfl⟩
  | pes :: rest, h, hs, hunits => by
    have hpes := processPes_eq (h := h) s hs (hunits pes (List.mem_cons_self ..))
    have hsink := (processNals_keeps s (nalUnits pes.data) h).2.1
    have happ := processNals_append s (nalUnits pes.data)
      (rest.flatMap fun pes => nalUnits pes.data) h
    -- the units of the first payload are checked first; a fault there ends the check
    cases hfirst : h.processNals s (nalUnits pes.data) with
    | mk h₁ r =>
      rw [hfirst] at hpes happ hsink
      cases r with
      | error e =>
        simp only at happ
        refine ⟨by simp only [processAll, hpes, List.flatMap_cons, happ],
          (h₁.appendCopy pes.data).extracted, ?_⟩
        simp only [processAll, hpes, List.flatMap_cons, happ]
        rfl
      | ok u =>
        simp only at happ hsink
        obtain ⟨hres, x, hstate⟩ :=
          processAll_eq_processNals s rest (h₁.appendCopy pes.data) (hsink ▸ hs)
            (fun p hp => hunits p (List.mem_cons_of_mem _ hp))
        rw [processNals_appendCopy] at hres hstate
        simp only [processAll, hpes, List.flatMap_cons, happ]
        exact ⟨hres, x, by rw [hstate]; rfl⟩

/-! ## Checking decoded units -/

/-- A run of decodes that succeeds decodes its first element and then the rest. -/
theorem mapM_parse_cons {raw : List UInt8} {rest : List (List UInt8)} {ns : List NalUnit}
    (h : (raw :: rest).mapM NalUnit.parse = .ok ns) :
    ∃ n ns', NalUnit.parse raw = .ok n ∧ rest.mapM NalUnit.parse = .ok ns' ∧ ns = n :: ns' := by
  rw [List.mapM_cons] at h
  cases hraw : NalUnit.parse raw with
  | error e => simp [hraw, bind, Except.bind] at h
  | ok n =>
    cases hrest : rest.mapM NalUnit.parse with
    | error e => simp [hraw, hrest, bind, Except.bind] at h
    | ok ns' =>
      simp only [hraw, hrest, bind, Except.bind, pure, Except.pure, Except.ok.injEq] at h
      exact ⟨n, ns', rfl, rfl, h.symm⟩

/-- With a PCR seen, a decoded unit in SAP mode is the stage check, then the bookkeeping. -/
theorem processNals_cons_sap {h : AvcHandler} {raw : List UInt8} {rest : List (List UInt8)}
    {n : NalUnit} (hmode : h.segmentType = .sap12) (hp : NalUnit.parse raw = .ok n) :
    h.processNals true (raw :: rest) =
      match h.sapStage.advance n with
      | .error e => (h, .error e)
      | .ok stage =>
        { h with sapStage := stage, sawIdr := h.sawIdr || n.isIdrSlice, prevNal := some n }.processNals
          true rest := by
  simp only [processNals, hp, hmode, if_true]
  cases h.sapStage.advance n with
  | error e => rfl
  | ok stage => simp

/-- With a PCR seen, a decoded unit outside SAP mode is only bookkeeping. -/
theorem processNals_cons_general {h : AvcHandler} {raw : List UInt8} {rest : List (List UInt8)}
    {n : NalUnit} (hmode : h.segmentType ≠ .sap12) (hp : NalUnit.parse raw = .ok n) :
    h.processNals true (raw :: rest) =
      { h with sawIdr := h.sawIdr || n.isIdrSlice, prevNal := some n }.processNals true rest := by
  simp [processNals, hp, hmode]

/-- The run: from a stage that follows units keeping the order, checking units that decode
either keeps the order over all of them, ending in the stage they lead to, or fails at the
first unit that breaks it, naming the requirement, with the units before it processed. -/
theorem processNals_sap :
    ∀ (raws : List (List UInt8)) (h : AvcHandler) (seen ns : List NalUnit),
      h.segmentType = .sap12 → h.sapStage = sapStageAfter seen → breaksSapOrder seen = false →
      raws.mapM NalUnit.parse = .ok ns →
      (breaksSapOrder (seen ++ ns) = false ∧ (h.processNals true raws).2 = .ok () ∧
          (h.processNals true raws).1.sapStage = sapStageAfter (seen ++ ns)) ∨
        ∃ pre n post f, ns = pre ++ n :: post ∧ breaksSapOrder (seen ++ pre) = false ∧
          breaksSapOrder (seen ++ pre ++ [n]) = true ∧ SapFaultAt (seen ++ pre) n f ∧
          (h.processNals true raws).2 = .error (.sapViolation f) ∧
          (h.processNals true raws).1.prevNal = pre.getLast?.or h.prevNal
  | [], h, seen, ns, _, hstage, hseen, hparse => by
    have hns : ns = [] := by simpa [pure, Except.pure] using hparse.symm
    subst hns
    exact Or.inl ⟨by simpa using hseen, rfl, by simpa [processNals] using hstage⟩
  | raw :: rest, h, seen, ns, hmode, hstage, hseen, hparse => by
    obtain ⟨n, ns', hp, hrest, rfl⟩ := mapM_parse_cons hparse
    have hn := NalUnit.primaryPicType_isSome_of_parse hp
    rw [processNals_cons_sap hmode hp, hstage]
    rcases advance_sapStageAfter hseen hn with ⟨hkeep, hadv⟩ | ⟨hbreak, f, hf, hadv⟩
    · -- the unit keeps the order: go on with it among the units seen
      rw [hadv]
      rcases processNals_sap rest
          { h with sapStage := sapStageAfter (seen ++ [n]), sawIdr := h.sawIdr || n.isIdrSlice,
                   prevNal := some n }
          (seen ++ [n]) ns' hmode rfl hkeep hrest with
        ⟨hkeep', hres, hstage'⟩ | ⟨pre, m, post, f, hns', hpre, hbreak, hf, hres, hprev⟩
      · simp only [List.append_assoc, List.singleton_append] at hkeep' hstage'
        exact Or.inl ⟨hkeep', hres, hstage'⟩
      · refine Or.inr ⟨n :: pre, m, post, f, by rw [hns']; rfl, ?_, ?_, ?_, hres, ?_⟩
        · simpa using hpre
        · simpa using hbreak
        · simpa using hf
        · rw [hprev, List.getLast?_cons]
          cases pre.getLast? <;> rfl
    · -- the unit breaks the order: the check fails here
      rw [hadv]
      exact Or.inr ⟨[], n, ns', f, rfl, by simpa using hseen, by simpa using hbreak,
        by simpa using hf, rfl, rfl⟩

/-- Outside SAP mode, with a PCR seen, units that decode pass. -/
theorem processNals_general :
    ∀ (raws : List (List UInt8)) (h : AvcHandler) (ns : List NalUnit),
      h.segmentType ≠ .sap12 → raws.mapM NalUnit.parse = .ok ns →
      (h.processNals true raws).2 = .ok ()
  | [], _, _, _, _ => rfl
  | raw :: rest, h, ns, hmode, hparse => by
    obtain ⟨n, ns', hp, hrest, rfl⟩ := mapM_parse_cons hparse
    rw [processNals_cons_general hmode hp]
    exact processNals_general rest _ ns' hmode hrest

/-- The SAP type 1/2 check is a language over the decoded units, whatever the packetisation.
For a handler that has seen no delimiter or IDR slice, whose sink (if it extracts) takes
every write, with the PCR seen, checking payloads that each hold a unit, whose units all decode
to ns:

* the outcome is that of checking the units one after the other;
* in SAP mode a violation is raised exactly when ns breaks the order; without one the stage is
  the one ns leads to, and with one it is raised at the first unit that breaks the order, for
  the requirement that unit fails, the units before it processed;
* outside SAP mode the check passes. -/
theorem sap_check_language (h : AvcHandler) (pess : List CompletedPes) (ns : List NalUnit)
    (hsink : h.sink.Accepts) (hstage : h.sapStage = .sawNeither)
    (hunits : ∀ pes ∈ pess, nalUnits pes.data ≠ [])
    (hparse : (pess.flatMap fun pes => nalUnits pes.data).mapM NalUnit.parse = .ok ns) :
    (h.processAll true pess).2 = (h.processNals true (pess.flatMap fun pes => nalUnits pes.data)).2 ∧
    (h.segmentType = .sap12 →
      ((∃ f, (h.processAll true pess).2 = .error (.sapViolation f)) ↔ breaksSapOrder ns = true) ∧
      (breaksSapOrder ns = false → (h.processAll true pess).2 = .ok () ∧
        (h.processAll true pess).1.sapStage = sapStageAfter ns) ∧
      (breaksSapOrder ns = true → ∃ pre n post f, ns = pre ++ n :: post ∧
        breaksSapOrder pre = false ∧ breaksSapOrder (pre ++ [n]) = true ∧ SapFaultAt pre n f ∧
        (h.processAll true pess).2 = .error (.sapViolation f) ∧
        (h.processAll true pess).1.prevNal = pre.getLast?.or h.prevNal)) ∧
    (h.segmentType = .general → (h.processAll true pess).2 = .ok ()) := by
  obtain ⟨hres, x, hst⟩ := processAll_eq_processNals true pess h hsink hunits
  refine ⟨hres, fun hmode => ?_, fun hmode => ?_⟩
  · -- from the start no unit has been seen, and the empty prefix keeps the order
    have hstart : h.sapStage = sapStageAfter [] := by rw [hstage]; rfl
    rcases processNals_sap _ h [] ns hmode hstart rfl hparse with
      ⟨hkeep, hok, hstage'⟩ | ⟨pre, n, post, f, hns, hpre, hbreak, hf, herr, hprev⟩
    · simp only [List.nil_append] at hkeep hstage'
      refine ⟨⟨fun ⟨f, hf⟩ => ?_, fun hb => ?_⟩, fun _ => ⟨hres ▸ hok, ?_⟩, fun hb => ?_⟩
      · rw [hres, hok] at hf
        cases hf
      · rw [hkeep] at hb
        cases hb
      · rw [hst, ← hstage']
      · rw [hkeep] at hb
        cases hb
    · simp only [List.nil_append] at hpre hbreak hf
      have hb : breaksSapOrder ns = true := by
        rw [hns, ← List.singleton_append, ← List.append_assoc]
        exact breaksSapOrder_append _ hbreak
      refine ⟨⟨fun _ => hb, fun _ => ⟨f, hres ▸ herr⟩⟩, fun hk => ?_, fun _ => ?_⟩
      · rw [hb] at hk
        cases hk
      · exact ⟨pre, n, post, f, hns, hpre, hbreak, hf, hres ▸ herr, by rw [hst]; exact hprev⟩
  · rw [hres]
    exact processNals_general _ h ns (by rw [hmode]; decide) hparse

/-- Two payloads holding one I-picture delimiter each: each payload alone keeps the order. -/
def splitDelimiters : List CompletedPes :=
  [⟨[0, 0, 1, 0x09, 0x10], false, none⟩, ⟨[0, 0, 1, 0x09, 0x10], false, none⟩]

/-- The second delimiter breaks the order although it arrives in a payload of its own. -/
theorem sapViolation_of_splitDelimiters :
    (AvcHandler.new 256 .sap12).sink.Accepts ∧ (AvcHandler.new 256 .sap12).sapStage = .sawNeither ∧
    (∀ pes ∈ splitDelimiters, nalUnits pes.data ≠ []) ∧
    (splitDelimiters.flatMap fun pes => nalUnits pes.data).mapM NalUnit.parse =
      .ok [⟨0, 9, .delimiter 0⟩, ⟨0, 9, .delimiter 0⟩] ∧
    ∃ f, ((AvcHandler.new 256 .sap12).processAll true splitDelimiters).2 =
      .error (.sapViolation f) := by
  have hstage : (AvcHandler.new 256 .sap12).sapStage = .sawNeither := rfl
  have hunits : ∀ pes ∈ splitDelimiters, nalUnits pes.data ≠ [] := by decide +kernel
  have hparse : (splitDelimiters.flatMap fun pes => nalUnits pes.data).mapM NalUnit.parse =
      .ok [⟨0, 9, .delimiter 0⟩, ⟨0, 9, .delimiter 0⟩] := by decide +kernel
  exact ⟨Sink.memory_accepts, hstage, hunits, hparse,
    ((sap_check_language _ _ _ Sink.memory_accepts hstage hunits hparse).2.1 rfl).1.2 rfl⟩

end AvcHandler

end MpegTs
