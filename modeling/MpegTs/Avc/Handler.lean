import MpegTs.Avc.Nal
import MpegTs.Pes.Assembler
import MpegTs.SegmentType

/-!
# AVC elementary stream checks

An `AvcHandler` follows the AVC elementary stream of one PID: it reassembles its PES
packets, splits each into NAL units, and checks them.

* In a segment that must start with a SAP of type 1 or 2, the NAL units before the first
  IDR slice may not hold a non-IDR slice or a second access unit delimiter, and a first
  delimiter must announce an I picture (`SapStage.advance`).
* The first IDR slice needs a PCR seen at or before the transport packet that completed
  its PES packet.
* Every PES packet must hold at least one NAL unit.
* With extraction on, every completed PES payload is written to the handler's `Sink`, and
  `extracted` keeps what the sink has taken; the sink is flushed when the stream ends. The
  sink belongs to the caller: a write or a flush may fail, with an I/O error.

## Main definitions

* `SapStage.advance`: the SAP order check as a step over one NAL unit.
* `Sink`, `Extractor`: where extracted bytes go, and how a sink is opened for a PID;
  `Sink.memory`, `Extractor.memory` keep the bytes and never fail.
* `AvcHandler.processTsPacket`, `AvcHandler.finish`: the handler's two entry points.
-/

namespace MpegTs

/-- Progress through the start of a SAP type 1 or 2 segment. -/
inductive SapStage where
  | sawNeither
  | sawFirstDelimiter
  | sawIdrSlice
  deriving Repr, DecidableEq, Inhabited

namespace SapStage

/-- The SAP order check for one more NAL unit: a first delimiter must announce an I
picture; before the first IDR slice, a second delimiter or a non-IDR slice is refused. -/
def advance (s : SapStage) (n : NalUnit) : Except Error SapStage :=
  match s, n.primaryPicType with
  | .sawNeither, some t =>
    if isIntraPrimaryPicType t then .ok .sawFirstDelimiter
    else .error (.sapViolation (.firstDelimiterNotIntra t))
  | .sawIdrSlice, _ => .ok .sawIdrSlice
  | s, _ =>
    if n.nalType = nalTypeIdrSlice then .ok .sawIdrSlice
    else if n.nalType = nalTypeDelimiter then .error (.sapViolation .secondDelimiter)
    else if n.nalType = nalTypeNonIdrSlice ∨ n.nalType = nalTypeAuxSlice then
      .error (.sapViolation (.nonIdrSlice n.nalType))
    else .ok s

end SapStage

/-- Where the copy of an elementary stream goes, as the caller provides it: a write of bytes
after those already taken, and a flush, each of which succeeds or fails with the text of an
I/O error. -/
structure Sink where
  write : List UInt8 → List UInt8 → Except String Unit
  flush : List UInt8 → Except String Unit

namespace Sink

/-- A sink that keeps the bytes in memory, and never fails. -/
def memory : Sink := ⟨fun _ _ => .ok (), fun _ => .ok ()⟩

instance : Inhabited Sink := ⟨memory⟩

/-- What a sink does is a function; it shows as a sink and nothing more. -/
instance : Repr Sink := ⟨fun _ _ => "Sink"⟩

/-- The sink takes every write and every flush. -/
def Accepts (s : Sink) : Prop :=
  (∀ taken data, s.write taken data = .ok ()) ∧ ∀ taken, s.flush taken = .ok ()

theorem memory_accepts : memory.Accepts := ⟨fun _ _ => rfl, fun _ => rfl⟩

end Sink

/-- How the caller opens the sink of an AVC elementary PID; opening may fail with the text of
an I/O error. -/
structure Extractor where
  openSink : Nat → Except String Sink

namespace Extractor

/-- Every PID's bytes kept in memory. -/
def memory : Extractor := ⟨fun _ => .ok .memory⟩

instance : Repr Extractor := ⟨fun _ _ => "Extractor"⟩

/-- Every sink opens, and takes every write and every flush. -/
def Opens (x : Extractor) : Prop := ∀ pid, ∃ s, x.openSink pid = .ok s ∧ s.Accepts

theorem memory_opens : memory.Opens := fun _ => ⟨_, rfl, Sink.memory_accepts⟩

end Extractor

/-- The checking state of one AVC elementary stream. -/
structure AvcHandler where
  pid : Nat
  segmentType : SegmentType
  assembler : PesAssembler
  sapStage : SapStage := .sawNeither
  sawIdr : Bool := false
  prevNal : Option NalUnit := none
  sawPcr : Bool := false
  sink : Sink := .memory
  extracted : Option (List UInt8) := none
  deriving Repr, Inhabited

namespace AvcHandler

/-- A fresh handler for a PID; `extract` turns on the copy of the elementary stream, kept in
memory. -/
def new (pid : Nat) (segmentType : SegmentType) (extract : Bool := false) : AvcHandler :=
  { pid, segmentType, assembler := { pid }, extracted := if extract then some [] else none }

/-- Copies the elementary stream to `s` from now on. -/
def withExtraction (h : AvcHandler) (s : Sink) : AvcHandler :=
  { h with sink := s, extracted := some [] }

/-- Writes elementary stream bytes to the sink, if extraction is on; a failed write is an I/O
error, and the bytes are not counted as taken. -/
def extract (h : AvcHandler) (data : List UInt8) : Except Error AvcHandler :=
  match h.extracted with
  | none => .ok h
  | some taken =>
    match h.sink.write taken data with
    | .error reason => .error (.io reason)
    | .ok () => .ok { h with extracted := some (taken ++ data) }

/-- Flushes the sink, if extraction is on. -/
def flush (h : AvcHandler) : Except Error Unit :=
  match h.extracted with
  | none => .ok ()
  | some taken =>
    match h.sink.flush taken with
    | .error reason => .error (.io reason)
    | .ok () => .ok ()

/-- Checks NAL units in order, stopping at the first fault; the state keeps what the units
before the fault did. -/
def processNals (h : AvcHandler) (sawPcr : Bool) : List (List UInt8) → AvcHandler × Except Error Unit
  | [] => (h, .ok ())
  | raw :: rest =>
    match NalUnit.parse raw with
    | .error e => (h, .error e)
    | .ok nal =>
      let stage := if h.segmentType = .sap12 then h.sapStage.advance nal else .ok h.sapStage
      match stage with
      | .error e => (h, .error e)
      | .ok stage =>
        let h := { h with sapStage := stage }
        if !h.sawIdr ∧ nal.isIdrSlice ∧ !sawPcr then (h, .error .missingPcrBeforeIdr)
        else
          let h := { h with sawIdr := h.sawIdr || nal.isIdrSlice, prevNal := some nal }
          h.processNals sawPcr rest

/-- Extracts and checks one completed PES payload; a failed extraction stops it before the
check. -/
def processPes (h : AvcHandler) (pes : CompletedPes) (sawPcr : Bool) : AvcHandler × Except Error Unit :=
  match h.extract pes.data with
  | .error e => (h, .error e)
  | .ok h =>
    let units := nalUnits pes.data
    match h.processNals sawPcr units with
    | (h, .error e) => (h, .error e)
    | (h, .ok ()) =>
      if units.isEmpty then (h, .error (.noNalUnits pes.unbounded pes.data.length)) else (h, .ok ())

/-- Checks completed PES payloads in order, stopping at the first fault. -/
def processAll (h : AvcHandler) (sawPcr : Bool) : List CompletedPes → AvcHandler × Except Error Unit
  | [] => (h, .ok ())
  | pes :: rest =>
    match h.processPes pes sawPcr with
    | (h, .error e) => (h, .error e)
    | (h, .ok ()) => h.processAll sawPcr rest

/-- Takes one transport packet of the PID; `sawPcr` says whether the program's PCR has been
seen, this packet included. -/
def processTsPacket (h : AvcHandler) (d : Diagnostics) (sawPcr : Bool) (p : TsPacket) :
    Stepped AvcHandler Unit :=
  let s := h.assembler.push d p
  let h := { h with sawPcr, assembler := s.state }
  match s.result with
  | .error e => ⟨h, s.diagnostics, .error e⟩
  | .ok done =>
    let (h, r) := h.processAll sawPcr done
    ⟨h, s.diagnostics, r⟩

/-- Ends the last PES packet of the stream: it is checked while no error has been recorded,
and only extracted otherwise. -/
def endLast (h : AvcHandler) (clean : Bool) (pes : CompletedPes) : AvcHandler × Except Error Unit :=
  if clean then h.processPes pes h.sawPcr
  else
    match h.extract pes.data with
    | .error e => (h, .error e)
    | .ok h => (h, .ok ())

/-- Ends what the stream still holds: the assembler gives up its last PES packet, which
`endLast` ends. -/
def endStream (h : AvcHandler) (d : Diagnostics) : AvcHandler × Except Error Unit :=
  let s := h.assembler.finish d
  let h := { h with assembler := s.state }
  match s.result with
  | .error e => (h, .error e)
  | .ok none => (h, .ok ())
  | .ok (some pes) => h.endLast s.diagnostics.isClean pes

/-- Ends the stream (`endStream`), then flushes the sink unless a fault came first. -/
def finish (h : AvcHandler) (d : Diagnostics) : Stepped AvcHandler Unit :=
  let ended := h.endStream d
  ⟨ended.1, (h.assembler.finish d).diagnostics, ended.2.bind fun _ => ended.1.flush⟩

/-! ### What extraction changes -/

/-- The handler with `data` appended to its copy, as an extraction that goes through leaves
it. -/
def appendCopy (h : AvcHandler) (data : List UInt8) : AvcHandler :=
  { h with extracted := h.extracted.map (· ++ data) }

/-- An extraction that goes through appends to the copy and changes nothing else. -/
theorem extract_ok {h h' : AvcHandler} {data : List UInt8} (he : h.extract data = .ok h') :
    h' = h.appendCopy data := by
  unfold extract at he
  split at he
  · rename_i hnone
    cases he
    cases h
    subst hnone
    rfl
  · rename_i taken hsome
    split at he
    · cases he
    · cases he
      simp only [appendCopy, hsome, Option.map_some]

/-- A sink that takes every write lets the extraction through. -/
theorem extract_of_accepts {h : AvcHandler} (hs : h.sink.Accepts) (data : List UInt8) :
    h.extract data = .ok (h.appendCopy data) := by
  unfold extract appendCopy
  cases hx : h.extracted with
  | none =>
    cases h
    subst hx
    rfl
  | some taken => simp only [hs.1 taken data, Option.map_some]

/-- Checking NAL units changes neither the assembler, the sink nor the copy. -/
theorem processNals_keeps (s : Bool) :
    ∀ (raws : List (List UInt8)) (h : AvcHandler),
      (h.processNals s raws).1.assembler = h.assembler ∧ (h.processNals s raws).1.sink = h.sink ∧
        (h.processNals s raws).1.extracted = h.extracted
  | [], _ => ⟨rfl, rfl, rfl⟩
  | raw :: rest, h => by
    unfold processNals
    split
    · exact ⟨rfl, rfl, rfl⟩
    dsimp only
    split
    · exact ⟨rfl, rfl, rfl⟩
    split
    · exact ⟨rfl, rfl, rfl⟩
    · exact processNals_keeps s rest _

/-- The handler after a PES payload: the one its units leave after the extraction, or the
handler as it was when the extraction fails. -/
theorem processPes_fst (h : AvcHandler) (pes : CompletedPes) (s : Bool) :
    (h.processPes pes s).1 =
      match h.extract pes.data with
      | .error _ => h
      | .ok _ => ((h.appendCopy pes.data).processNals s (nalUnits pes.data)).1 := by
  unfold processPes
  split
  · rfl
  · rename_i h' he
    rw [← extract_ok he]
    dsimp only
    split
    · rename_i heq
      rw [heq]
    · rename_i heq
      rw [heq]
      split <;> rfl

end AvcHandler

end MpegTs
