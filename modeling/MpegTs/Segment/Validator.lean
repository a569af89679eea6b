import MpegTs.Demux.Stream
import MpegTs.Psi.StreamType

/-!
# Segment validation

A `Validator` checks a DASH segment one transport packet at a time, in three phases:

* awaiting the PAT: only PID `0` is read, and the PAT must list exactly one program, not the
  NIT, with its PMT on a general purpose PID;
* awaiting that program's PMT: once it is installed, an AVC handler is attached to every
  AVC stream, with a sink opened for it when the validator has an `Extractor`; other stream
  types are warned about, and an initialization segment may list no media stream at all;
* streaming: every packet is routed to the demultiplexer, reserved table PIDs are warned
  about once, and a changed PAT version once.

`Validator.feed` counts the packet and records the error a packet raises; the caller stops
feeding after it. `Validator.finish` adds the segment-wide checks (a PAT, a PMT, and for
media segments a PCR) while no error has been recorded, then ends the handlers.
-/

namespace MpegTs

/-- How far a validator has got through a segment. -/
inductive Phase where
  | awaitingPat
  | awaitingPmt (program pmtPid : Nat)
  | streaming
  deriving Repr, DecidableEq, Inhabited

/-- The state of a segment validation. -/
structure Validator where
  segmentType : SegmentType
  extractor : Option Extractor := none
  phase : Phase := .awaitingPat
  stream : Stream := {}
  diagnostics : Diagnostics := {}
  packets : Nat := 0
  warnedPids : List Nat := []
  warnedPatVersion : Bool := false
  deriving Repr, Inhabited

/-- The name of the reserved table carried on PIDs `1` to `3`. -/
def reservedTableName (pid : Nat) : String :=
  if pid = 1 then "CAT" else if pid = 2 then "TSDT" else "IPMP CIT"

/-- The warning about a reserved table PID, made once per PID. -/
def reservedPidWarning (pid : Nat) : String :=
  reservedTableName pid ++ " section not supported, ignoring PID 0x" ++ hexUpper 4 pid

/-- The warning about a PAT of another version than the first, made once. -/
def patVersionWarning (version : Nat) : String :=
  s!"PAT version change to {version} not supported"

/-- The warning about an elementary stream that no handler checks. -/
def noHandlerWarning (streamType pid : Nat) : String :=
  "no handler for stream type 0x" ++ hexUpper 2 streamType ++ " (" ++ streamTypeName streamType ++
    ") on PID 0x" ++ hexUpper 4 pid

/-- The AVC handler of a PID, copying its stream to a sink opened through the extractor when
there is one; a sink that does not open is an I/O error. -/
def openHandler (t : SegmentType) (extractor : Option Extractor) (pid : Nat) :
    Except Error AvcHandler :=
  match extractor with
  | none => .ok (AvcHandler.new pid t)
  | some x =>
    match x.openSink pid with
    | .error reason => .error (.io reason)
    | .ok s => .ok ((AvcHandler.new pid t).withExtraction s)

/-- Attaches handlers for the elementary streams of a PMT in order: AVC streams get an AVC
handler, other streams a warning; a media stream in an initialization segment stops it. -/
def installHandlers (t : SegmentType) (extractor : Option Extractor) (d : Diagnostics)
    (p : Program) : List EsInfo → Program × Diagnostics × Except Error Unit
  | [] => (p, d, .ok ())
  | es :: rest =>
    if t = .initialization ∧ isMediaStreamType es.streamType then
      (p, d, .error (.mediaInInitSegment es.pid es.streamType))
    else if es.streamType ≠ avcStreamType then
      installHandlers t extractor (d.warn (noHandlerWarning es.streamType es.pid)) p rest
    else
      match openHandler t extractor es.pid with
      | .error e => (p, d, .error e)
      | .ok hd =>
        match p.register es.pid hd with
        | .error e => (p, d, .error e)
        | .ok p => installHandlers t extractor d p rest

namespace Validator

/-- A validator for a segment of the given type; `extract` copies AVC streams out, into
memory. -/
def new (segmentType : SegmentType) (extract : Bool := false) : Validator :=
  { segmentType, extractor := if extract then some .memory else none }

/-- The validator with the AVC streams copied out through `extractor`, or not copied. -/
def withExtractor (v : Validator) (extractor : Option Extractor) : Validator :=
  { v with extractor }

/-- With extraction on, a validator copies through the extractor that keeps the copies in
memory. -/
theorem new_true_eq (t : SegmentType) :
    Validator.new t true = (Validator.new t).withExtractor (some .memory) := rfl

/-- The PAT carried by a packet that starts a section, if it does. -/
def patOf (packet : TsPacket) : Except Error (Option PatSection) :=
  match packet.payload with
  | some payload =>
    if packet.header.payloadStart then some <$> (sectionStart payload >>= parsePat)
    else .ok none
  | none => .ok none

/-- Reads the PAT while awaiting it: one program, not the NIT, its PMT on a general purpose
PID. -/
def readPat (v : Validator) (packet : TsPacket) : Validator × Except Error Unit :=
  match patOf packet with
  | .error e => (v, .error e)
  | .ok none => (v, .ok ())
  | .ok (some pat) =>
    match pat.programs with
    | [entry] =>
      if entry.programNumber = 0 then (v, .error .nitNotSupported)
      else if !isGeneralPurposePid entry.pid then (v, .error (.invalidPid "PMT PID" entry.pid))
      else
        ({ v with
          stream := { v.stream with pat := some pat,
                                    programs := v.stream.programs ++
                                      [Program.new entry.programNumber entry.pid] }
          phase := .awaitingPmt entry.programNumber entry.pid }, .ok ())
    | ps => (v, .error (.multiProgram ps.length))

/-- Attaches handlers once the program's PMT is installed, then starts streaming. -/
def install (v : Validator) (programNumber : Nat) : Validator × Except Error Unit :=
  match v.stream.program? programNumber with
  | none => (v, .ok ())
  | some p =>
    match p.pmt with
    | none => (v, .ok ())
    | some pmt =>
      let (p, d, r) := installHandlers v.segmentType v.extractor v.diagnostics p pmt.streams
      let v := { v with stream := v.stream.setProgram programNumber p, diagnostics := d }
      match r with
      | .error e => (v, .error e)
      | .ok () => ({ v with phase := .streaming }, .ok ())

/-- Hands a packet to the demultiplexer. -/
def demux (v : Validator) (packet : TsPacket) : Validator × Except Error Unit :=
  let s := v.stream.readPacket v.diagnostics packet
  ({ v with stream := s.state, diagnostics := s.diagnostics }, s.result)

/-- Routes a packet while streaming. -/
def route (v : Validator) (packet : TsPacket) : Validator × Except Error Unit :=
  let pid := packet.pid
  if pid = patPid then
    match patOf packet with
    | .error e => (v, .error e)
    | .ok none => (v, .ok ())
    | .ok (some pat) =>
      if v.stream.pat.map (·.version) ≠ some pat.version ∧ !v.warnedPatVersion then
        ({ v with warnedPatVersion := true,
                  diagnostics := v.diagnostics.warn (patVersionWarning pat.version) }, .ok ())
      else (v, .ok ())
  else if pid = 1 ∨ pid = 2 ∨ pid = 3 then
    if v.warnedPids.contains pid then (v, .ok ())
    else
      ({ v with warnedPids := v.warnedPids ++ [pid],
                diagnostics := v.diagnostics.warn (reservedPidWarning pid) }, .ok ())
  else if pid = nullPid ∨ pid < 0x10 then (v, .ok ())
  else v.demux packet

/-- Checks one packet according to the phase. -/
def process (v : Validator) (data : List UInt8) : Validator × Except Error Unit :=
  match TsPacket.parse data with
  | .error e => (v, .error e)
  | .ok packet =>
    match v.phase with
    | .awaitingPat => if packet.pid = patPid then v.readPat packet else (v, .ok ())
    | .awaitingPmt program pmtPid =>
      if packet.pid = pmtPid then
        match v.demux packet with
        | (v, .error e) => (v, .error e)
        | (v, .ok ()) => v.install program
      else (v, .ok ())
    | .streaming => v.route packet

/-- Takes one packet; an error it raises is recorded and returned. -/
def feed (v : Validator) (data : List UInt8) : Validator × Except Error Unit :=
  match { v with packets := v.packets + 1 }.process data with
  | (v, .error e) => ({ v with diagnostics := v.diagnostics.record e }, .error e)
  | (v, .ok ()) => (v, .ok ())

/-- The segment-wide error of a run that ends in a phase: no PAT, no PMT, or for a media
segment no PCR. -/
def missing (v : Validator) : Option Error :=
  match v.phase with
  | .awaitingPat => some .patNotFound
  | .awaitingPmt program pid => some (.pmtNotFound program pid)
  | .streaming => if v.segmentType.isMedia ∧ !v.stream.sawPcr then some .noPcrInSegment else none

/-- Ends the run: the segment-wide checks while no error was recorded, then every handler. -/
def finish (v : Validator) : Validator :=
  let d := if v.diagnostics.isClean then
      match v.missing with
      | some e => v.diagnostics.record e
      | none => v.diagnostics
    else v.diagnostics
  let (stream, d) := v.stream.finish d
  { v with stream, diagnostics := d }

end Validator

end MpegTs
