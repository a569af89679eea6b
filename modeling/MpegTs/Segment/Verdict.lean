import MpegTs.Segment.Validator

/-!
# Verdicts

Validating a segment file feeds its consecutive 188-byte packets to a `Validator`, stopping
after the first packet that fails, and records a trailing partial packet as truncated. The
`Verdict` sums the run up, and `Verdict.summaryLine` is the line the command prints.

* `feedPackets` is the packet loop, `validateSegment` the whole run.
* `extractionPath` names the file that receives the AVC stream of a PID.
-/

namespace MpegTs

/-- Feeds the consecutive 188-byte packets of `data`, stopping after the first that fails;
a trailing partial packet is recorded as truncated and ends the run. -/
def feedPackets (v : Validator) (data : List UInt8) : Validator :=
  if _ : data.length = 0 then v
  else
    let chunk := data.take packetSize
    if chunk.length < packetSize then
      { v with diagnostics := v.diagnostics.record (.truncatedPacket packetSize chunk.length) }
    else
      match v.feed chunk with
      | (v, .error _) => v
      | (v, .ok ()) => feedPackets v (data.drop packetSize)
termination_by data.length
decreasing_by simp only [List.length_drop, packetSize]; omega

/-- Validates a whole segment and ends the run. -/
def validateSegment (t : SegmentType) (extract : Bool) (data : List UInt8) : Validator :=
  (feedPackets (Validator.new t extract) data).finish

/-- The extracted AVC streams of a finished run, by PID, in program and PMT order. -/
def Validator.extractions (v : Validator) : List (Nat × List UInt8) :=
  v.stream.programs.flatMap fun p => p.pids.filterMap fun e =>
    e.handler.bind fun h => h.extracted.map fun x => (e.es.pid, x)

/-- The file next to `input` that receives the AVC stream of a PID. -/
def extractionPath (input : String) (pid : Nat) : String :=
  input ++ ".AVC_elementary_stream.PID_0x" ++ hexUpper 4 pid ++ ".264"

/-- The outcome of validating one file. -/
structure Verdict where
  file : String
  segmentType : SegmentType
  status : Nat
  passed : Bool
  errors : List Issue
  warnings : List Issue
  packets : Nat
  deriving Repr, Inhabited

namespace Verdict

/-- The verdict of a finished run over the file `file`. -/
def ofRun (file : String) (v : Validator) : Verdict :=
  { file, segmentType := v.segmentType, status := v.diagnostics.status,
    passed := v.diagnostics.status == 0, errors := v.diagnostics.errors,
    warnings := v.diagnostics.warnings, packets := v.packets }

/-- The one-line verdict the command prints. -/
def summaryLine (r : Verdict) : String :=
  let category := r.segmentType.description
  if r.passed then
    "[SUCCESS]\tFile \"" ++ r.file ++ "\" is a valid DASH MPEG-2 TS " ++ category
  else
    "[FAILURE]\tFile \"" ++ r.file ++ "\" is not a valid DASH MPEG-2 TS " ++ category ++
      s!" (message {r.status}). Re-run with -v or -vv for details."

end Verdict

end MpegTs
