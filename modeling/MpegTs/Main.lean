import MpegTs.Segment.Report
import MpegTs.Segment.Source
import MpegTs.Text.Rfc3339
import Std.Time

/-!
# The segment validator command

`mpegts [OPTIONS] <INPUT>` validates one DASH MPEG-2 TS segment file and prints a one-line
verdict, or with `--json` the verdict document. The exit status is `0` for a conformant
segment and otherwise the code of the first error.

* `-i`, `--init-segment`: the file is an initialization segment (tables only).
* `-s`, `--starts-with-sap TYPE`: the file starts with a SAP of type `TYPE`; types 1 and 2
  are checked.
* `-e`, `--extract`: every AVC elementary stream is written next to the input file.
* `-v`, `--verbose`: accepted, and repeatable, for compatibility with logging front ends.

`CommandLine.parse` reads the arguments; `main` is the thin layer that reads the file,
writes the extractions and prints.
-/

namespace MpegTs

/-- What the command line asks for. -/
structure CommandLine where
  input : Option String := none
  verbose : Nat := 0
  initSegment : Bool := false
  startsWithSap : Option Nat := none
  extract : Bool := false
  json : Bool := false
  help : Bool := false
  deriving Repr, Inhabited

namespace CommandLine

/-- The name the command goes by in its usage line. -/
def commandName : String := "mpegts"

/-- A name in single quotes. -/
def quoted (s : String) : String := "\x27" ++ s ++ "\x27"

/-- The usage line. -/
def usage : String := "Usage: " ++ commandName ++ " [OPTIONS] <INPUT>"

/-- The text printed for `--help`. -/
def helpText : String :=
  "\n".intercalate
    ["Validate a DASH MPEG-2 TS segment",
     "",
     usage,
     "",
     "Arguments:",
     "  <INPUT>  Segment file to validate",
     "",
     "Options:",
     "  -v, --verbose...              Increase verbosity (-v info, -vv debug)",
     "  -i, --init-segment            The segment is an initialization segment (PAT/PMT only)",
     "  -s, --starts-with-sap <TYPE>  The segment starts with a SAP of the given type",
     "  -e, --extract                 Dump every AVC elementary stream next to the input file",
     "      --json                    Print the verdict as JSON",
     "  -h, --help                    Print help"]

/-- An argument error, with the usage line and a pointer to the help. -/
def failure (message : String) : String :=
  "error: " ++ message ++ "\n\n" ++ usage ++ "\n\nFor more information, try " ++
    quoted "--help" ++ "."

/-- How the SAP option is named in errors. -/
def sapOption : String := "--starts-with-sap <TYPE>"

/-- Reads the SAP type, a number from 0 to 255. -/
def parseSap (v : String) : Except String Nat :=
  if v.isEmpty then
    .error (failure ("invalid value " ++ quoted v ++ " for " ++ quoted sapOption ++
      ": cannot parse integer from empty string"))
  else match v.toNat? with
    | some n =>
      if n < 256 then .ok n
      else .error (failure ("invalid value " ++ quoted v ++ " for " ++ quoted sapOption ++
        ": " ++ v ++ " is not in 0..=255"))
    | none =>
      .error (failure ("invalid value " ++ quoted v ++ " for " ++ quoted sapOption ++
        ": invalid digit found in string"))

/-- The error for an option whose value is missing. -/
def missingSap : String :=
  failure ("a value is required for " ++ quoted sapOption ++ " but none was supplied")

/-- The error for a flag given twice. -/
def repeated (name : String) : String :=
  failure ("the argument " ++ quoted name ++ " cannot be used multiple times")

/-- Sets a flag that may be given once. -/
def setOnce (was : Bool) (name : String) (set : CommandLine) : Except String CommandLine :=
  if was then .error (repeated name) else .ok set

/-- Sets the SAP type, which may be given once. -/
def setSap (o : CommandLine) (v : String) : Except String CommandLine := do
  if o.startsWithSap.isSome then throw (repeated sapOption)
  let n ← parseSap v
  pure { o with startsWithSap := some n }

/-- Takes a long option without a value. -/
def longFlag (o : CommandLine) (name : String) : Except String CommandLine :=
  if name = "help" then .ok { o with help := true }
  else if name = "verbose" then .ok { o with verbose := o.verbose + 1 }
  else if name = "init-segment" then
    setOnce o.initSegment "--init-segment" { o with initSegment := true }
  else if name = "extract" then setOnce o.extract "--extract" { o with extract := true }
  else if name = "json" then setOnce o.json "--json" { o with json := true }
  else .error (failure ("unexpected argument " ++ quoted ("--" ++ name) ++ " found"))

/-- Takes a cluster of short flags; `-s` takes the rest of the cluster as its value, or asks
for the next argument when the cluster ends with it. -/
def shortFlags (o : CommandLine) : List Char → Except String (CommandLine × Bool)
  | [] => .ok (o, false)
  | ['s'] => .ok (o, true)
  | 's' :: v => do
    let v := if v.head? = some '=' then v.tail else v
    pure (← setSap o (String.ofList v), false)
  | c :: rest => do
    let o ← match c with
      | 'h' => longFlag o "help"
      | 'v' => longFlag o "verbose"
      | 'i' => longFlag o "init-segment"
      | 'e' => longFlag o "extract"
      | _ => throw (failure ("unexpected argument " ++ quoted ("-" ++ c.toString) ++ " found"))
    shortFlags o rest

/-- Sets the input file, which is given once. -/
def setInput (o : CommandLine) (arg : String) : Except String CommandLine :=
  if o.input.isSome then .error (failure ("unexpected argument " ++ quoted arg ++ " found"))
  else .ok { o with input := some arg }

/-- Reads the arguments in order; after `--` every argument is the input. -/
def collect (o : CommandLine) : List String → Except String CommandLine
  | [] => .ok o
  | "--" :: rest => rest.foldlM setInput o
  | ["--starts-with-sap"] => .error missingSap
  | "--starts-with-sap" :: v :: rest => do collect (← setSap o v) rest
  | arg :: rest =>
    if arg.startsWith "--starts-with-sap=" then do
      collect (← setSap o (arg.drop 18).toString) rest
    else if arg.startsWith "--" then do collect (← longFlag o (arg.drop 2).toString) rest
    else if arg.startsWith "-" ∧ arg.length > 1 then do
      match ← shortFlags o (arg.drop 1).toString.toList with
      | (o, false) => collect o rest
      | (o, true) =>
        match rest with
        | v :: rest => do collect (← setSap o v) rest
        | [] => throw missingSap
    else do collect (← setInput o arg) rest

/-- Reads the arguments and checks what they ask for together: an input file is required,
and an initialization segment does not start with a SAP. -/
def parse (args : List String) : Except String CommandLine := do
  let o ← collect {} args
  if o.help then return o
  if o.input.isNone then
    throw (failure "the following required arguments were not provided:\n  <INPUT>")
  if o.initSegment ∧ o.startsWithSap.isSome then
    throw (failure ("the argument " ++ quoted "--init-segment" ++ " cannot be used with " ++
      quoted sapOption))
  return o

end CommandLine

/-- Writes the extracted AVC streams of a run next to the input file. -/
def writeExtractions (input : String) (v : Validator) : IO Unit :=
  v.extractions.forM fun (pid, data) =>
    IO.FS.writeBinFile (extractionPath input pid) (ByteArray.mk data.toArray)

/-- Validates the file the command line names and prints the verdict. -/
def runCommand (o : CommandLine) (input : String) : IO UInt32 := do
  match SegmentType.ofFlags o.initSegment o.startsWithSap with
  | .error e =>
    IO.eprintln e.message
    return UInt32.ofNat e.code
  | .ok t =>
    let bytes ← try IO.FS.readBinFile input
      catch e =>
        IO.eprintln ("Error: opening " ++ input ++ "\n\nCaused by:\n    " ++ toString e)
        return 1
    let v := ((Validator.new t o.extract).feedSource { rest := bytes.toList }).finish
    if o.extract then writeExtractions input v
    let verdict := Verdict.ofRun input v
    if o.json then
      let now ← Std.Time.Timestamp.now
      IO.println (verdict.document (Rfc3339.ofUnixNanos now.toNanosecondsSinceUnixEpoch.val))
    else IO.println verdict.summaryLine
    return UInt32.ofNat verdict.status

end MpegTs

/-- The command: reads the arguments, then validates the segment. -/
def main (args : List String) : IO UInt32 := do
  match MpegTs.CommandLine.parse args with
  | .error message =>
    IO.eprintln message
    return 2
  | .ok o =>
    if o.help then
      IO.println MpegTs.CommandLine.helpText
      return 0
    MpegTs.runCommand o (o.input.getD "")
