import MpegTs.Segment.Verdict

/-!
# Verdict documents

`Verdict.document` renders a verdict as a JSON object, indented by two spaces a level, with
its fields in declaration order and the time of the run last:

```
{
  "file": "seg.ts",
  "segment_type": "sap12",
  "status": 0,
  "passed": true,
  "errors": [],
  "warnings": [],
  "packets": 10,
  "timestamp": "2024-03-01T12:00:00+00:00"
}
```

* `jsonString` quotes a string, escaping the quote, the backslash and control characters.
* An empty list is written `[]` on one line; other lists hold one object per entry.
-/

namespace MpegTs

/-- The escape of a character inside a JSON string, or the character itself. -/
def jsonEscape (c : Char) : String :=
  if c = '"' then "\\\""
  else if c = '\\' then "\\\\"
  else if c = '\n' then "\\n"
  else if c = '\r' then "\\r"
  else if c = '\t' then "\\t"
  else if c.toNat = 0x08 then "\\b"
  else if c.toNat = 0x0C then "\\f"
  else if c.toNat < 0x20 then "\\u00" ++ padDigits 2 (Nat.toDigits 16 c.toNat)
  else c.toString

/-- A string as a quoted JSON string. -/
def jsonString (s : String) : String :=
  "\"" ++ String.join (s.toList.map jsonEscape) ++ "\""

/-- The JSON key of a segment type. -/
def SegmentType.key : SegmentType → String
  | .initialization => "initialization"
  | .sap12 => "sap12"
  | .general => "general"

/-- The lines of an issue as a JSON object, indented by `pad`. -/
def Issue.documentLines (pad : String) (i : Issue) : List String :=
  [pad ++ "\x7b",
   pad ++ "  \"code\": " ++ toString i.code ++ ",",
   pad ++ "  \"message\": " ++ jsonString i.message,
   pad ++ "\x7d"]

/-- A list of issues as the value of the field `name`, one level deep, with the comma that
separates it from the next field. -/
def issuesField (name : String) (issues : List Issue) : List String :=
  match issues with
  | [] => ["  " ++ jsonString name ++ ": [],"]
  | _ =>
    let entries := issues.map (Issue.documentLines "    ")
    let separated := entries.mapIdx fun k lines =>
      if k + 1 = entries.length then lines
      else lines.dropLast ++ lines.getLast?.toList.map (· ++ ",")
    ["  " ++ jsonString name ++ ": ["] ++ separated.flatten ++ ["  ],"]

namespace Verdict

/-- The verdict as a JSON document, with `timestamp` as the time of the run. -/
def document (r : Verdict) (timestamp : String) : String :=
  "\n".intercalate <|
    ["\x7b",
     "  \"file\": " ++ jsonString r.file ++ ",",
     "  \"segment_type\": " ++ jsonString r.segmentType.key ++ ",",
     "  \"status\": " ++ toString r.status ++ ",",
     "  \"passed\": " ++ toString r.passed ++ ","] ++
    issuesField "errors" r.errors ++
    issuesField "warnings" r.warnings ++
    ["  \"packets\": " ++ toString r.packets ++ ",",
     "  \"timestamp\": " ++ jsonString timestamp,
     "\x7d"]

end Verdict

end MpegTs
