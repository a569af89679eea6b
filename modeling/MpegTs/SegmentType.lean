import MpegTs.Error

/-!
# Segment types

A DASH segment is either an initialization segment (tables only, no media), a media segment
that must start with a stream access point of type 1 or 2, or a media segment with no such
requirement. `SegmentType.ofFlags` resolves the two command-line choices, which exclude
each other.
-/

namespace MpegTs

/-- What kind of DASH segment the input claims to be. -/
inductive SegmentType where
  | initialization
  | sap12
  | general
  deriving Repr, DecidableEq, Inhabited

namespace SegmentType

/-- Resolves "initialization segment" and "starts with a SAP of this type": both at once is
a configuration error; SAP types 1 and 2 ask for the SAP checks, other types for none. -/
def ofFlags (initialization : Bool) (sap : Option Nat) : Except Error SegmentType :=
  match initialization, sap with
  | true, some _ =>
    .error (.config "segment can either be initialization or start with SAP, not both")
  | true, none => .ok .initialization
  | false, some 1 => .ok .sap12
  | false, some 2 => .ok .sap12
  | false, _ => .ok .general

/-- How a verdict names the segment type. -/
def description : SegmentType → String
  | initialization => "initialization segment"
  | sap12 => "media segment of SAP type 1/2"
  | general => "media segment"

/-- Media segments are all but initialization segments. -/
def isMedia : SegmentType → Bool
  | initialization => false
  | _ => true

end SegmentType

end MpegTs
