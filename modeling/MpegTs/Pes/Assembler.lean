import MpegTs.Pes.Packet
import MpegTs.Packet.Codec
import MpegTs.Diagnostics

/-!
# PES reassembly

The transport packets of one PID carry a sequence of PES packets: a packet with the payload
unit start indicator opens one, the following packets continue it. A `PesAssembler`
collects the payload bytes of the PES packet in progress.

* A bounded PES packet (non-zero `PES_packet_length`) completes when its declared payload
  length has arrived; surplus bytes in its last transport packet are dropped.
* An unbounded one completes when the next unit starts, or at `finish`, with a warning.
* Scrambled packets and stream IDs without the optional header disable the assembler for
  good, with a soft error.
* Each start must carry a PTS that differs from the previous start's.

`PesAssembler.push` and `PesAssembler.finish` return the new assembler, the diagnostics and
the outcome. A failing call keeps the changes it made before it failed, as the packet it
was given has then been consumed.
-/

namespace MpegTs

/-- What an assembler is collecting. -/
inductive Collecting where
  | idle
  | bounded (declared : Nat)
  | unbounded
  deriving Repr, DecidableEq, Inhabited

/-- A collected PES payload, header stripped. -/
structure CompletedPes where
  data : List UInt8
  unbounded : Bool
  pts : Option Nat
  deriving Repr, DecidableEq, Inhabited

/-- The reassembly state of one PID. -/
structure PesAssembler where
  pid : Nat
  state : Collecting := .idle
  pending : List UInt8 := []
  pts : Option Nat := none
  prevPts : Option Nat := none
  disabled : Bool := false
  deriving Repr, DecidableEq, Inhabited

namespace PesAssembler

/-- Gives up on the stream for good, recording why. -/
def disable (a : PesAssembler) (d : Diagnostics) (e : Error) : PesAssembler × Diagnostics :=
  ({ a with disabled := true, state := .idle, pending := [] }, d.record e)

/-- Hands the collected bytes over as a completed PES and returns to idle. -/
def complete (a : PesAssembler) (unbounded : Bool) : PesAssembler × CompletedPes :=
  ({ a with state := .idle, pending := [], pts := none }, ⟨a.pending, unbounded, a.pts⟩)

/-- Adds payload bytes to the PES in progress: a bounded one takes no more than it
declared and completes when it has them all. -/
def absorb (a : PesAssembler) (bytes : List UInt8) (done : List CompletedPes) :
    PesAssembler × List CompletedPes :=
  match a.state with
  | .bounded declared =>
    let a := { a with pending := a.pending ++ bytes.take (declared - a.pending.length) }
    if a.pending.length = declared then
      let (a, c) := a.complete false
      (a, done ++ [c])
    else (a, done)
  | .unbounded => ({ a with pending := a.pending ++ bytes }, done)
  | .idle => (a, done)

/-- Opens a PES packet from the payload of a unit start, while idle. -/
def start (a : PesAssembler) (d : Diagnostics) (pusi : Bool) (payload : List UInt8)
    (done : List CompletedPes) : Stepped PesAssembler (List CompletedPes) :=
  if !pusi then ⟨a, d, .error (.missingPayloadStart a.pid)⟩ else
  match PesPacket.parse payload with
  | .error e => ⟨a, d, .error e⟩
  | .ok pes =>
    if pes.header.scrambling ≠ 0 then
      let (a, d) := a.disable d (.scrambledStream a.pid)
      ⟨a, d, .ok done⟩
    else if !hasPesHeader pes.header.streamId then
      let (a, d) := a.disable d (.unsupportedStreamType a.pid pes.header.streamId)
      ⟨a, d, .ok done⟩
    else
      match pes.header.pts with
      | none => ⟨a, d, .error .missingDts⟩
      | some pts =>
        if a.prevPts = some pts then ⟨a, d, .error (.duplicatePts pts)⟩ else
        let a := { a with prevPts := some pts, pts := some pts }
        if pes.header.isUnbounded then
          let (a, done) := { a with state := .unbounded }.absorb pes.payload done
          ⟨a, d, .ok done⟩
        else
          match pes.header.declaredPayloadLen with
          | .error e => ⟨a, d, .error e⟩
          | .ok declared =>
            let (a, done) := { a with state := .bounded declared }.absorb pes.payload done
            ⟨a, d, .ok done⟩

/-- Feeds one transport packet of the PID; returns the PES payloads it completed: an
unbounded one closed by this start, and a bounded one whose last byte arrived here. -/
def push (a : PesAssembler) (d : Diagnostics) (p : TsPacket) :
    Stepped PesAssembler (List CompletedPes) :=
  if a.disabled then ⟨a, d, .ok []⟩
  else if p.header.scrambling ≠ 0 then
    let (a, d) := a.disable d (.scrambledStream a.pid)
    ⟨a, d, .ok []⟩
  else
    match p.payload with
    | none => ⟨a, d, .ok []⟩
    | some [] => ⟨a, d, .ok []⟩
    | some payload =>
      let pusi := p.header.payloadStart
      let (a, done) :=
        if pusi ∧ a.state = .unbounded then
          let (a, c) := a.complete true
          (a, [c])
        else (a, [])
      match a.state with
      | .idle => a.start d pusi payload done
      | .bounded declared =>
        if pusi then ⟨a, d, .error (.unexpectedPayloadStart a.pending.length declared)⟩
        else
          let (a, done) := a.absorb payload done
          ⟨a, d, .ok done⟩
      | .unbounded =>
        let (a, done) := a.absorb payload done
        ⟨a, d, .ok done⟩

/-- Ends the input: an unfinished unbounded PES is handed back with a warning; an unfinished
bounded one is dropped, and is an error only while no error has been recorded. -/
def finish (a : PesAssembler) (d : Diagnostics) : Stepped PesAssembler (Option CompletedPes) :=
  if a.disabled then ⟨a, d, .ok none⟩ else
  match a.state with
  | .idle => ⟨a, d, .ok none⟩
  | .unbounded =>
    let d := d.record (.incompleteUnboundedPes a.pending.length)
    let (a, c) := a.complete true
    ⟨a, d, .ok (some c)⟩
  | .bounded declared =>
    let remaining := declared - a.pending.length
    let a := { a with state := .idle, pending := [] }
    if d.isClean then ⟨a, d, .error (.incompleteBoundedPes declared remaining)⟩
    else ⟨a, d, .ok none⟩

end PesAssembler

end MpegTs
