import MpegTs.Avc.Handler
import MpegTs.Psi.Pmt

/-!
# Programs

A `Program` is what the demultiplexer knows about one program of the PAT: the PID of its
PMT, the PMT once one has been read, whether a PCR has been seen on its PCR PID, and one
`PidEntry` per elementary stream of the PMT, each with an optional handler.

* `Program.readPmt` installs the first PMT with the right program number that starts in a
  packet; later ones are not installed, and a changed version is warned about once.
* `Program.register` attaches a handler to an elementary PID the PMT lists;
  `Program.unregister` detaches it again.
* `Program.finish` ends every handler, recording what they report.
-/

namespace MpegTs

/-- An elementary stream of a program and the handler attached to it, if any. -/
structure PidEntry where
  es : EsInfo
  handler : Option AvcHandler := none
  deriving Repr, Inhabited

/-- The demultiplexer's view of one program. -/
structure Program where
  pid : Nat
  programNumber : Nat
  pmt : Option PmtSection := none
  pids : List PidEntry := []
  sawPcr : Bool := false
  warnedPmtVersion : Bool := false
  deriving Repr, Inhabited

/-- Replaces the handler of the first entry of an elementary PID. -/
def setHandler (pid : Nat) (h : Option AvcHandler) : List PidEntry → List PidEntry
  | [] => []
  | e :: es => if e.es.pid = pid then { e with handler := h } :: es else e :: setHandler pid h es

namespace Program

/-- A program known from the PAT, before its PMT is read. -/
def new (programNumber pid : Nat) : Program := { pid, programNumber }

/-- The first entry of an elementary PID. -/
def pidEntry (p : Program) (pid : Nat) : Option PidEntry := p.pids.find? (·.es.pid == pid)

/-- Attaches a handler to an elementary PID that the installed PMT lists, replacing any
handler it had. -/
def register (p : Program) (pid : Nat) (h : AvcHandler) : Except Error Program :=
  match p.pmt.bind (·.findEs pid) with
  | none => .error (.unknownPidRegistration pid p.programNumber)
  | some es =>
    if (p.pidEntry pid).isSome then .ok { p with pids := setHandler pid (some h) p.pids }
    else .ok { p with pids := p.pids ++ [⟨es, some h⟩] }

/-- Detaches the handler of an elementary PID, returning it. -/
def unregister (p : Program) (pid : Nat) : Program × Option AvcHandler :=
  match p.pidEntry pid with
  | some e => ({ p with pids := setHandler pid none p.pids }, e.handler)
  | none => (p, none)

/-- The text of the warning about a PMT whose version changed. -/
def pmtVersionWarning (old new program : Nat) : String :=
  s!"PMT version change {old} -> {new} on program {program} not supported, keeping the original"

/-- Reads the PMT from a packet on the program's PMT PID. -/
def readPmt (p : Program) (d : Diagnostics) (packet : TsPacket) : Stepped Program Unit :=
  match packet.payload with
  | none => ⟨p, d, .ok ()⟩
  | some payload =>
    if !packet.header.payloadStart then ⟨p, d, .ok ()⟩ else
    match sectionStart payload >>= parsePmt with
    | .error e => ⟨p, d, .error e⟩
    | .ok pmt =>
      if pmt.programNumber ≠ p.programNumber then
        ⟨p, d, .error (.programNumberMismatch p.programNumber pmt.programNumber)⟩
      else
        match p.pmt with
        | some current =>
          if current.version ≠ pmt.version ∧ !p.warnedPmtVersion then
            ⟨{ p with warnedPmtVersion := true },
              d.warn (pmtVersionWarning current.version pmt.version p.programNumber), .ok ()⟩
          else ⟨p, d, .ok ()⟩
        | none => ⟨{ p with pmt := some pmt, pids := pmt.streams.map (⟨·, none⟩) }, d, .ok ()⟩

/-- Notes a PCR carried on the program's PCR PID once its PMT is installed. -/
def notePcr (p : Program) (packet : TsPacket) : Program :=
  if p.pmt.any (·.pcrPid == packet.pid) && packet.pcr.isSome then { p with sawPcr := true }
  else p

/-- Hands a packet to the handler of its PID, if the first entry of that PID has one. -/
def dispatch (p : Program) (d : Diagnostics) (packet : TsPacket) : Stepped Program Unit :=
  match p.pidEntry packet.pid with
  | some ⟨_, some h⟩ =>
    let s := h.processTsPacket d p.sawPcr packet
    ⟨{ p with pids := setHandler packet.pid (some s.state) p.pids }, s.diagnostics, s.result⟩
  | _ => ⟨p, d, .ok ()⟩

/-- Takes one packet: notes a PCR, then reads it as PMT on the PMT PID, or hands it to the
PID's handler. -/
def readPacket (p : Program) (d : Diagnostics) (packet : TsPacket) : Stepped Program Unit :=
  let p := p.notePcr packet
  if p.pid = packet.pid then p.readPmt d packet else p.dispatch d packet

/-- Ends the handlers of a list of entries in order, recording their errors. -/
def finishEntries (d : Diagnostics) : List PidEntry → List PidEntry × Diagnostics
  | [] => ([], d)
  | e :: es =>
    let (e, d) := match e.handler with
      | some h =>
        let s := h.finish d
        let d := match s.result with
          | .ok () => s.diagnostics
          | .error err => s.diagnostics.record err
        ({ e with handler := some s.state }, d)
      | none => (e, d)
    let (es, d) := finishEntries d es
    (e :: es, d)

/-- Ends every handler of the program, recording their errors. -/
def finish (p : Program) (d : Diagnostics) : Program × Diagnostics :=
  let (pids, d) := finishEntries d p.pids
  ({ p with pids }, d)

end Program

end MpegTs
