import MpegTs.Demux.Program
import MpegTs.Psi.Pat

/-!
# Transport stream demultiplexing

A `Stream` holds the PAT, once known, and the programs it lists. `Stream.readPacket` routes
one packet to every program in turn: PMT packets to the program's PMT reader, elementary
PIDs to their handlers. Until a PAT is known only PID `0` is routed. A failure stops the
routing at the program that failed; the programs before it keep what the packet did to
them.
-/

namespace MpegTs

/-- The PID of the program association table. -/
def patPid : Nat := 0

/-- Everything known about one transport stream. -/
structure Stream where
  pat : Option PatSection := none
  programs : List Program := []
  deriving Repr, Inhabited

/-- Routes a packet through programs in order, stopping at the first failure. -/
def readPrograms (d : Diagnostics) (packet : TsPacket) :
    List Program → List Program × Diagnostics × Except Error Unit
  | [] => ([], d, .ok ())
  | p :: ps =>
    let s := p.readPacket d packet
    match s.result with
    | .error e => (s.state :: ps, s.diagnostics, .error e)
    | .ok () =>
      let (ps, d, r) := readPrograms s.diagnostics packet ps
      (s.state :: ps, d, r)

/-- Ends the handlers of the programs in order. -/
def finishPrograms (d : Diagnostics) : List Program → List Program × Diagnostics
  | [] => ([], d)
  | p :: ps =>
    let (p, d) := p.finish d
    let (ps, d) := finishPrograms d ps
    (p :: ps, d)

namespace Stream

/-- A PCR has been seen on some program's PCR PID. -/
def sawPcr (s : Stream) : Bool := s.programs.any (·.sawPcr)

/-- The program with a given number. -/
def program? (s : Stream) (programNumber : Nat) : Option Program :=
  s.programs.find? (·.programNumber == programNumber)

/-- Replaces the first program with a given number. -/
def setProgram (s : Stream) (programNumber : Nat) (p : Program) : Stream :=
  { s with programs := go s.programs }
where
  go : List Program → List Program
    | [] => []
    | q :: qs => if q.programNumber = programNumber then p :: qs else q :: go qs

/-- Routes one packet to the programs; without a PAT only PID `0` is routed. -/
def readPacket (s : Stream) (d : Diagnostics) (packet : TsPacket) : Stepped Stream Unit :=
  if s.pat.isNone ∧ packet.pid ≠ patPid then ⟨s, d, .ok ()⟩
  else
    let (programs, d, r) := readPrograms d packet s.programs
    ⟨{ s with programs }, d, r⟩

/-- Ends every handler of every program, recording what they report. -/
def finish (s : Stream) (d : Diagnostics) : Stream × Diagnostics :=
  let (programs, d) := finishPrograms d s.programs
  ({ s with programs }, d)

end Stream

end MpegTs
