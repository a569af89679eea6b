import MpegTs.Proofs.Reassembly

/-!
# The states a PES assembler reaches

Whatever a client does with a `PesAssembler` (any transport packets pushed, `finish` called
at any point and as often as it likes, every outcome ignored, errors included), the
assembler stays `Settled`:

* while idle, nothing is pending;
* while collecting a bounded PES packet, fewer bytes are pending than it declared, so the
  count of missing bytes, `declared - pending.length`, is never cut off at zero;
* once disabled, it is idle with nothing pending, and it stays as it is: a push hands out
  nothing and a finish nothing.

The proof names the states each exit of `push` and `finish` leaves (`settled_of_idle` for
those that empty the buffer, `settled_absorb` for those that add payload to it) and carries
`Settled` along a sequence of calls (`settled_calls`).

## Main statements

* `PesAssembler.settled_push`, `PesAssembler.settled_finish`: the two steps.
* `PesAssembler.calls_of_disabled`: a disabled assembler ignores every later call.
* `PesAssembler.settled_after_calls`: the statement for a fresh assembler.
-/

namespace MpegTs

namespace PesAssembler

/-! ## Calls and the invariant -/

/-- A call a client makes on an assembler, with the diagnostics it passes along. -/
inductive Call where
  | push (d : Diagnostics) (p : TsPacket)
  | finish (d : Diagnostics)

/-- The assembler after one call, whatever the call returned. -/
def call (a : PesAssembler) : Call → PesAssembler
  | .push d p => (a.push d p).state
  | .finish d => (a.finish d).state

/-- The assembler after a sequence of calls. -/
def calls (a : PesAssembler) (cs : List Call) : PesAssembler := cs.foldl call a

/-- The states an assembler keeps between calls: well formed, and emptied when disabled. -/
structure Settled (a : PesAssembler) : Prop extends WellFormed a where
  disabled_idle : a.disabled = true → a.state = .idle ∧ a.pending = []

variable {a : PesAssembler}

/-- An idle assembler with nothing pending is settled, disabled or not. -/
theorem settled_of_idle (hs : a.state = .idle) (hp : a.pending = []) : Settled a where
  idle _ := hp
  bounded n h := by
    rw [hs] at h
    cases h
  disabled_idle _ := ⟨hs, hp⟩

theorem settled_disable (d : Diagnostics) (e : Error) : Settled (a.disable d e).1 :=
  settled_of_idle rfl rfl

theorem settled_complete (unbounded : Bool) : Settled (a.complete unbounded).1 :=
  settled_of_idle rfl rfl

/-- Absorbing payload into an enabled assembler settles it, from a state that may already hold
all the bytes it declared. -/
theorem settled_absorb (hd : a.disabled = false) (hidle : a.state = .idle → a.pending = [])
    (hle : ∀ n, a.state = .bounded n → a.pending.length ≤ n) (x : List UInt8)
    (done : List CompletedPes) : Settled (a.absorb x done).1 where
  toWellFormed := wellFormed_absorb a x done hidle hle
  disabled_idle h := by
    rw [absorb_disabled, hd] at h
    cases h

/-! ## One call -/

/-- Opening a PES packet from an enabled idle assembler settles it: every exit either keeps
the state, disables it, or absorbs the bytes after the header into an empty buffer. -/
theorem settled_start (hs : a.state = .idle) (hp : a.pending = []) (hd : a.disabled = false)
    (d : Diagnostics) (pusi : Bool) (x : List UInt8) (done : List CompletedPes) :
    Settled (a.start d pusi x done).state := by
  have hkeep : Settled a := settled_of_idle hs hp
  -- an opened PES starts from an empty buffer, whatever it declares
  have hopen : ∀ (k : Collecting) (t : Nat) (y : List UInt8),
      Settled ({ a with state := k, prevPts := some t, pts := some t }.absorb y done).1 := by
    intro k t y
    refine settled_absorb (a := { a with state := k, prevPts := some t, pts := some t }) hd
      (fun _ => hp) (fun n _ => ?_) _ _
    simp [hp]
  unfold start
  split
  · exact hkeep
  cases hparse : PesPacket.parse x with
  | error e => exact hkeep
  | ok pes =>
    dsimp only
    split
    · exact settled_disable d (.scrambledStream a.pid)
    split
    · exact settled_disable d (.unsupportedStreamType a.pid pes.header.streamId)
    cases hpts : pes.header.pts with
    | none => exact hkeep
    | some t =>
      dsimp only
      split
      · exact hkeep
      split
      · exact hopen .unbounded t _
      · cases hn : pes.header.declaredPayloadLen with
        | error e => exact settled_of_idle hs hp
        | ok n => exact hopen (.bounded n) t _

/-- A push leaves a settled assembler settled. -/
theorem settled_push (h : Settled a) (d : Diagnostics) (p : TsPacket) :
    Settled (a.push d p).state := by
  unfold push
  split
  · exact h
  rename_i hd
  simp only [Bool.not_eq_true] at hd
  split
  · exact settled_disable d (.scrambledStream a.pid)
  split
  · exact h
  · exact h
  rename_i x _ _
  dsimp only
  -- a unit start first closes an unbounded PES in progress
  generalize hclose : (if p.header.payloadStart = true ∧ a.state = .unbounded then
      ((a.complete true).1, [(a.complete true).2]) else (a, [])) = closed
  obtain ⟨a₁, done⟩ := closed
  obtain ⟨h₁, hd₁⟩ : Settled a₁ ∧ a₁.disabled = false := by
    by_cases hc : p.header.payloadStart = true ∧ a.state = .unbounded
    · rw [if_pos hc, Prod.mk.injEq] at hclose
      obtain ⟨rfl, -⟩ := hclose
      exact ⟨settled_complete true, hd⟩
    · rw [if_neg hc, Prod.mk.injEq] at hclose
      obtain ⟨rfl, -⟩ := hclose
      exact ⟨h, hd⟩
  have hle : ∀ n, a₁.state = .bounded n → a₁.pending.length ≤ n :=
    fun n hn => Nat.le_of_lt (h₁.bounded n hn)
  dsimp only
  split
  · rename_i hs
    exact settled_start hs (h₁.idle hs) hd₁ d _ x done
  · split
    · exact h₁
    · exact settled_absorb hd₁ h₁.idle hle x done
  · exact settled_absorb hd₁ h₁.idle hle x done

/-- Finishing leaves a settled assembler settled: it either keeps the state or empties the
buffer. -/
theorem settled_finish (h : Settled a) (d : Diagnostics) : Settled (a.finish d).state := by
  unfold finish
  split
  · exact h
  split
  · exact h
  · exact settled_complete true
  · dsimp only
    split <;> exact settled_of_idle rfl rfl

/-! ## Sequences of calls -/

theorem settled_call (h : Settled a) : ∀ c, Settled (a.call c)
  | .push d p => settled_push h d p
  | .finish d => settled_finish h d

/-- The run lemma: every sequence of calls keeps an assembler settled. -/
theorem settled_calls (cs : List Call) (h : Settled a) : Settled (a.calls cs) := by
  induction cs generalizing a with
  | nil => exact h
  | cons c cs ih => exact ih (settled_call h c)

theorem finish_of_disabled (h : a.disabled = true) (d : Diagnostics) :
    a.finish d = ⟨a, d, .ok none⟩ := by
  simp [finish, h]

/-- A disabled assembler ignores every later call. -/
theorem calls_of_disabled (h : a.disabled = true) (cs : List Call) : a.calls cs = a := by
  induction cs with
  | nil => rfl
  | cons c cs ih =>
    have hcall : a.call c = a := by
      cases c with
      | push d p => simp [call, push_of_disabled h]
      | finish d => simp [call, finish_of_disabled h]
    simpa [calls, hcall] using ih

/-- The states a PES assembler reaches. After any sequence of pushes and finishes on a fresh
assembler, whatever they returned: an idle assembler has nothing pending; one collecting a
bounded PES packet has fewer bytes pending than the packet declared, so the missing count
`declared - pending.length` is exact; and a disabled one is idle with nothing pending and
frozen: every later call leaves it as it is, a push handing out no payload and a finish
none. -/
theorem settled_after_calls (pid : Nat) (cs : List Call) :
    ((calls { pid } cs).state = .idle → (calls { pid } cs).pending = []) ∧
      (∀ n, (calls { pid } cs).state = .bounded n → (calls { pid } cs).pending.length < n) ∧
      ((calls { pid } cs).disabled = true →
        (calls { pid } cs).state = .idle ∧ (calls { pid } cs).pending = [] ∧
        (∀ later, (calls { pid } cs).calls later = calls { pid } cs) ∧
        (∀ d p, (calls { pid } cs).push d p = ⟨calls { pid } cs, d, .ok []⟩) ∧
        ∀ d, (calls { pid } cs).finish d = ⟨calls { pid } cs, d, .ok none⟩) := by
  have h : Settled (calls { pid } cs) := settled_calls cs (settled_of_idle rfl rfl)
  refine ⟨h.idle, h.bounded, fun hd => ?_⟩
  obtain ⟨hs, hp⟩ := h.disabled_idle hd
  exact ⟨hs, hp, calls_of_disabled hd, fun d _ => push_of_disabled hd, finish_of_disabled hd⟩

end PesAssembler

end MpegTs
