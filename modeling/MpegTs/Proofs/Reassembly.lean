import MpegTs.Pes.Assembler

/-!
# PES reassembly loses, duplicates and reorders nothing

The transport packets of one PID, pushed into a fresh `PesAssembler` and then finished,
yield one completed PES payload per unit of the packet sequence, in order. A unit is what a
packet with the payload unit start indicator opens: the PES header read from its payload,
the bytes after that header, and the payloads of the packets up to the next start
(`pesUnits`). A unit with `PES_packet_length` zero yields all its bytes; a bounded unit
yields the bytes it declares, and only the last unit may end short of them, which
`PesAssembler.finish` reports while the diagnostics are clean.

The proof looks at an assembler through what its PES in progress would yield if `more`
bytes joined it before it ended (`PesAssembler.yieldWith`). Absorbing payload moves bytes
from `more` into the state without changing that view, so each push is a step on it, and
`pushAll_units` chains the steps along a packet sequence.

## Main statements

* `PesAssembler.absorb_advances`: a PES in progress either stays open or completes.
* `PesAssembler.push_continue_step`, `PesAssembler.push_start_step`: the two kinds of push.
* `PesAssembler.pushAll_units`: the run lemma, from any well-formed state.
* `PesAssembler.reassembly_by_units`: the statement for a fresh assembler.
-/

namespace MpegTs

/-! ## Units of a packet sequence -/

/-- What a PES packet with header `h` yields when its payload ends after `body`: an unbounded
one all of `body`, a bounded one its declared length once that many bytes arrived, and
nothing when fewer did. -/
def yieldOf (h : PesHeader) (body : List UInt8) : Option CompletedPes :=
  if h.isUnbounded then some ⟨body, true, h.pts⟩
  else
    match h.declaredPayloadLen with
    | .ok n => if n ≤ body.length then some ⟨body.take n, false, h.pts⟩ else none
    | .error _ => none

/-- The declared length and the missing byte count of a bounded PES packet whose payload
ends after `body`, short of what it declared. -/
def shortfallOf (h : PesHeader) (body : List UInt8) : Option (Nat × Nat) :=
  if h.isUnbounded then none
  else
    match h.declaredPayloadLen with
    | .ok n => if body.length < n then some (n, n - body.length) else none
    | .error _ => none

/-- A unit of a packet sequence: the payload of a unit start and the non-empty payloads of
the packets after it, up to the next start. -/
structure PesUnit where
  start : List UInt8
  more : List (List UInt8)
  deriving Repr, DecidableEq

namespace PesUnit

/-- The completed PES a unit stands for: the header read from its start and, as payload,
the rest of the start followed by the later payloads. -/
def completed (u : PesUnit) : Option CompletedPes :=
  match PesPacket.parse u.start with
  | .ok pes => yieldOf pes.header (pes.payload ++ u.more.flatten)
  | .error _ => none

/-- The shortfall of a bounded unit that ends before its declared length. -/
def shortfall (u : PesUnit) : Option (Nat × Nat) :=
  match PesPacket.parse u.start with
  | .ok pes => shortfallOf pes.header (pes.payload ++ u.more.flatten)
  | .error _ => none

end PesUnit

/-- Groups the non-empty payloads of a packet sequence into units. The first component holds
the payloads before the first unit start, which belong to no unit. -/
def pesUnits : List TsPacket → List (List UInt8) × List PesUnit
  | [] => ([], [])
  | p :: ps =>
    let r := pesUnits ps
    match p.payload with
    | some (b :: bs) =>
      if p.header.payloadStart then ([], ⟨b :: bs, r.1⟩ :: r.2) else ((b :: bs) :: r.1, r.2)
    | _ => r

theorem pesUnits_start {p : TsPacket} {x : List UInt8} (ps : List TsPacket)
    (hpay : p.payload = some x) (hx : x ≠ []) (hstart : p.header.payloadStart = true) :
    pesUnits (p :: ps) = ([], ⟨x, (pesUnits ps).1⟩ :: (pesUnits ps).2) := by
  obtain ⟨b, bs, rfl⟩ := List.exists_cons_of_ne_nil hx
  simp [pesUnits, hpay, hstart]

theorem pesUnits_continue {p : TsPacket} {x : List UInt8} (ps : List TsPacket)
    (hpay : p.payload = some x) (hx : x ≠ []) (hstart : p.header.payloadStart = false) :
    pesUnits (p :: ps) = (x :: (pesUnits ps).1, (pesUnits ps).2) := by
  obtain ⟨b, bs, rfl⟩ := List.exists_cons_of_ne_nil hx
  simp [pesUnits, hpay, hstart]

theorem pesUnits_empty {p : TsPacket} (ps : List TsPacket) (hpay : p.payload.getD [] = []) :
    pesUnits (p :: ps) = pesUnits ps := by
  cases h : p.payload with
  | none => simp [pesUnits, h]
  | some x =>
    rw [h] at hpay
    cases hpay
    simp [pesUnits, h]

namespace PesAssembler

/-! ## The view of a PES in progress -/

/-- Pushes packets in order, stopping at the first push that fails; the outcome lists the PES
payloads the pushes completed. -/
def pushAll (a : PesAssembler) (d : Diagnostics) :
    List TsPacket → Stepped PesAssembler (List CompletedPes)
  | [] => ⟨a, d, .ok []⟩
  | p :: ps =>
    let s := a.push d p
    match s.result with
    | .error e => ⟨s.state, s.diagnostics, .error e⟩
    | .ok done =>
      let r := pushAll s.state s.diagnostics ps
      ⟨r.state, r.diagnostics, r.result.map (done ++ ·)⟩

/-- What the PES in progress yields if `more` payload bytes join it before it ends. -/
def yieldWith (a : PesAssembler) (more : List UInt8) : Option CompletedPes :=
  match a.state with
  | .idle => none
  | .unbounded => some ⟨a.pending ++ more, true, a.pts⟩
  | .bounded n =>
    if n ≤ (a.pending ++ more).length then some ⟨(a.pending ++ more).take n, false, a.pts⟩
    else none

/-- The shortfall of the bounded PES in progress if `more` bytes join it before it ends. -/
def shortfallWith (a : PesAssembler) (more : List UInt8) : Option (Nat × Nat) :=
  match a.state with
  | .bounded n =>
    if (a.pending ++ more).length < n then some (n, n - (a.pending ++ more).length) else none
  | _ => none

/-- The states an assembler keeps between packets: nothing pending while idle, and a bounded
PES packet still short of its declared length. -/
structure WellFormed (a : PesAssembler) : Prop where
  idle : a.state = .idle → a.pending = []
  bounded : ∀ n, a.state = .bounded n → a.pending.length < n

@[simp] theorem yieldWith_idle {a : PesAssembler} (h : a.state = .idle) (more : List UInt8) :
    a.yieldWith more = none := by
  simp [yieldWith, h]

@[simp] theorem shortfallWith_idle {a : PesAssembler} (h : a.state = .idle)
    (more : List UInt8) : a.shortfallWith more = none := by
  simp [shortfallWith, h]

/-- A bounded PES that has its declared length takes its first bytes from what is pending. -/
theorem take_pending_append {P x more : List UInt8} {n : Nat} (hP : P.length ≤ n)
    (hx : n - P.length ≤ x.length) :
    (P ++ (x ++ more)).take n = P ++ x.take (n - P.length) := by
  rw [List.take_append, List.take_of_length_le hP, List.take_append_of_le_length hx]

/-- How a step moves a PES in progress on, `before more` being what it yielded before the
step if `more` bytes followed: either it stays open, yields the same, and the step completes
nothing beyond `done`; or the step completes it, with what it yields whatever follows. -/
def Advances (a' : PesAssembler) (before : List UInt8 → Option CompletedPes)
    (done out : List CompletedPes) : Prop :=
  (a'.state ≠ .idle ∧ out = done ∧ ∀ more, a'.yieldWith more = before more) ∨
    (a'.state = .idle ∧ ∃ c, out = done ++ [c] ∧ ∀ more, before more = some c)

namespace Advances

variable {a' : PesAssembler} {before : List UInt8 → Option CompletedPes}
  {done out : List CompletedPes}

/-- Nothing is lost across a step: what it completes, then what the state yields, is what
was completed before it, then what the PES in progress yielded. Bytes may only follow a PES
that stays open. -/
theorem append_yieldWith (h : Advances a' before done out) {more : List UInt8}
    (hmore : a'.state = .idle → more = []) :
    out ++ (a'.yieldWith more).toList = done ++ (before more).toList := by
  rcases h with ⟨_, rfl, hy⟩ | ⟨hidle, c, rfl, hc⟩
  · rw [hy]
  · simp [hidle, hmore hidle, hc]

/-- A PES in progress that yields after a step yielded before it. -/
theorem isSome_before (h : Advances a' before done out) {more : List UInt8}
    (hopen : a'.state ≠ .idle → (a'.yieldWith more).isSome) : (before more).isSome := by
  rcases h with ⟨hne, -, hy⟩ | ⟨-, c, -, hc⟩
  · rw [← hy]
    exact hopen hne
  · simp [hc]

end Advances

/-! ## Absorbing payload -/

section Absorb

variable (a : PesAssembler) (x : List UInt8) (done : List CompletedPes)

/-- Absorbing payload into a PES in progress either leaves it open, with the bytes moved
from what may come to what has arrived, or completes it with what it would have yielded. -/
theorem absorb_advances (hne : a.state ≠ .idle)
    (hle : ∀ n, a.state = .bounded n → a.pending.length ≤ n) :
    Advances (a.absorb x done).1 (fun more => a.yieldWith (x ++ more)) done
      (a.absorb x done).2 := by
  cases hs : a.state with
  | idle => exact absurd hs hne
  | unbounded =>
    refine Or.inl ⟨by simp [absorb, hs], by simp [absorb, hs], fun more => ?_⟩
    simp [absorb, yieldWith, hs]
  | bounded n =>
    have hP := hle n hs
    by_cases hx : n - a.pending.length ≤ x.length
    · -- the declared length is reached: the PES completes with its first `n` bytes
      have hlen : a.pending.length + min (n - a.pending.length) x.length = n := by omega
      refine Or.inr ⟨by simp [absorb, hs, hlen, complete],
        ⟨a.pending ++ x.take (n - a.pending.length), false, a.pts⟩,
        by simp [absorb, hs, hlen, complete], fun more => ?_⟩
      have hmore : n ≤ a.pending.length + (x.length + more.length) := by omega
      simp [yieldWith, hs, hmore, take_pending_append hP hx]
    · -- still short: everything absorbed stays pending
      have htake : x.take (n - a.pending.length) = x := List.take_of_length_le (by omega)
      have hlen : ¬a.pending.length + x.length = n := by omega
      refine Or.inl ⟨by simp [absorb, hs, htake, hlen], by simp [absorb, hs, htake, hlen],
        fun more => ?_⟩
      simp [absorb, yieldWith, hs, htake, hlen]

theorem shortfallWith_absorb (hle : ∀ n, a.state = .bounded n → a.pending.length ≤ n)
    (more : List UInt8) :
    (a.absorb x done).1.shortfallWith more = a.shortfallWith (x ++ more) := by
  cases hs : a.state with
  | idle => simp [absorb, hs]
  | unbounded => simp [absorb, shortfallWith, hs]
  | bounded n =>
    have hP := hle n hs
    by_cases hx : n - a.pending.length ≤ x.length
    · have hlen : a.pending.length + min (n - a.pending.length) x.length = n := by omega
      have hmore : ¬a.pending.length + (x.length + more.length) < n := by omega
      simp [absorb, shortfallWith, hs, hlen, complete, hmore]
    · have htake : x.take (n - a.pending.length) = x := List.take_of_length_le (by omega)
      have hlen : ¬a.pending.length + x.length = n := by omega
      simp [absorb, shortfallWith, hs, htake, hlen]

theorem wellFormed_absorb (hidle : a.state = .idle → a.pending = [])
    (hle : ∀ n, a.state = .bounded n → a.pending.length ≤ n) : WellFormed (a.absorb x done).1 := by
  cases hs : a.state with
  | idle => exact ⟨fun _ => by simpa [absorb, hs] using hidle hs, fun n h => by simp [absorb, hs] at h⟩
  | unbounded => exact ⟨fun h => by simp [absorb, hs] at h, fun n h => by simp [absorb, hs] at h⟩
  | bounded n =>
    have hP := hle n hs
    by_cases hx : n - a.pending.length ≤ x.length
    · have hlen : a.pending.length + min (n - a.pending.length) x.length = n := by omega
      exact ⟨fun _ => by simp [absorb, hs, hlen, complete],
        fun m h => by simp [absorb, hs, hlen, complete] at h⟩
    · have htake : x.take (n - a.pending.length) = x := List.take_of_length_le (by omega)
      have hlen : ¬a.pending.length + x.length = n := by omega
      refine ⟨fun h => by simp [absorb, hs, htake, hlen] at h, fun m h => ?_⟩
      simp only [absorb, hs, htake, List.length_append, hlen, if_false, Collecting.bounded.injEq] at h ⊢
      omega

@[simp] theorem absorb_disabled : (a.absorb x done).1.disabled = a.disabled := by
  unfold absorb
  split
  · dsimp only
    split <;> rfl
  · rfl
  · rfl

end Absorb

/-! ## Opening a PES packet -/

/-- How a PES header opens the collection of its payload: unbounded, or bounded by the
payload length it declares. -/
inductive Opens (h : PesHeader) : Collecting → Prop
  | unbounded : h.isUnbounded = true → Opens h .unbounded
  | bounded {n : Nat} : h.isUnbounded = false → h.declaredPayloadLen = .ok n → Opens h (.bounded n)

/-- A freshly opened PES, with nothing pending, yields what its header lets it yield. -/
theorem yieldWith_opened {h : PesHeader} {k : Collecting} (hk : Opens h k) (a : PesAssembler)
    (hs : a.state = k) (hp : a.pending = []) (ht : a.pts = h.pts) (body : List UInt8) :
    a.yieldWith body = yieldOf h body := by
  cases hk with
  | unbounded hu => simp [yieldWith, yieldOf, hs, hp, ht, hu]
  | bounded hu hn => simp [yieldWith, yieldOf, hs, hp, ht, hu, hn]

theorem shortfallWith_opened {h : PesHeader} {k : Collecting} (hk : Opens h k) (a : PesAssembler)
    (hs : a.state = k) (hp : a.pending = []) (body : List UInt8) :
    a.shortfallWith body = shortfallOf h body := by
  cases hk with
  | unbounded hu => simp [shortfallWith, shortfallOf, hs, hu]
  | bounded hu hn => simp [shortfallWith, shortfallOf, hs, hp, hu, hn]

/-- An opened PES ends either complete or short of its declared length. -/
theorem yieldOf_or_shortfallOf {h : PesHeader} {k : Collecting} (hk : Opens h k)
    (body : List UInt8) : (yieldOf h body).isSome ∨ (shortfallOf h body).isSome := by
  cases hk with
  | unbounded hu => simp [yieldOf, hu]
  | @bounded n hu hn =>
    by_cases hlen : body.length < n
    · simp [shortfallOf, hu, hn, hlen]
    · simp [yieldOf, hu, hn, Nat.le_of_not_lt hlen]

/-- A start that succeeds without disabling the assembler has read a header with a PTS from
the payload and opened its PES, absorbing the bytes after the header. -/
theorem start_ok {a a' : PesAssembler} {d d' : Diagnostics} {x : List UInt8}
    {done out : List CompletedPes} (hrun : a.start d true x done = ⟨a', d', .ok out⟩)
    (hon : a'.disabled = false) :
    ∃ pes t k, PesPacket.parse x = .ok pes ∧ pes.header.pts = some t ∧ d' = d ∧
      Opens pes.header k ∧
      ({ a with state := k, pts := some t, prevPts := some t }.absorb pes.payload done) =
        (a', out) := by
  unfold start at hrun
  cases hp : PesPacket.parse x with
  | error e => simp [hp] at hrun
  | ok pes =>
    simp only [hp, Bool.not_true, Bool.false_eq_true, if_false] at hrun
    split at hrun
    · -- a scrambled PES disables the assembler
      simp only [Stepped.mk.injEq] at hrun
      obtain ⟨rfl, -, -⟩ := hrun
      simp [disable] at hon
    split at hrun
    · -- so does a stream without the optional header
      simp only [Stepped.mk.injEq] at hrun
      obtain ⟨rfl, -, -⟩ := hrun
      simp [disable] at hon
    cases ht : pes.header.pts with
    | none => simp [ht] at hrun
    | some t =>
      simp only [ht] at hrun
      split at hrun
      · simp at hrun
      split at hrun
      · rename_i hu
        simp only [Stepped.mk.injEq, Except.ok.injEq] at hrun
        obtain ⟨h1, rfl, h3⟩ := hrun
        exact ⟨pes, t, .unbounded, rfl, ht, rfl, .unbounded hu, Prod.ext h1 h3⟩
      · rename_i hu
        cases hn : pes.header.declaredPayloadLen with
        | error e => simp [hn] at hrun
        | ok n =>
          simp only [hn, Stepped.mk.injEq, Except.ok.injEq] at hrun
          obtain ⟨h1, rfl, h3⟩ := hrun
          exact ⟨pes, t, .bounded n, rfl, ht, rfl, .bounded (by simpa using hu) hn, Prod.ext h1 h3⟩

/-! ## One push -/

section Push

variable {a a' : PesAssembler} {d d' : Diagnostics} {p : TsPacket} {x : List UInt8}
  {out : List CompletedPes}

/-- A packet carries no payload bytes, or some. -/
theorem payload_cases (p : TsPacket) :
    p.payload.getD [] = [] ∨ ∃ x, p.payload = some x ∧ x ≠ [] := by
  cases h : p.payload with
  | none => simp
  | some x => cases x <;> simp

theorem push_of_disabled (h : a.disabled = true) : a.push d p = ⟨a, d, .ok []⟩ := by
  simp [push, h]

theorem push_scrambled (hd : a.disabled = false) (h : p.header.scrambling ≠ 0) :
    (a.push d p).state.disabled = true := by
  simp [push, hd, h, disable]

theorem push_empty (hd : a.disabled = false) (hs : p.header.scrambling = 0)
    (hpay : p.payload.getD [] = []) : a.push d p = ⟨a, d, .ok []⟩ := by
  cases h : p.payload with
  | none => simp [push, hd, hs, h]
  | some y =>
    rw [h] at hpay
    cases hpay
    simp [push, hd, hs, h]

theorem push_continue (hd : a.disabled = false) (hs : p.header.scrambling = 0)
    (hpay : p.payload = some x) (hx : x ≠ []) (hst : p.header.payloadStart = false) :
    a.push d p = if a.state = .idle then ⟨a, d, .error (.missingPayloadStart a.pid)⟩
      else ⟨(a.absorb x []).1, d, .ok (a.absorb x []).2⟩ := by
  obtain ⟨b, bs, rfl⟩ := List.exists_cons_of_ne_nil hx
  cases hst' : a.state <;> simp [push, start, hd, hs, hpay, hst, hst']

theorem push_start (hd : a.disabled = false) (hs : p.header.scrambling = 0)
    (hpay : p.payload = some x) (hx : x ≠ []) (hst : p.header.payloadStart = true) :
    a.push d p = match a.state with
      | .idle => a.start d true x []
      | .unbounded => (a.complete true).1.start d true x [(a.complete true).2]
      | .bounded n => ⟨a, d, .error (.unexpectedPayloadStart a.pending.length n)⟩ := by
  obtain ⟨b, bs, rfl⟩ := List.exists_cons_of_ne_nil hx
  cases hst' : a.state <;> simp [push, hd, hs, hpay, hst, hst', complete]

/-- A continuation packet moves the PES in progress on by its payload. It needs a PES in
progress, and records nothing. -/
theorem push_continue_step (hwf : WellFormed a) (hd : a.disabled = false)
    (hs : p.header.scrambling = 0) (hpay : p.payload = some x) (hx : x ≠ [])
    (hst : p.header.payloadStart = false) (hrun : a.push d p = ⟨a', d', .ok out⟩) :
    a.state ≠ .idle ∧ d' = d ∧ a'.disabled = false ∧ WellFormed a' ∧
      (∀ more, a'.shortfallWith more = a.shortfallWith (x ++ more)) ∧
      Advances a' (fun more => a.yieldWith (x ++ more)) [] out := by
  rw [push_continue hd hs hpay hx hst] at hrun
  by_cases hidle : a.state = .idle
  · simp [hidle] at hrun
  simp only [hidle, if_false, Stepped.mk.injEq, Except.ok.injEq] at hrun
  obtain ⟨rfl, rfl, rfl⟩ := hrun
  have hle : ∀ n, a.state = .bounded n → a.pending.length ≤ n :=
    fun n h => Nat.le_of_lt (hwf.bounded n h)
  exact ⟨hidle, rfl, by simp [hd], wellFormed_absorb a x [] hwf.idle hle,
    shortfallWith_absorb a x [] hle, absorb_advances a x [] hidle hle⟩

/-- A unit start closes an unbounded PES in progress, refuses a bounded one, and opens the
PES whose header it carries; the bytes after that header are its first payload. -/
theorem push_start_step (hwf : WellFormed a) (hd : a.disabled = false)
    (hs : p.header.scrambling = 0) (hpay : p.payload = some x) (hx : x ≠ [])
    (hst : p.header.payloadStart = true) (hrun : a.push d p = ⟨a', d', .ok out⟩)
    (hon : a'.disabled = false) :
    ∃ pes k, PesPacket.parse x = .ok pes ∧ Opens pes.header k ∧ d' = d ∧ WellFormed a' ∧
      (a.state ≠ .idle → (a.yieldWith []).isSome) ∧
      (∀ more, a'.shortfallWith more = shortfallOf pes.header (pes.payload ++ more)) ∧
      Advances a' (fun more => yieldOf pes.header (pes.payload ++ more)) (a.yieldWith []).toList
        out := by
  -- the state the start opens from: idle, with nothing pending
  obtain ⟨a₀, hidle₀, hpend₀, hrun₀, hclosed⟩ : ∃ a₀ : PesAssembler, a₀.state = .idle ∧
      a₀.pending = [] ∧ a₀.start d true x (a.yieldWith []).toList = ⟨a', d', .ok out⟩ ∧
      (a.state ≠ .idle → (a.yieldWith []).isSome) := by
    rw [push_start hd hs hpay hx hst] at hrun
    cases hst' : a.state with
    | idle =>
      rw [hst'] at hrun
      exact ⟨a, hst', hwf.idle hst', by simpa [hst'] using hrun, fun h => absurd rfl h⟩
    | unbounded =>
      rw [hst'] at hrun
      exact ⟨(a.complete true).1, rfl, rfl, by simpa [yieldWith, hst', complete] using hrun,
        fun _ => by simp [yieldWith, hst']⟩
    | bounded n => simp [hst'] at hrun
  obtain ⟨pes, t, k, hparse, hpts, rfl, hk, habs⟩ := start_ok hrun₀ hon
  -- the opened PES has nothing pending and the header's PTS
  let a₁ : PesAssembler := { a₀ with state := k, pts := some t, prevPts := some t }
  have hne₁ : a₁.state ≠ .idle := by cases hk <;> simp [a₁]
  have hle₁ : ∀ n, a₁.state = .bounded n → a₁.pending.length ≤ n := by simp [a₁, hpend₀]
  have hyield : ∀ body, a₁.yieldWith body = yieldOf pes.header body :=
    yieldWith_opened hk a₁ rfl hpend₀ hpts.symm
  have ha' : (a₁.absorb pes.payload (a.yieldWith []).toList).1 = a' := congrArg Prod.fst habs
  refine ⟨pes, k, hparse, hk, rfl, ?_, hclosed, fun more => ?_, ?_⟩
  · rw [← ha']
    exact wellFormed_absorb a₁ _ _ (fun h => absurd h hne₁) hle₁
  · rw [← ha', shortfallWith_absorb a₁ _ _ hle₁]
    exact shortfallWith_opened hk a₁ rfl hpend₀ _
  · have hadv := absorb_advances a₁ pes.payload (a.yieldWith []).toList hne₁ hle₁
    rw [habs] at hadv
    simpa only [hyield] using hadv

end Push

/-! ## Runs of pushes -/

/-- What a run of pushes from `a`, ending in `a'` with `out` completed, does with the units of
its packets: `lead` are the payloads that continue the PES in progress at `a`, `units` the
units started after them. What the run completes, then what `a'` still yields, is the PES in
progress followed by one completed PES per unit; a unit start closes what is in progress;
every unit but the last completes, and the last one completes or falls short, as `a'`
records. -/
structure RunSpec (a : PesAssembler) (lead : List (List UInt8)) (units : List PesUnit)
    (a' : PesAssembler) (out : List CompletedPes) : Prop where
  lead_nil : a.state = .idle → lead = []
  emitted : out ++ (a'.yieldWith []).toList =
    (a.yieldWith lead.flatten).toList ++ units.filterMap PesUnit.completed
  closed : a.state ≠ .idle → units ≠ [] → (a.yieldWith lead.flatten).isSome
  inner : ∀ u ∈ units.dropLast, u.completed.isSome
  last : ∀ u, units.getLast? = some u → u.completed.isSome ∨ u.shortfall.isSome
  shortfall : a'.shortfallWith [] =
    match units.getLast? with
    | some u => u.shortfall
    | none => a.shortfallWith lead.flatten
  wellFormed : WellFormed a'

theorem pushAll_of_disabled {a : PesAssembler} (d : Diagnostics) (h : a.disabled = true) :
    ∀ ps, pushAll a d ps = ⟨a, d, .ok []⟩
  | [] => rfl
  | p :: ps => by simp [pushAll, push_of_disabled h, pushAll_of_disabled d h ps, Except.map]

/-- A run that ends enabled started enabled: a disabled assembler stays as it is. -/
theorem disabled_of_pushAll {a a' : PesAssembler} {d d' : Diagnostics} {ps : List TsPacket}
    {r : Except Error (List CompletedPes)} (hrun : pushAll a d ps = ⟨a', d', r⟩)
    (hon : a'.disabled = false) : a.disabled = false := by
  cases h : a.disabled
  · rfl
  · rw [pushAll_of_disabled d h ps, Stepped.mk.injEq] at hrun
    rw [← hrun.1, h] at hon
    exact hon

/-- A successful run of pushes is a successful push followed by a successful run. -/
theorem pushAll_cons_ok {a a' : PesAssembler} {d d' : Diagnostics} {p : TsPacket}
    {ps : List TsPacket} {out : List CompletedPes}
    (hrun : pushAll a d (p :: ps) = ⟨a', d', .ok out⟩) :
    ∃ a₁ d₁ done out', a.push d p = ⟨a₁, d₁, .ok done⟩ ∧
      pushAll a₁ d₁ ps = ⟨a', d', .ok out'⟩ ∧ out = done ++ out' := by
  simp only [pushAll] at hrun
  split at hrun
  · simp at hrun
  · rename_i done hres
    cases hrest : pushAll (a.push d p).state (a.push d p).diagnostics ps with
    | mk a₂ d₂ r =>
      rw [hrest] at hrun
      cases r with
      | error e => simp [Except.map] at hrun
      | ok out' =>
        simp only [Except.map, Stepped.mk.injEq, Except.ok.injEq] at hrun
        obtain ⟨rfl, rfl, rfl⟩ := hrun
        exact ⟨_, _, done, out', by rw [← hres], hrest, rfl⟩

section Steps

variable {a a₁ a' : PesAssembler} {lead : List (List UInt8)} {units : List PesUnit}
  {done out : List CompletedPes} {x : List UInt8}

/-- A continuation packet adds its payload in front of the bytes that continue the PES in
progress. -/
theorem RunSpec.continue_step (hne : a.state ≠ .idle)
    (hsf : ∀ more, a₁.shortfallWith more = a.shortfallWith (x ++ more))
    (hadv : Advances a₁ (fun more => a.yieldWith (x ++ more)) [] done)
    (h : RunSpec a₁ lead units a' out) : RunSpec a (x :: lead) units a' (done ++ out) where
  lead_nil hidle := absurd hidle hne
  emitted := by
    rw [List.append_assoc, h.emitted, ← List.append_assoc, hadv.append_yieldWith (fun hi => by simp [h.lead_nil hi])]
    simp
  closed _ hunits := by
    simpa using hadv.isSome_before (fun hne₁ => h.closed hne₁ hunits)
  inner := h.inner
  last := h.last
  shortfall := by
    rw [h.shortfall]
    cases units.getLast? <;> simp [hsf]
  wellFormed := h.wellFormed

/-- A unit start puts a new unit in front of the units that follow it, its header read from
the start's payload and its payload continued by `lead`. -/
theorem RunSpec.start_step {pes : PesPacket} {k : Collecting} (hparse : PesPacket.parse x = .ok pes)
    (hk : Opens pes.header k) (hclosed : a.state ≠ .idle → (a.yieldWith []).isSome)
    (hsf : ∀ more, a₁.shortfallWith more = shortfallOf pes.header (pes.payload ++ more))
    (hadv : Advances a₁ (fun more => yieldOf pes.header (pes.payload ++ more))
      (a.yieldWith []).toList done)
    (h : RunSpec a₁ lead units a' out) :
    RunSpec a [] (⟨x, lead⟩ :: units) a' (done ++ out) := by
  have hunit : (PesUnit.mk x lead).completed = yieldOf pes.header (pes.payload ++ lead.flatten) := by
    simp [PesUnit.completed, hparse]
  have hunit_sf :
      (PesUnit.mk x lead).shortfall = shortfallOf pes.header (pes.payload ++ lead.flatten) := by
    simp [PesUnit.shortfall, hparse]
  -- the new unit completes when another unit follows it
  have hcomplete : units ≠ [] → (PesUnit.mk x lead).completed.isSome := fun hunits => by
    rw [hunit]
    exact hadv.isSome_before (fun hne₁ => h.closed hne₁ hunits)
  refine ⟨fun _ => rfl, ?_, fun _ _ => by simpa using hclosed ‹_›, ?_, ?_, ?_, h.wellFormed⟩
  · rw [List.append_assoc, h.emitted, ← List.append_assoc, hadv.append_yieldWith (fun hi => by simp [h.lead_nil hi]),
      ← hunit]
    cases hc : (PesUnit.mk x lead).completed <;> simp [hc]
  · intro u hu
    by_cases hunits : units = []
    · simp [hunits] at hu
    · rw [List.dropLast_cons_of_ne_nil hunits] at hu
      rcases List.mem_cons.1 hu with rfl | hu
      · exact hcomplete hunits
      · exact h.inner u hu
  · intro u hu
    by_cases hunits : units = []
    · simp only [hunits, List.getLast?_singleton, Option.some.injEq] at hu
      subst hu
      rw [hunit, hunit_sf]
      exact yieldOf_or_shortfallOf hk _
    · rw [List.getLast?_cons_of_ne_nil hunits] at hu
      exact h.last u hu
  · rw [h.shortfall]
    by_cases hunits : units = []
    · simp [hunits, hsf, hunit_sf]
    · rw [List.getLast?_cons_of_ne_nil hunits]
      cases hl : units.getLast? with
      | none => exact absurd (List.getLast?_eq_none_iff.1 hl) hunits
      | some u => rfl

end Steps

/-- The run lemma: a run of pushes from a well-formed state that neither fails nor ends
disabled records nothing and meets `RunSpec` on the units of its packets. -/
theorem pushAll_units (ps : List TsPacket) :
    ∀ (a : PesAssembler) (d : Diagnostics) {a' : PesAssembler} {d' : Diagnostics}
      {out : List CompletedPes}, WellFormed a → a.disabled = false →
      pushAll a d ps = ⟨a', d', .ok out⟩ → a'.disabled = false →
      d' = d ∧ RunSpec a (pesUnits ps).1 (pesUnits ps).2 a' out := by
  induction ps with
  | nil =>
    intro a d a' d' out hwf _ hrun _
    simp only [pushAll, Stepped.mk.injEq, Except.ok.injEq] at hrun
    obtain ⟨rfl, rfl, rfl⟩ := hrun
    exact ⟨rfl, fun _ => rfl, by simp [pesUnits], fun _ h => absurd rfl h, by simp [pesUnits],
      by simp [pesUnits], by simp [pesUnits], hwf⟩
  | cons p ps ih =>
    intro a d a' d' out hwf hd hrun hon
    obtain ⟨a₁, d₁, done, out', hpush, hrest, rfl⟩ := pushAll_cons_ok hrun
    have hd₁ := disabled_of_pushAll hrest hon
    -- a scrambled packet would have disabled the assembler for the rest of the run
    have hs : p.header.scrambling = 0 := Classical.byContradiction fun hs => by
      have := push_scrambled (d := d) hd hs
      rw [hpush] at this
      rw [this] at hd₁
      cases hd₁
    rcases payload_cases p with hemp | ⟨x, hpay, hx⟩
    · -- a packet without payload bytes changes nothing
      rw [push_empty hd hs hemp, Stepped.mk.injEq] at hpush
      obtain ⟨rfl, rfl, hdone⟩ := hpush
      cases hdone
      rw [pesUnits_empty ps hemp]
      exact ih a d hwf hd hrest hon
    cases hst : p.header.payloadStart
    · obtain ⟨hne, rfl, -, hwf₁, hsf, hadv⟩ := push_continue_step hwf hd hs hpay hx hst hpush
      obtain ⟨rfl, hspec⟩ := ih a₁ _ hwf₁ hd₁ hrest hon
      rw [pesUnits_continue ps hpay hx hst]
      exact ⟨rfl, hspec.continue_step hne hsf hadv⟩
    · obtain ⟨pes, k, hparse, hk, rfl, hwf₁, hclosed, hsf, hadv⟩ :=
        push_start_step hwf hd hs hpay hx hst hpush hd₁
      obtain ⟨rfl, hspec⟩ := ih a₁ _ hwf₁ hd₁ hrest hon
      rw [pesUnits_start ps hpay hx hst]
      exact ⟨rfl, hspec.start_step hparse hk hclosed hsf hadv⟩

/-! ## Finishing -/

/-- The PES payload a finish hands back, as a list of at most one. -/
def finishedPes : Except Error (Option CompletedPes) → List CompletedPes
  | .ok (some c) => [c]
  | _ => []

/-- A PES in progress that falls short yields nothing. -/
theorem yieldWith_of_shortfallWith {a : PesAssembler} {more : List UInt8} {n k : Nat}
    (h : a.shortfallWith more = some (n, k)) : a.yieldWith more = none := by
  unfold shortfallWith at h
  split at h
  · rename_i m hs
    split at h
    · rename_i hlt
      have hnot : ¬m ≤ (a.pending ++ more).length := Nat.not_le_of_lt hlt
      simp only [yieldWith, hs, hnot, if_false]
    · cases h
  · cases h

/-- Finishing hands back what the PES in progress yields, unless it falls short: that is an
error while the diagnostics are clean, and dropped otherwise. -/
theorem finish_result {a : PesAssembler} (hwf : WellFormed a) (hon : a.disabled = false)
    (d : Diagnostics) :
    (a.finish d).result =
      match a.shortfallWith [] with
      | some (n, k) => if d.isClean then .error (.incompleteBoundedPes n k) else .ok none
      | none => .ok (a.yieldWith []) := by
  cases hs : a.state with
  | idle => simp [finish, hon, hs, yieldWith, shortfallWith]
  | unbounded => simp [finish, hon, hs, yieldWith, shortfallWith, complete]
  | bounded n =>
    have hlt := hwf.bounded n hs
    by_cases hclean : d.isClean <;> simp [finish, hon, hs, shortfallWith, hlt, hclean]

/-- PES reassembly loses, duplicates and reorders nothing. Push the packets of one PID into a
fresh assembler, no push failing and the assembler never disabled, then finish it. The first
non-empty payload starts a unit, the pushes record nothing, and the PES payloads handed out,
by the pushes in order and then by finish, are the completed units in order. Every unit but
the last completes; the last one completes or falls short of its declared length, and finish
fails, with `incompleteBoundedPes`, exactly when it falls short while the diagnostics are
clean. -/
theorem reassembly_by_units (pid : Nat) (d : Diagnostics) (ps : List TsPacket)
    {a : PesAssembler} {d' : Diagnostics} {out : List CompletedPes}
    (hrun : pushAll { pid } d ps = ⟨a, d', .ok out⟩) (hon : a.disabled = false) :
    (pesUnits ps).1 = [] ∧ d' = d ∧
      out ++ finishedPes (a.finish d').result = (pesUnits ps).2.filterMap PesUnit.completed ∧
      (∀ u ∈ (pesUnits ps).2.dropLast, u.completed.isSome) ∧
      (∀ u, (pesUnits ps).2.getLast? = some u → u.completed.isSome ∨ u.shortfall.isSome) ∧
      ∀ e, (a.finish d').result = .error e ↔
        ∃ u n k, (pesUnits ps).2.getLast? = some u ∧ u.shortfall = some (n, k) ∧ d.isClean ∧
          e = .incompleteBoundedPes n k := by
  have hfresh : WellFormed ({ pid } : PesAssembler) := ⟨fun _ => rfl, fun _ h => by cases h⟩
  obtain ⟨rfl, hspec⟩ := pushAll_units ps { pid } d hfresh rfl hrun hon
  have hlead := hspec.lead_nil rfl
  -- the shortfall at the end is the last unit's
  have hsf : a.shortfallWith [] = (pesUnits ps).2.getLast?.bind PesUnit.shortfall := by
    rw [hspec.shortfall]
    cases (pesUnits ps).2.getLast? <;> simp [shortfallWith]
  have hfin := finish_result hspec.wellFormed hon d'
  refine ⟨hlead, rfl, ?_, hspec.inner, hspec.last, fun e => ?_⟩
  · have hemit : out ++ (a.yieldWith []).toList = (pesUnits ps).2.filterMap PesUnit.completed := by
      simpa [hlead] using hspec.emitted
    rw [← hemit]
    congr 1
    cases hs : a.shortfallWith [] with
    | none =>
      rw [hfin, hs]
      cases a.yieldWith [] <;> rfl
    | some nk =>
      obtain ⟨n, k⟩ := nk
      rw [yieldWith_of_shortfallWith hs]
      by_cases hclean : d'.isClean <;> simp [hfin, hs, hclean, finishedPes]
  · rw [hfin]
    cases hl : (pesUnits ps).2.getLast? with
    | none => simp [hsf, hl]
    | some u =>
      cases hu : u.shortfall with
      | none => simp [hsf, hl, hu]
      | some nk =>
        obtain ⟨n, k⟩ := nk
        by_cases hclean : d'.isClean
        · simp only [hsf, hl, hu, Option.bind_some, hclean, if_true, Except.error.injEq]
          refine ⟨fun h => ⟨u, n, k, rfl, hu, trivial, h.symm⟩,
            fun ⟨u', n', k', hl', hu', _, he⟩ => ?_⟩
          cases Option.some.inj hl'
          rw [hu, Option.some.injEq, Prod.mk.injEq] at hu'
          obtain ⟨rfl, rfl⟩ := hu'
          exact he.symm
        · simp [hsf, hl, hu, hclean]

/-- One bounded PES packet over two transport packets: a unit start carrying the 14-byte
header, which declares four payload bytes, and two of them; then a continuation with three
bytes, the last of them surplus. -/
def twoPacketPes : List TsPacket :=
  [{ header := { payloadStart := true },
     payload := some [0, 0, 1, 0xE0, 0, 12, 0x84, 0x80, 5, 0x21, 0, 1, 0, 1, 0xAA, 0xBB] },
   { header := {}, payload := some [0xCC, 0xDD, 0xEE] }]

theorem reassembly_of_twoPacketPes :
    pushAll { pid := 0 } {} twoPacketPes =
        ⟨{ pid := 0, prevPts := some 0 }, {}, .ok [⟨[0xAA, 0xBB, 0xCC, 0xDD], false, some 0⟩]⟩ ∧
      ({ pid := 0, prevPts := some 0 } : PesAssembler).disabled = false ∧
      ((pesUnits twoPacketPes).1 = [] ∧ ({} : Diagnostics) = {} ∧
        [⟨[0xAA, 0xBB, 0xCC, 0xDD], false, some 0⟩] ++
            finishedPes (({ pid := 0, prevPts := some 0 } : PesAssembler).finish {}).result =
          (pesUnits twoPacketPes).2.filterMap PesUnit.completed ∧
        (∀ u ∈ (pesUnits twoPacketPes).2.dropLast, u.completed.isSome) ∧
        (∀ u, (pesUnits twoPacketPes).2.getLast? = some u →
          u.completed.isSome ∨ u.shortfall.isSome) ∧
        ∀ e, (({ pid := 0, prevPts := some 0 } : PesAssembler).finish {}).result = .error e ↔
          ∃ u n k, (pesUnits twoPacketPes).2.getLast? = some u ∧ u.shortfall = some (n, k) ∧
            ({} : Diagnostics).isClean ∧ e = .incompleteBoundedPes n k) :=
  ⟨rfl, rfl, reassembly_by_units 0 {} twoPacketPes rfl rfl⟩

end PesAssembler

end MpegTs
