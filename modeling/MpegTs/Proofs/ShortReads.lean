import MpegTs.Segment.Source
import MpegTs.Proofs.UnwatchedPids
import MpegTs.Proofs.FirstError

/-!
# A segment file is fed packet by packet, however it is read

The command reads the segment file through a reader that may split it anywhere and may be
interrupted at any read. None of that reaches the validator:

* `Source.fill_eq` (beside the reader): a fill takes the next bytes of the file;
* `Validator.feedSource_eq_feedPackets`: the command's loop over a source feeds what
  `feedPackets` feeds from the bytes of the file, whatever the reads;
* `feedPackets_eq_feedAll`: that is the file's consecutive 188-byte packets (`packetChunks`),
  in order, stopping after the first that fails, and then, if all got through, a trailing
  partial packet recorded as truncated;
* `Validator.feedAll_stops`: which feeds such a run makes, and that it counts each of them;
* `run_feeds_file_packets`: the statement for a whole run, with its verdict.
-/

namespace MpegTs

/-- The consecutive 188-byte packets of a byte string; a trailing partial packet is left out. -/
def packetChunks (data : List UInt8) : List (List UInt8) :=
  (List.range (data.length / packetSize)).map fun i => (data.drop (packetSize * i)).take packetSize

theorem packetChunks_of_lt {data : List UInt8} (h : data.length < packetSize) :
    packetChunks data = [] := by
  simp [packetChunks, Nat.div_eq_of_lt h]

/-- A byte string of a packet or more starts with its first packet. -/
theorem packetChunks_of_le {data : List UInt8} (h : packetSize ≤ data.length) :
    packetChunks data = data.take packetSize :: packetChunks (data.drop packetSize) := by
  have hcount : data.length / packetSize = (data.drop packetSize).length / packetSize + 1 := by
    rw [List.length_drop]
    simp only [packetSize] at h ⊢
    omega
  rw [packetChunks, hcount, List.range_succ_eq_map, List.map_cons, List.map_map, packetChunks]
  congr 1
  -- packet `i + 1` of the string is packet `i` of the rest
  apply List.map_congr_left
  intro i _
  simp only [Function.comp_apply, List.drop_drop, Nat.mul_succ, Nat.add_comm]

/-! ## The packet loop over the bytes of a file -/

theorem feedPackets_nil (v : Validator) : feedPackets v [] = v := by
  rw [feedPackets]
  rfl

/-- A partial packet is recorded as truncated. -/
theorem feedPackets_short {data : List UInt8} (h0 : data ≠ []) (h : data.length < packetSize)
    (v : Validator) : feedPackets v data = v.record (.truncatedPacket packetSize data.length) := by
  rw [feedPackets, dif_neg (by simpa using h0)]
  simp only [List.take_of_length_le (Nat.le_of_lt h), if_pos h]
  rfl

/-- A full packet whose feed fails ends the loop. -/
theorem feedPackets_error {data : List UInt8} (h : packetSize ≤ data.length) {v v' : Validator}
    {e : Error} (hf : v.feed (data.take packetSize) = (v', .error e)) : feedPackets v data = v' := by
  rw [feedPackets, dif_neg (by simp only [packetSize] at h; omega)]
  simp only [List.length_take_of_le h, Nat.lt_irrefl, if_false, hf]

/-- A full packet that gets through is followed by the rest of the file. -/
theorem feedPackets_ok {data : List UInt8} (h : packetSize ≤ data.length) {v v' : Validator}
    (hf : v.feed (data.take packetSize) = (v', .ok ())) :
    feedPackets v data = feedPackets v' (data.drop packetSize) := by
  rw [feedPackets, dif_neg (by simp only [packetSize] at h; omega)]
  simp only [List.length_take_of_le h, Nat.lt_irrefl, if_false, hf]

/-! ## Any split of the file -/

namespace Source

theorem fill_eq_of {s s' : Source} {n : Nat} {packet : List UInt8} (h : s.fill n = (packet, s')) :
    packet = s.rest.take n ∧ s'.rest = s.rest.drop n := by
  simpa [h] using s.fill_eq n

/-- A fill that brought a whole packet found one in the file. -/
theorem le_length_of_fill {s : Source} {packet : List UInt8}
    (hpacket : packet = s.rest.take packetSize) (hfull : packet.length = packetSize) :
    packetSize ≤ s.rest.length := by
  have h := congrArg List.length hpacket
  rw [List.length_take, hfull] at h
  simp only [packetSize] at h ⊢
  omega

end Source

namespace Validator

/-- The command's loop feeds the same packets whatever the reads: short reads are joined and
interrupted ones made again, so it takes each packet of the file whole, and a partial one only
at its end. -/
theorem feedSource_eq_feedPackets (v : Validator) (s : Source) :
    v.feedSource s = feedPackets v s.rest := by
  fun_induction feedSource v s with
  | case1 v s packet s' hfill hzero =>
    -- nothing came: the file is at its end
    obtain ⟨hpacket, -⟩ := Source.fill_eq_of hfill
    have hrest : s.rest = [] := by
      rw [hpacket, List.length_take] at hzero
      simpa [packetSize] using hzero
    simp only [hfill, if_pos hzero, hrest, feedPackets_nil]
  | case2 v s packet s' hfill hne hfull v' e hfeed =>
    obtain ⟨hpacket, -⟩ := Source.fill_eq_of hfill
    have hle := Source.le_length_of_fill hpacket hfull
    simp only [hfill, if_neg hne, dif_pos hfull, hfeed]
    rw [hpacket] at hfeed
    exact (feedPackets_error hle hfeed).symm
  | case3 v s packet s' hfill hne hfull v' hfeed ih =>
    obtain ⟨hpacket, hrest⟩ := Source.fill_eq_of hfill
    have hle := Source.le_length_of_fill hpacket hfull
    simp only [hfill, if_neg hne, dif_pos hfull, hfeed, ih, hrest]
    rw [hpacket] at hfeed
    exact (feedPackets_ok hle hfeed).symm
  | case4 v s packet s' hfill hne hpart =>
    -- a partial packet came: it is the rest of the file
    obtain ⟨hpacket, -⟩ := Source.fill_eq_of hfill
    have hshort : s.rest.length < packetSize := by
      have h := congrArg List.length hpacket
      rw [List.length_take] at h
      simp only [packetSize] at h hpart ⊢
      omega
    have hall : packet = s.rest := by
      rw [hpacket, List.take_of_length_le (Nat.le_of_lt hshort)]
    have hnil : s.rest ≠ [] := fun h => hne (by rw [hall, h]; rfl)
    simp only [hfill, if_neg hne, dif_neg hpart]
    rw [hall, feedPackets_short hnil hshort]

/-- A feed counts one packet. -/
theorem packets_feed (v : Validator) (data : List UInt8) :
    (v.feed data).1.packets = v.packets + 1 := by
  have hproc := process_withPackets v (v.packets + 1) data
  -- failing or not, the feed keeps the count its packet set
  rcases v.feed_cases data with ⟨e, -, hr⟩ | ⟨-, hr⟩ <;> rw [hr, hproc]

/-- Feeding packets in order, stopping after the first that fails, makes the feeds of a prefix
of them: all but the last succeed, and the last fails unless no packet is left. Each feed
counts its packet. -/
theorem feedAll_stops :
    ∀ (cs : List (List UInt8)) (v : Validator), ∃ n ≤ cs.length,
      v.feedAll (cs.take n) = v.feedAll cs ∧ (v.feedAll cs).1.packets = v.packets + n ∧
      (∀ k < n, (v.feedAll (cs.take k)).2.isOk) ∧ (n < cs.length → (v.feedAll cs).2.isOk = false)
  | [], v => ⟨0, Nat.le_refl 0, rfl, rfl, fun _ hk => absurd hk (Nat.not_lt_zero _), fun h => absurd h (Nat.lt_irrefl 0)⟩
  | c :: cs, v => by
    cases hfeed : v.feed c with
    | mk v₁ r =>
      have hcount : v₁.packets = v.packets + 1 := by simpa [hfeed] using packets_feed v c
      cases r with
      | error e =>
        -- the first feed fails, and nothing more is fed
        refine ⟨1, by simp, by simp [feedAll, hfeed], by simp [feedAll, hfeed, hcount], ?_, ?_⟩
        · intro k hk
          rw [Nat.lt_one_iff.1 hk]
          rfl
        · intro _
          simp only [feedAll, hfeed]
          rfl
      | ok u =>
        obtain ⟨n, hn, htake, hpackets, hok, hstop⟩ := feedAll_stops cs v₁
        refine ⟨n + 1, by simp; omega, by simp [feedAll, hfeed, htake], ?_, ?_, ?_⟩
        · simp only [feedAll, hfeed, hpackets, hcount]
          omega
        · intro k hk
          cases k with
          | zero => rfl
          | succ k => simpa [feedAll, hfeed] using hok k (by omega)
        · intro hlt
          simpa [feedAll, hfeed] using hstop (by simp at hlt; omega)

end Validator

/-- The packet loop over a file's bytes feeds its consecutive packets in order, stopping after
the first that fails; if all got through and a partial packet is left, that is recorded as
truncated. -/
theorem feedPackets_eq_feedAll : ∀ (data : List UInt8) (v : Validator),
    feedPackets v data =
      if (v.feedAll (packetChunks data)).2.isOk ∧ data.length % packetSize ≠ 0 then
        (v.feedAll (packetChunks data)).1.record
          (.truncatedPacket packetSize (data.length % packetSize))
      else (v.feedAll (packetChunks data)).1
  | data, v => by
    by_cases hshort : data.length < packetSize
    · -- no whole packet: the file ends, or is one partial packet
      rw [packetChunks_of_lt hshort, Nat.mod_eq_of_lt hshort]
      by_cases hnil : data = []
      · subst hnil
        simp [feedPackets_nil, Validator.feedAll]
      · have hpos : data.length ≠ 0 := by simpa using hnil
        simp only [Validator.feedAll, Except.isOk, Except.toBool, ne_eq, hpos, not_false_eq_true,
          and_self, if_true, feedPackets_short hnil hshort]
    · have hle : packetSize ≤ data.length := Nat.le_of_not_lt hshort
      have hmod : (data.drop packetSize).length % packetSize = data.length % packetSize := by
        rw [List.length_drop]
        simp only [packetSize] at hle ⊢
        omega
      rw [packetChunks_of_le hle]
      cases hfeed : v.feed (data.take packetSize) with
      | mk v' r =>
        cases r with
        | error e =>
          simp [Validator.feedAll, hfeed, feedPackets_error hle hfeed, Except.isOk, Except.toBool]
        | ok u =>
          have ih := feedPackets_eq_feedAll (data.drop packetSize) v'
          rw [hmod] at ih
          simp only [Validator.feedAll, hfeed, feedPackets_ok hle hfeed, ih]
termination_by data => data.length
decreasing_by
  rw [List.length_drop]
  simp only [packetSize] at hle ⊢
  omega

/-- The command feeds a segment file packet by packet, however it is read. Whatever the reader
does (short reads anywhere, interruptions at any read), a run feeds a fresh validator the
file's consecutive 188-byte packets in order, stopping after the first feed that fails: it
makes the feeds of the first `n` packets, all but the last succeeding and the last failing
unless no packet is left. If none failed and the file ends in a partial packet of `r` bytes,
it then records a truncated packet of `r` bytes, a hard error that makes the verdict's status
16, and feeds nothing more. The verdict counts one packet per feed, and its status, errors and
warnings are those of the finished run: it is the verdict on the file read whole. -/
theorem run_feeds_file_packets (file : String) (t : SegmentType) (x : Bool) (s : Source) :
    let v := Validator.new t x
    let cs := packetChunks s.rest
    let r := s.rest.length % packetSize
    Verdict.ofSource file t x s = Verdict.ofRun file (validateSegment t x s.rest) ∧
    v.feedSource s = (if (v.feedAll cs).2.isOk ∧ r ≠ 0 then
        (v.feedAll cs).1.record (.truncatedPacket packetSize r) else (v.feedAll cs).1) ∧
    (∃ n ≤ cs.length, v.feedAll (cs.take n) = v.feedAll cs ∧
      (∀ k < n, (v.feedAll (cs.take k)).2.isOk) ∧
      (n < cs.length → (v.feedAll cs).2.isOk = false) ∧
      (Verdict.ofSource file t x s).packets = n) ∧
    ((v.feedAll cs).2.isOk → r ≠ 0 → (Verdict.ofSource file t x s).status = 16) ∧
    (Verdict.ofSource file t x s).status = (v.feedSource s).finish.diagnostics.status ∧
    (Verdict.ofSource file t x s).errors = (v.feedSource s).finish.diagnostics.errors ∧
    (Verdict.ofSource file t x s).warnings = (v.feedSource s).finish.diagnostics.warnings := by
  intro v cs r
  have hrun := (v.feedSource_eq_feedPackets s).trans (feedPackets_eq_feedAll s.rest v)
  obtain ⟨n, hn, htake, hpackets, hok, hstop⟩ := Validator.feedAll_stops (packetChunks s.rest) v
  refine ⟨?_, hrun, ⟨n, hn, htake, hok, hstop, ?_⟩, fun hall hr => ?_, rfl, rfl, rfl⟩
  · -- the verdict does not depend on how the reads split the file
    rw [Verdict.ofSource, validateSegment, v.feedSource_eq_feedPackets s]
  · -- neither a recorded truncation nor `finish` counts a packet
    show (v.feedSource s).finish.packets = n
    have hzero : v.packets = 0 := rfl
    rw [Validator.finish_withPackets, hrun]
    split <;> simp only [Validator.record, hpackets, hzero, Nat.zero_add]
  · -- every feed got through, so the truncated packet is the first error recorded
    have hok' : (v.feedAll cs).2 = .ok () := by
      cases h : (v.feedAll cs).2 with
      | ok u => rfl
      | error e =>
        rw [h] at hall
        cases hall
    have herrors : (v.feedAll cs).1.diagnostics.errors = [] :=
      ((Validator.feedAll_diagnostics cs v).2 hok').errors
    have hrec : ((v.feedAll cs).1.record (.truncatedPacket packetSize r)).diagnostics.errors =
        [(Error.truncatedPacket packetSize r).toIssue] := by
      simp [Validator.record, Diagnostics.record, Error.isSoft, herrors]
    obtain ⟨es, hes, -⟩ :=
      (Validator.grows_finish ((v.feedAll cs).1.record (.truncatedPacket packetSize r))).errors
    show (v.feedSource s).finish.diagnostics.status = 16
    rw [hrun, if_pos ⟨hall, hr⟩, Diagnostics.status_eq_head, hes, hrec]
    rfl

end MpegTs
