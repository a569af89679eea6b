import MpegTs.Proofs.SectionCodec

/-!
# The CRC-32 residue of a section

The PSI codec relies on three facts about `Crc`: the register can be run over a message in
pieces, the checksum is the finalised register from the preset, and a message followed by
its own big-endian checksum leaves a register of zero, and no other four bytes do. From
them, `verifyCrc` is the test "the register over the whole section is zero", and a section
framed by `assembleSection` passes it.

The one fact that is not algebra is about short sections: a check refuses a section of fewer
than four bytes before computing anything, and no such section has a register of zero, since
the preset's low bits are ones and at most 24 message bits shift in above them
(`Crc.update_init_ne_zero`).

## Main statements

* `Crc.checksum_append_eq_zero_iff`: the residue of a codeword.
* `verifyCrc_ok_iff_checksum`: the check is the residue test.
* `sectionCrc_laws`: the laws together, with framing.
-/

namespace MpegTs

namespace Crc

/-- The register over fewer than four bytes from the preset is never zero. -/
theorem update_init_ne_zero {bytes : List UInt8} (h : bytes.length < crcLen) :
    update init bytes ≠ 0 := by
  intro hzero
  have hlen : (bitsOf bytes).length ≤ 24 := by
    rw [length_bitsOf]
    unfold crcLen at h
    omega
  rw [update_eq_feedBits, feedBits_eq_shifts _ (by omega), repeat_shift_eq_zero_iff,
    UInt32.xor_eq_zero_iff] at hzero
  -- the message bits sit eight places or more above the lowest bit, which the preset sets
  obtain ⟨k, hk⟩ : ∃ k, 32 - (bitsOf bytes).length = k + 1 := ⟨31 - (bitsOf bytes).length, by omega⟩
  have hval := congrArg UInt32.toNat hzero
  rw [toNat_topBits (by omega), hk, Nat.pow_succ, ← Nat.mul_assoc] at hval
  have hinit : init.toNat = 2 ^ 32 - 1 := rfl
  omega

/-- A message followed by four bytes checks to zero exactly when the four bytes are the
message's checksum, most significant byte first. -/
theorem checksum_append_eq_zero_iff (x : List UInt8) {t : List UInt8} (ht : t.length = 4) :
    checksum (x ++ t) = 0 ↔ t = bytesOfU32 (checksum x).toNat := by
  rw [checksum, finalize, update_append, update_eq_zero_iff ht]
  constructor
  · intro hval
    rw [← bytesOfU32_natOfBytes ht, ← hval]
    rfl
  · rintro rfl
    rw [natOfBytes_bytesOfU32 (UInt32.toNat_lt _)]
    rfl

end Crc

/-- A section passes its check exactly when its checksum, trailer included, is zero. -/
theorem verifyCrc_ok_iff_checksum {t : TableKind} {bytes : List UInt8} :
    verifyCrc t bytes = .ok () ↔ Crc.checksum bytes = 0 := by
  rw [verifyCrc_ok_iff, Crc.checksum, Crc.finalize]
  constructor
  · exact fun h => h.2
  · intro hzero
    refine ⟨?_, hzero⟩
    by_contra hshort
    exact Crc.update_init_ne_zero (by omega) hzero

/-- Framing fails exactly when the body with its trailer does not fit one section. -/
theorem assembleSection_error_iff {tableId : Nat} {privateIndicator : Bool} {body : List UInt8} :
    (∃ e, assembleSection tableId privateIndicator body = .error e) ↔
      maxSectionLength < body.length + crcLen := by
  rw [← Nat.not_le, ← assembleSection_ok_iff]
  cases assembleSection tableId privateIndicator body with
  | error e => simp
  | ok out => simp

/-- The CRC-32 laws the section codec relies on. The register runs over a message in pieces;
the checksum is the finalised register from the preset; a message followed by four bytes
checks to zero exactly when they are its big-endian checksum; so a section passes
`verifyCrc` exactly when its checksum, trailer included, is zero, and a body framed by
`assembleSection` passes it whenever it fits one section, which is exactly when framing does
not fail. -/
theorem sectionCrc_laws :
    (∀ (c : UInt32) (a b : List UInt8), Crc.update (Crc.update c a) b = Crc.update c (a ++ b)) ∧
    (∀ x : List UInt8, Crc.finalize (Crc.update Crc.init x) = Crc.checksum x) ∧
    (∀ x t : List UInt8, t.length = 4 →
      (Crc.checksum (x ++ t) = 0 ↔ t = bytesOfU32 (Crc.checksum x).toNat)) ∧
    (∀ (table : TableKind) (bytes : List UInt8),
      verifyCrc table bytes = .ok () ↔ Crc.checksum bytes = 0) ∧
    (∀ (table : TableKind) (tableId : Nat) (privateIndicator : Bool) (body : List UInt8),
      body.length + crcLen ≤ maxSectionLength →
        ∃ out, assembleSection tableId privateIndicator body = .ok out ∧
          verifyCrc table out = .ok ()) ∧
    (∀ (tableId : Nat) (privateIndicator : Bool) (body : List UInt8),
      (∃ e, assembleSection tableId privateIndicator body = .error e) ↔
        maxSectionLength < body.length + crcLen) := by
  refine ⟨fun c a b => (Crc.update_append c a b).symm, fun x => rfl,
    fun x t ht => Crc.checksum_append_eq_zero_iff x ht, fun _ _ => verifyCrc_ok_iff_checksum,
    fun table tableId pi body hfit => ?_, fun _ _ _ => assembleSection_error_iff⟩
  obtain ⟨out, hout⟩ := assembleSection_ok_iff.2 hfit
  exact ⟨out, hout, (assembleSection_ok_frame (t := table) hout).2.2.2⟩

/-- The body of a one-program PAT: program 1 with its PMT on PID `0x100`. -/
def onePatBody : List UInt8 := [0x00, 0x01, 0xC1, 0x00, 0x00, 0x00, 0x01, 0xE1, 0x00]

/-- The first twelve bytes of that PAT followed by their checksum check to zero, and the body
framed as a PAT section passes the check. -/
theorem sectionCrc_laws_onePat :
    (bytesOfU32 (Crc.checksum ([0x00, 0xB0, 0x0D] ++ onePatBody)).toNat).length = 4 ∧
      Crc.checksum (([0x00, 0xB0, 0x0D] ++ onePatBody) ++
        bytesOfU32 (Crc.checksum ([0x00, 0xB0, 0x0D] ++ onePatBody)).toNat) = 0 ∧
      onePatBody.length + crcLen ≤ maxSectionLength ∧
      ∃ out, assembleSection patTableId false onePatBody = .ok out ∧ verifyCrc .pat out = .ok () :=
  ⟨rfl, (sectionCrc_laws.2.2.1 _ _ rfl).2 rfl, by decide,
    sectionCrc_laws.2.2.2.2.1 .pat patTableId false onePatBody (by decide)⟩

end MpegTs
