import MpegTs.Psi.Descriptor
import MpegTs.Proofs.SuccessfulReads

/-!
# Descriptor loops read back

A descriptor loop is a byte string: tag, length and data, descriptor after descriptor.
`Descriptor.bytes` spells one descriptor as those bytes, `descriptorsBytes` a loop, and the
loop codec is exact in both directions:

* `parseDescriptors_descriptorsBytes`: a loop of descriptors that fit (tag and length in a byte
  each, language entries of three code bytes and an audio type byte, and no other descriptor
  that would read as a language one) is decoded back;
* `descriptorsBytes_of_parseDescriptors`: a loop that was decoded is spelled by the descriptors
  it was decoded to, and they fit;
* `Reads.descriptors` and `readDescriptors_ok`: the same for the reader of a loop at the cursor,
  whose bits are those of the loop's bytes (`bitsOf_descriptorsBytes`).
-/

namespace MpegTs

namespace LanguageEntry

/-- An entry of three code bytes and an audio type that fits a byte. -/
structure Fits (e : LanguageEntry) : Prop where
  code_length : e.code.length = 3
  audioType_lt : e.audioType < 2 ^ 8

/-- The four bytes of an entry. -/
def bytes (e : LanguageEntry) : List UInt8 := e.code ++ [UInt8.ofNat e.audioType]

instance (e : LanguageEntry) : Decidable e.Fits :=
  decidable_of_iff (e.code.length = 3 ∧ e.audioType < 2 ^ 8)
    ⟨fun ⟨h₁, h₂⟩ => ⟨h₁, h₂⟩, fun ⟨h₁, h₂⟩ => ⟨h₁, h₂⟩⟩

theorem length_bytes {e : LanguageEntry} (hf : e.Fits) : e.bytes.length = 4 := by
  simp [bytes, hf.code_length]

end LanguageEntry

/-- Entries that fit are split back out of their bytes. -/
theorem languageEntries_bytes :
    ∀ {es : List LanguageEntry}, (∀ e ∈ es, e.Fits) →
      languageEntries (es.map LanguageEntry.bytes).flatten = es
  | [], _ => rfl
  | ⟨code, audioType⟩ :: es, hf => by
    have he := hf _ (List.mem_cons_self ..)
    have hrest := languageEntries_bytes fun e he' => hf e (List.mem_cons_of_mem _ he')
    obtain ⟨hcode, haudio⟩ := he
    match code, hcode with
    | [a, b, c], _ =>
      simp only [List.map_cons, List.flatten_cons, LanguageEntry.bytes, List.cons_append,
        List.nil_append, languageEntries, hrest, UInt8.toNat_ofNat', Nat.mod_eq_of_lt haudio]

/-- Data of whole entries is split into entries that fit, and spelled by them again. -/
theorem bytes_languageEntries :
    ∀ {data : List UInt8}, data.length % 4 = 0 →
      ((languageEntries data).map LanguageEntry.bytes).flatten = data ∧
        (∀ e ∈ languageEntries data, e.Fits) ∧ (languageEntries data).length * 4 = data.length
  | [], _ => ⟨rfl, by simp [languageEntries], rfl⟩
  | [_], h | [_, _], h | [_, _, _], h => by simp at h
  | a :: b :: c :: t :: rest, h => by
    obtain ⟨hbytes, hfits, hlen⟩ := @bytes_languageEntries rest (by simp at h; omega)
    refine ⟨?_, ?_, ?_⟩
    · simp [languageEntries, LanguageEntry.bytes, hbytes]
    · intro e he
      simp only [languageEntries, List.mem_cons] at he
      rcases he with rfl | he
      · exact ⟨rfl, t.toNat_lt⟩
      · exact hfits e he
    · simp only [languageEntries, List.length_cons] at hlen ⊢
      omega

theorem bitsOf_flatten (bytes : List (List UInt8)) :
    bitsOf bytes.flatten = (bytes.map bitsOf).flatten := by
  induction bytes with
  | nil => rfl
  | cons b bytes ih => rw [List.flatten_cons, bitsOf_append, ih, List.map_cons, List.flatten_cons]

namespace Descriptor

/-- A descriptor whose tag and length fit a byte each, whose language entries fit, and which,
kept as raw data, would not be read as a language descriptor. -/
def Fits : Descriptor → Prop
  | language es => es.length * 4 < 2 ^ 8 ∧ ∀ e ∈ es, e.Fits
  | other tag data =>
    tag < 2 ^ 8 ∧ data.length < 2 ^ 8 ∧ ¬(tag = languageTag ∧ data.length % 4 = 0)

instance : (d : Descriptor) → Decidable d.Fits
  | language _ => inferInstanceAs (Decidable (_ ∧ ∀ e ∈ _, _))
  | other _ _ => inferInstanceAs (Decidable (_ ∧ _ ∧ ¬(_ ∧ _)))

/-- The data bytes of a descriptor. -/
def dataBytes : Descriptor → List UInt8
  | language es => (es.map LanguageEntry.bytes).flatten
  | other _ data => data

/-- A descriptor's bytes: tag, length, data. -/
def bytes (d : Descriptor) : List UInt8 :=
  UInt8.ofNat d.tag :: UInt8.ofNat d.dataLen :: d.dataBytes

variable {d : Descriptor}

theorem tag_lt (hf : d.Fits) : d.tag < 2 ^ 8 := by
  cases d with
  | language es =>
    show languageTag < 2 ^ 8
    decide
  | other tag data => exact hf.1

theorem dataLen_lt (hf : d.Fits) : d.dataLen < 2 ^ 8 := by
  cases d with
  | language es => exact hf.1
  | other tag data => exact hf.2.1

theorem length_dataBytes (hf : d.Fits) : d.dataBytes.length = d.dataLen := by
  cases d with
  | language es =>
    rw [dataBytes, dataLen, length_flatten_of_forall (m := 4)]
    · simp [Nat.mul_comm]
    · intro b hb
      obtain ⟨e, he, rfl⟩ := List.mem_map.1 hb
      exact LanguageEntry.length_bytes (hf.2 e he)
  | other tag data => rfl

theorem bitsOf_bytes (hf : d.Fits) : bitsOf d.bytes = d.bits := by
  have hbyte : ∀ {v : Nat}, v < 2 ^ 8 → byteBits (UInt8.ofNat v) = natBits 8 v := by
    intro v hv
    rw [byteBits_eq_natBits, UInt8.toNat_ofNat', Nat.mod_eq_of_lt hv]
  have htag := hbyte (tag_lt hf)
  have hlen := hbyte (dataLen_lt hf)
  cases d with
  | language es =>
    -- each entry is its code bytes and the byte of its audio type
    have hentries : bitsOf (dataBytes (language es)) =
        (es.map fun e => bitsOf e.code ++ natBits 8 e.audioType).flatten := by
      rw [dataBytes, bitsOf_flatten, List.map_map]
      congr 1
      apply List.map_congr_left
      intro e he
      rw [Function.comp_apply, LanguageEntry.bytes, bitsOf_append, bitsOf_cons, bitsOf_nil,
        List.append_nil, hbyte (hf.2 e he).audioType_lt]
    rw [bytes, bitsOf_cons, bitsOf_cons, htag, hlen, hentries]
    rfl
  | other tag data =>
    rw [bytes, bitsOf_cons, bitsOf_cons, htag, hlen]
    rfl

/-- A descriptor that fits is decoded from its tag and data. -/
theorem decode_dataBytes (hf : d.Fits) : decode d.tag d.dataBytes = d := by
  cases d with
  | language es =>
    have hlen : (dataBytes (language es)).length % 4 = 0 := by
      rw [length_dataBytes hf, dataLen]
      omega
    show decode languageTag (dataBytes (language es)) = language es
    rw [decode, if_neg (by simp [hlen]), dataBytes, languageEntries_bytes hf.2]
  | other tag data =>
    obtain ⟨-, -, hnot⟩ := hf
    rw [Descriptor.tag, dataBytes, decode, if_pos (by omega)]

/-- A descriptor decoded from a tag, a length and that many data bytes is spelled by them,
fits, and has that length. -/
theorem bytes_decode (tag len : UInt8) {data : List UInt8} (h : data.length = len.toNat) :
    (decode tag.toNat data).bytes = tag :: len :: data ∧ (decode tag.toNat data).Fits ∧
      (decode tag.toNat data).dataLen = data.length := by
  have hlen : UInt8.ofNat data.length = len := by rw [h, UInt8.ofNat_toNat]
  unfold decode
  split
  · rename_i hother
    refine ⟨?_, ⟨tag.toNat_lt, by rw [h]; exact len.toNat_lt, by omega⟩, rfl⟩
    rw [bytes, Descriptor.tag, dataLen, dataBytes, UInt8.ofNat_toNat, hlen]
  · rename_i hlanguage
    have htag : tag.toNat = languageTag := by omega
    obtain ⟨hbytes, hfits, hcount⟩ := @bytes_languageEntries data (by omega)
    refine ⟨?_, ⟨by rw [hcount, h]; exact len.toNat_lt, hfits⟩, hcount⟩
    rw [bytes, Descriptor.tag, dataLen, dataBytes, hbytes, hcount, hlen, ← htag, UInt8.ofNat_toNat]

end Descriptor

/-- The bytes of a descriptor loop. -/
def descriptorsBytes (ds : List Descriptor) : List UInt8 := (ds.map Descriptor.bytes).flatten

theorem descriptorsBytes_cons (d : Descriptor) (ds : List Descriptor) :
    descriptorsBytes (d :: ds) = d.bytes ++ descriptorsBytes ds := rfl

theorem length_descriptorsBytes :
    ∀ {ds : List Descriptor}, (∀ d ∈ ds, d.Fits) → (descriptorsBytes ds).length = descriptorsLength ds
  | [], _ => rfl
  | d :: ds, hf => by
    have hrest := length_descriptorsBytes fun d' h => hf d' (List.mem_cons_of_mem _ h)
    rw [descriptorsBytes_cons, List.length_append, hrest, Descriptor.bytes, List.length_cons,
      List.length_cons, Descriptor.length_dataBytes (hf d (List.mem_cons_self ..)),
      descriptorsLength]
    omega

theorem bitsOf_descriptorsBytes {ds : List Descriptor} (hf : ∀ d ∈ ds, d.Fits) :
    bitsOf (descriptorsBytes ds) = descriptorsBits ds := by
  rw [descriptorsBytes, bitsOf_flatten, List.map_map, descriptorsBits]
  congr 1
  exact List.map_congr_left fun d hd => Descriptor.bitsOf_bytes (hf d hd)

theorem length_descriptorsBits {ds : List Descriptor} (hf : ∀ d ∈ ds, d.Fits) :
    (descriptorsBits ds).length = 8 * descriptorsLength ds := by
  rw [← bitsOf_descriptorsBytes hf, length_bitsOf, length_descriptorsBytes hf]

/-- A loop of descriptors that fit is decoded back. -/
theorem parseDescriptors_descriptorsBytes :
    ∀ {ds : List Descriptor}, (∀ d ∈ ds, d.Fits) → parseDescriptors (descriptorsBytes ds) = .ok ds
  | [], _ => by rw [descriptorsBytes, List.map_nil, List.flatten_nil, parseDescriptors]
  | d :: ds, hf => by
    have hd := hf d (List.mem_cons_self ..)
    have hrest := parseDescriptors_descriptorsBytes fun d' h => hf d' (List.mem_cons_of_mem _ h)
    have hlen := Descriptor.length_dataBytes hd
    have hdataLen : (UInt8.ofNat d.dataLen).toNat = d.dataLen := by
      rw [UInt8.toNat_ofNat', Nat.mod_eq_of_lt (Descriptor.dataLen_lt hd)]
    have htag : (UInt8.ofNat d.tag).toNat = d.tag := by
      rw [UInt8.toNat_ofNat', Nat.mod_eq_of_lt (Descriptor.tag_lt hd)]
    rw [descriptorsBytes_cons, Descriptor.bytes, List.cons_append, List.cons_append,
      parseDescriptors, if_pos (by rw [hdataLen, List.length_append, hlen]; omega), hdataLen,
      ← hlen, List.drop_left, hrest, List.take_left, htag, Descriptor.decode_dataBytes hd]

/-- A loop that was decoded is spelled by the descriptors it was decoded to, which fit and take
all of its bytes. -/
theorem descriptorsBytes_of_parseDescriptors :
    ∀ {bytes : List UInt8} {ds : List Descriptor}, parseDescriptors bytes = .ok ds →
      descriptorsBytes ds = bytes ∧ (∀ d ∈ ds, d.Fits) ∧ descriptorsLength ds = bytes.length
  | [], ds, h => by
    rw [parseDescriptors] at h
    cases h
    exact ⟨rfl, by simp, rfl⟩
  | [_], ds, h => by
    rw [parseDescriptors] at h
    cases h
  | tag :: len :: rest, ds, h => by
    rw [parseDescriptors] at h
    split at h
    · rename_i hfit
      split at h
      · rename_i ds' hrest
        cases h
        obtain ⟨hbytes, hfits, hlength⟩ := descriptorsBytes_of_parseDescriptors hrest
        obtain ⟨hdbytes, hdfits, hdlen⟩ :=
          Descriptor.bytes_decode tag len (show (rest.take len.toNat).length = len.toNat by simp; omega)
        refine ⟨?_, ?_, ?_⟩
        · rw [descriptorsBytes_cons, hdbytes, hbytes, List.cons_append, List.cons_append,
            List.take_append_drop]
        · intro d hd
          rcases List.mem_cons.1 hd with rfl | hd
          · exact hdfits
          · exact hfits d hd
        · rw [descriptorsLength, hdlen, hlength]
          simp only [List.length_take, List.length_drop, List.length_cons]
          omega
      · cases h
    · cases h
termination_by bytes => bytes.length
decreasing_by simp only [List.length_cons, List.length_drop]; omega

/-! ## The loop at the cursor -/

open BitCursor BitRead

/-- A loop of descriptors that fit reads back from a byte boundary, when its bits are fewer
than the cursor skips at once. -/
theorem Reads.descriptors {o : Nat} {ds : List Descriptor} (ho : o % 8 = 0)
    (hf : ∀ d ∈ ds, d.Fits) (hsmall : 8 * descriptorsLength ds < 0x100000000) :
    Reads o (readDescriptors (descriptorsLength ds)) (descriptorsBits ds) ds := by
  have h := Reads.bytes ho (descriptorsBytes ds) (by rw [length_descriptorsBytes hf]; exact hsmall)
  rw [length_descriptorsBytes hf, bitsOf_descriptorsBytes hf] at h
  unfold readDescriptors
  exact Reads.bind_last h (by rw [parseDescriptors_descriptorsBytes hf]; rfl)

/-- A loop that was read at the cursor took the bytes its descriptors spell. -/
theorem readDescriptors_ok {data : List UInt8} {n k : Nat} {ds : List Descriptor} {c : BitCursor}
    (h : readDescriptors n (atBit data k) = .ok ds c) :
    k % 8 = 0 ∧ c = atBit data (k + 8 * n) ∧ k / 8 + n ≤ data.length ∧
      descriptorsLength ds = n ∧ (∀ d ∈ ds, d.Fits) ∧ bitWindow data k (8 * n) = descriptorsBits ds := by
  unfold readDescriptors at h
  obtain ⟨block, c₁, hblock, h⟩ := bind_ok h
  obtain ⟨hk, rfl, hfit, rfl⟩ := readBytes_ok hblock
  obtain ⟨hds, rfl⟩ := ofExcept_ok h
  obtain ⟨hbytes, hfits, hlen⟩ := descriptorsBytes_of_parseDescriptors hds
  refine ⟨hk, rfl, hfit, by rw [hlen]; simp; omega, hfits, ?_⟩
  -- the window is the bits of the bytes read, which are those of the loop
  rw [← bitsOf_descriptorsBytes hfits, hbytes, bitsOf_take, bitsOf_drop, bitWindow_eq,
    show 8 * (k / 8) = k by omega]

/-! ## The loop codec in both directions -/

end MpegTs
