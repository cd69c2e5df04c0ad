import SimpleProxy.Core.Base64

/-!
# The base64 functions

The decoder sizes its buffer by the padding and fills it by the characters. The
two agree but for a text with two `=` at its end, which the loop decodes to one
byte more than the buffer holds; what is encoded is read back all the same. The
encoder never writes the padding it means to write, and the decoder takes a `=` anywhere,
where it stands for six zero bits.
-/

namespace SimpleProxy.Theorems.Codec

open CString Stores

/-- **Stores of the decoder.** Every store hits one of the `decoded_len + 1` bytes, and
the padding is at most what it is taken from, if and only if the text does not end in
`==` or is rejected, for its length or for a byte outside of the table. -/
theorem stores_inside_iff (input : Bytes) :
    (Inside (base64DecodedLen input + 1) (base64DecodeStores input) ∧
      (input.length % 4 = 0 → base64Padding input ≤ input.length / 4 * 3)) ↔
    ¬ (input.length % 4 = 0 ∧ [61, 61] <:+ input ∧ ∀ c ∈ input, Base64Valid c) := by
  rw [inside_base64DecodeStores, and_iff_left base64Padding_le_groups]

/-- `QQ==`: two bytes are allocated and three are stored. -/
theorem stores_inside_fails :
    base64DecodedLen (bytes "QQ==") + 1 = 2 ∧
      base64DecodeStores (bytes "QQ==") = [⟨0, 65⟩, ⟨1, 0⟩, ⟨2, 0⟩, ⟨1, 0⟩] ∧
      ¬ ∀ input, Inside (base64DecodedLen input + 1) (base64DecodeStores input) ∧
        (input.length % 4 = 0 → base64Padding input ≤ input.length / 4 * 3) := by
  have stores : base64DecodeStores (bytes "QQ==") = [⟨0, 65⟩, ⟨1, 0⟩, ⟨2, 0⟩, ⟨1, 0⟩] := by
    decide
  refine ⟨by decide, stores, fun all => ?_⟩
  have inside := (all (bytes "QQ==")).1
  rw [stores] at inside
  exact absurd (inside ⟨2, 0⟩ (by simp)) (by decide)

/-- **Decoding.** The text of any bytes is accepted and gives them back, `decoded_len` is
their number, and they stand at the front of the buffer with a NUL behind them. -/
theorem decode_encode (x : Bytes) :
    (∃ d, base64Decode (Base64.encode x) = some d ∧ d.decodedLen = x.length ∧ d.bytes = x) ∧
      base64DecodedLen (Base64.encode x) = x.length ∧
      (∀ i < x.length, contents (base64DecodeStores (Base64.encode x)) i = x[i]?) ∧
      contents (base64DecodeStores (Base64.encode x)) x.length = some 0 := by
  refine ⟨?_, base64DecodedLen_encode x, ?_, ?_⟩
  · obtain ⟨d, hd, hbytes⟩ := Option.map_eq_some_iff.mp (base64Decode_encode x)
    exact ⟨d, hd, (decodedLen_eq hd).trans (base64DecodedLen_encode x), hbytes⟩
  · intro i hi
    rw [contents_base64DecodeStores_encode x (Nat.le_of_lt hi), if_neg (Nat.ne_of_lt hi)]
  · rw [contents_base64DecodeStores_encode x (Nat.le_refl _), if_pos rfl]

/-- What the encoder is for: it writes the padded text, of four characters for every
three bytes, and the decoder gives back the bytes and their number. -/
def Encodes (x : Bytes) : Prop :=
  base64Encode x = Base64.encode x ∧ (base64Encode x).length = 4 * ((x.length + 2) / 3) ∧
    ∃ d, base64Decode (base64Encode x) = some d ∧ d.decodedLen = x.length ∧ d.bytes = x

/-- **Encoding.** The encoder does so exactly for the lengths that need no padding. -/
theorem encodes_iff (x : Bytes) : Encodes x ↔ x.length % 3 = 0 := by
  constructor
  · rintro ⟨same, -⟩
    rw [base64Encode_eq] at same
    have decoded := base64Decode_encode (zeroPadded x)
    rw [same, base64Decode_encode] at decoded
    have hlength := congrArg List.length (Option.some.inj decoded)
    rw [length_zeroPadded] at hlength
    omega
  · intro groups
    have same : base64Encode x = Base64.encode x := by
      rw [base64Encode_eq, zeroPadded_of_mod_eq_zero groups]
    obtain ⟨d, hd, hbytes⟩ := Option.map_eq_some_iff.mp (base64Decode_encode x)
    have hnumber : d.decodedLen = x.length :=
      (decodedLen_eq hd).trans (base64DecodedLen_encode x)
    exact ⟨same, by rw [same, Base64.length_encode, Nat.mul_comm], d, by rw [same, hd], hnumber,
      hbytes⟩

/-- One byte gets the text of three, and comes back with two NULs. -/
theorem encodes_fails :
    base64Encode (bytes "M") = bytes "TQAA" ∧ Base64.encode (bytes "M") = bytes "TQ==" ∧
      (base64Decode (base64Encode (bytes "M"))).map Decoded.decodedLen = some 3 ∧
      ¬ ∀ x, Encodes x := by
  have written : base64Encode (bytes "M") = bytes "TQAA" := by decide +kernel
  refine ⟨written, by decide, by rw [written]; decide, fun all => ?_⟩
  have same := (all (bytes "M")).1
  rw [written] at same
  exact absurd same (by decide)

/-- **Acceptance.** The decoder tells the padded texts from the others if a `=` has nothing
but one more behind it, or if the length or a byte outside of the table gives the text away. -/
theorem accepts_padded_iff (input : Bytes) :
    ((base64Decode input).isSome = true ↔ Base64.Padded input) ↔
      Base64.PadsLast input ∨ input.length % 4 ≠ 0 ∨
        ∃ c ∈ input, c ∉ Base64.alphabet ∧ c ≠ Base64.pad := by
  rw [base64Decode_isSome]
  constructor
  · intro same
    by_cases accepted : input.length % 4 = 0 ∧ ∀ c ∈ input, c ∈ Base64.alphabet ∨ c = Base64.pad
    · exact .inl (Base64.padsLast_of_letters (same.mp accepted).2)
    · rw [not_and_or] at accepted
      rcases accepted with length | bytes
      · exact .inr (.inl length)
      · simp only [not_forall, not_or] at bytes
        obtain ⟨c, member, outside⟩ := bytes
        exact .inr (.inr ⟨c, member, outside⟩)
  · intro told
    constructor
    · rintro ⟨groups, all⟩
      rcases told with last | length | ⟨c, member, letter, padding⟩
      · exact ⟨groups, Base64.letters_of_padsLast all last⟩
      · exact absurd groups length
      · exact ((all c member).elim letter padding).elim
    · rintro ⟨groups, letters, k, rfl, -, all⟩
      refine ⟨groups, fun c member => ?_⟩
      rcases List.mem_append.mp member with letter | padding
      · exact .inl (all c letter)
      · exact .inr (List.eq_of_mem_replicate padding)

/-- `=AAA` is decoded to three NULs. -/
theorem accepts_padded_fails :
    (base64Decode (bytes "=AAA")).map Decoded.bytes = some [0, 0, 0] ∧
      ¬ Base64.Padded (bytes "=AAA") ∧
      ¬ ∀ input, (base64Decode input).isSome = true ↔ Base64.Padded input := by
  have decoded : (base64Decode (bytes "=AAA")).map Decoded.bytes = some [0, 0, 0] := by decide
  have front : ¬ Base64.Padded (bytes "=AAA") := by
    rintro ⟨-, letters⟩
    have last := Base64.padsLast_of_letters letters [] (bytes "AAA") rfl
    revert last
    decide
  refine ⟨decoded, front, fun all => front ((all (bytes "=AAA")).mp ?_)⟩
  rw [← Option.isSome_map (f := Decoded.bytes), decoded]
  rfl

end SimpleProxy.Theorems.Codec
