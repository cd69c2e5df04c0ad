import SimpleProxy.Lib.Base64
import SimpleProxy.Lib.Stores

/-!
# Base64

`base64_encode` and `base64_decode` of `util.c`. The loop of the decoder stores a
byte as soon as eight bits have come together; `decoded_len` is computed from the
length and the padding alone, so the stored bytes and the length are two results
here. `base64DecodeStores` has the stores one by one, those in front of an early
return included.
-/

namespace SimpleProxy

open CString Stores

/-- `base64_dtable`: six bits for a byte of the alphabet, 0 for `=`, 0x80 for any
other byte. -/
def base64Dtable (c : UInt8) : UInt8 :=
  if 65 ≤ c && c ≤ 90 then c - 65
  else if 97 ≤ c && c ≤ 122 then c - 71
  else if 48 ≤ c && c ≤ 57 then c + 4
  else if c = 43 then 62
  else if c = 47 then 63
  else if c = 61 then 0
  else 0x80

/-- What `base64_decode` leaves: `decoded_len` and the bytes its loop stored, of
which the NUL at `decoded_len` overwrites one if there are more. -/
structure Decoded where
  decodedLen : Nat
  stored : Bytes
  deriving DecidableEq, Repr

/-- The decoded bytes in front of the NUL at `decoded_len`. -/
def Decoded.bytes (d : Decoded) : Bytes := d.stored.take d.decodedLen

/-- The loop of `base64_decode`: the bytes it stores, unless it meets a byte
outside of the table. -/
def base64Loop (accumulator : UInt32) (bitsCollected : Nat) : Bytes → Option Bytes
  | [] => some []
  | c :: input =>
    let val := base64Dtable c
    if val &&& 0x80 ≠ 0 then none
    else
      let accumulator := (accumulator <<< 6) ||| val.toUInt32
      let bitsCollected := bitsCollected + 6
      if 8 ≤ bitsCollected then
        let bitsCollected := bitsCollected - 8
        (base64Loop accumulator bitsCollected input).map
          ((accumulator >>> UInt32.ofNat bitsCollected).toUInt8 :: ·)
      else
        base64Loop accumulator bitsCollected input

/-- The number of `=` among the last two bytes. -/
def base64Padding (input : Bytes) : Nat :=
  if 2 ≤ input.length then
    (if input[input.length - 1]? = some 61 then 1 else 0) +
      (if input[input.length - 2]? = some 61 then 1 else 0)
  else 0

/-- `base64_decode` when its allocation succeeds. -/
def base64Decode (input : Bytes) : Option Decoded :=
  if input.length % 4 ≠ 0 then none
  else (base64Loop 0 0 input).map fun stored => ⟨input.length / 4 * 3 - base64Padding input, stored⟩

example : (base64Decode (bytes "dTpw")).map Decoded.bytes = some (bytes "u:p") := by decide
example : (base64Decode (bytes "dQ==")).map Decoded.bytes = some (bytes "u") := by decide

/-- The stores of the loop of `base64_decode` from `decoded[j]` on. A byte outside
of the table ends the loop, and what is stored by then stays. -/
def base64Stores (accumulator : UInt32) (bitsCollected j : Nat) : Bytes → List (Store UInt8)
  | [] => []
  | c :: input =>
    let val := base64Dtable c
    if val &&& 0x80 ≠ 0 then []
    else
      let accumulator := (accumulator <<< 6) ||| val.toUInt32
      let bitsCollected := bitsCollected + 6
      if 8 ≤ bitsCollected then
        let bitsCollected := bitsCollected - 8
        ⟨j, (accumulator >>> UInt32.ofNat bitsCollected).toUInt8⟩ ::
          base64Stores accumulator bitsCollected (j + 1) input
      else
        base64Stores accumulator bitsCollected j input

/-- `decoded_len`; one byte more is allocated. -/
def base64DecodedLen (input : Bytes) : Nat := input.length / 4 * 3 - base64Padding input

/-- Every store of `base64_decode` when its allocation succeeds: those of the loop,
and the final NUL unless the loop returned. -/
def base64DecodeStores (input : Bytes) : List (Store UInt8) :=
  if input.length % 4 ≠ 0 then []
  else
    base64Stores 0 0 0 input ++
      if (base64Loop 0 0 input).isSome then [⟨base64DecodedLen input, 0⟩] else []

/-- `b64_table` of `base64_encode`. -/
def b64Table : Bytes := bytes "ABCDEFGHIJKLMNOPQRSTUVWXYZabcdefghijklmnopqrstuvwxyz0123456789+/"

/-- `i < len ? input[i++] : 0`: the octet, and the index after it. -/
def nextOctet (input : Bytes) (i : Nat) : UInt32 × Nat :=
  match input[i]? with
  | some octet => (octet.toUInt32, i + 1)
  | none => (0, i)

theorem nextOctet_of_lt {input : Bytes} {i : Nat} (h : i < input.length) :
    nextOctet input i = (input[i].toUInt32, i + 1) := by
  rw [nextOctet, List.getElem?_eq_getElem h]

theorem nextOctet_of_le {input : Bytes} {i : Nat} (h : input.length ≤ i) :
    nextOctet input i = (0, i) := by
  rw [nextOctet, List.getElem?_eq_none h]

theorem le_nextOctet (input : Bytes) (i : Nat) : i ≤ (nextOctet input i).2 := by
  unfold nextOctet
  split
  · exact Nat.le_succ i
  · exact Nat.le_refl i

/-- The loop of `base64_encode` from `input[i]` on: the characters it stores. -/
def base64EncodeLoop (input : Bytes) (i : Nat) : Bytes :=
  if i < input.length then
    let a := nextOctet input i
    let b := nextOctet input a.2
    let c := nextOctet input b.2
    let triple := (a.1 <<< 16) ||| (b.1 <<< 8) ||| c.1
    let sextet (shift : UInt32) := b64Table.getD ((triple >>> shift) &&& 0x3F).toNat 0
    sextet 18 :: sextet 12 ::
      (if input.length + 1 < c.2 then 61 else sextet 6) ::
      (if input.length < c.2 then 61 else sextet 0) ::
      base64EncodeLoop input c.2
  else []
termination_by input.length - i
decreasing_by
  have first : (nextOctet input i).2 = i + 1 := by rw [nextOctet_of_lt ‹_›]
  have second := le_nextOctet input (nextOctet input i).2
  have third := le_nextOctet input (nextOctet input (nextOctet input i).2).2
  omega

/-- `base64_encode` when its allocation succeeds: the text in front of the NUL. -/
def base64Encode (input : Bytes) : Bytes := base64EncodeLoop input 0

example : base64Encode (bytes "u:p") = bytes "dTpw" := by decide +kernel

/-! ## Decoding what was encoded -/

variable {c : UInt8}

/-- The accumulator after one more character. -/
def accumulate (accumulator : UInt32) (c : UInt8) : UInt32 :=
  (accumulator <<< 6) ||| (base64Dtable c).toUInt32

/-- Six more bits, and the high ones are lost. -/
theorem toNat_accumulate (accumulator : UInt32) (h : (base64Dtable c).toNat < 64) :
    (accumulate accumulator c).toNat =
      (accumulator.toNat * 64 + (base64Dtable c).toNat) % 4294967296 := by
  have shifted : (accumulator <<< 6).toNat = (accumulator.toNat % 67108864) <<< 6 := by
    rw [UInt32.toNat_shiftLeft, Nat.shiftLeft_eq, Nat.shiftLeft_eq]
    show accumulator.toNat * 2 ^ 6 % 4294967296 = _
    omega
  rw [accumulate, UInt32.toNat_or, UInt8.toNat_toUInt32, shifted,
    ← Nat.shiftLeft_add_eq_or_of_lt (by simpa using h), Nat.shiftLeft_eq]
  omega

/-- The value of a character of the table has no high bit. -/
theorem and_high_eq_zero {val : UInt8} (h : val.toNat < 64) : val &&& 0x80 = 0 := by
  have all : ∀ v < 64, UInt8.ofNat v &&& 0x80 = 0 := by decide
  have := all val.toNat h
  rwa [UInt8.ofNat_toNat] at this

theorem toUInt8_shiftRight (accumulator : UInt32) {k : Nat} (hk : k < 32) :
    (accumulator >>> UInt32.ofNat k).toUInt8 = UInt8.ofNat (accumulator.toNat / 2 ^ k) := by
  have hmod : (UInt32.ofNat k).toNat % 32 = k := by
    rw [UInt32.toNat_ofNat']
    omega
  apply UInt8.toNat_inj.mp
  rw [UInt32.toNat_toUInt8, UInt32.toNat_shiftRight, hmod, Nat.shiftRight_eq_div_pow,
    UInt8.toNat_ofNat']

/-- A character that completes no byte. -/
theorem base64Loop_skip (h : (base64Dtable c).toNat < 64) (accumulator : UInt32) (input : Bytes) :
    base64Loop accumulator 0 (c :: input) =
      base64Loop (accumulate accumulator c) 6 input := by
  rw [base64Loop, if_neg (by rw [and_high_eq_zero h]; simp)]
  rfl

/-- A character that completes a byte. -/
theorem base64Loop_store (h : (base64Dtable c).toNat < 64) (accumulator : UInt32) (input : Bytes)
    {bits : Nat} (enough : 2 ≤ bits) (hbits : bits < 32) :
    base64Loop accumulator bits (c :: input) =
      (base64Loop (accumulate accumulator c) (bits - 2) input).map
        (UInt8.ofNat ((accumulator.toNat * 64 + (base64Dtable c).toNat) % 4294967296 /
          2 ^ (bits - 2)) :: ·) := by
  have hleft : bits + 6 - 8 = bits - 2 := by omega
  rw [base64Loop, if_neg (by rw [and_high_eq_zero h]; simp)]
  dsimp only
  rw [if_pos (by omega), hleft, toUInt8_shiftRight _ (by omega), ← toNat_accumulate _ h]
  rfl

/-- Four characters of the alphabet give three bytes, whatever is left of earlier
ones in the accumulator. -/
theorem base64Loop_group (c₁ c₂ c₃ c₄ : UInt8) (h₁ : (base64Dtable c₁).toNat < 64)
    (h₂ : (base64Dtable c₂).toNat < 64)
    (h₃ : (base64Dtable c₃).toNat < 64) (h₄ : (base64Dtable c₄).toNat < 64)
    (accumulator : UInt32) (input : Bytes) :
    ∃ accumulator', base64Loop accumulator 0 (c₁ :: c₂ :: c₃ :: c₄ :: input) =
      (base64Loop accumulator' 0 input).map fun stored =>
        UInt8.ofNat ((base64Dtable c₁).toNat * 4 + (base64Dtable c₂).toNat / 16) ::
        UInt8.ofNat ((base64Dtable c₂).toNat % 16 * 16 + (base64Dtable c₃).toNat / 4) ::
        UInt8.ofNat ((base64Dtable c₃).toNat % 4 * 64 + (base64Dtable c₄).toNat) :: stored := by
  refine ⟨accumulate (accumulate (accumulate (accumulate accumulator c₁) c₂) c₃) c₄, ?_⟩
  rw [base64Loop_skip h₁, base64Loop_store h₂ _ _ (by decide) (by decide),
    base64Loop_store h₃ _ _ (by decide) (by decide),
    base64Loop_store h₄ _ _ (by decide) (by decide), Option.map_map, Option.map_map,
    toNat_accumulate _ h₃, toNat_accumulate _ h₂, toNat_accumulate _ h₁]
  -- bits from before the group are shifted out of each byte
  have byte : ∀ {m n : Nat}, m % 256 = n % 256 → UInt8.ofNat m = UInt8.ofNat n := by
    intro m n h
    apply UInt8.toNat_inj.mp
    rw [UInt8.toNat_ofNat', UInt8.toNat_ofNat']
    exact h
  refine congrArg (Option.map · _) (funext ?_)
  intro stored
  dsimp only [Function.comp_apply]
  refine List.cons_eq_cons.mpr ⟨byte ?_, List.cons_eq_cons.mpr
    ⟨byte ?_, List.cons_eq_cons.mpr ⟨byte ?_, rfl⟩⟩⟩
  · omega
  · omega
  · omega

/-- The table is the inverse of the alphabet. -/
theorem base64Dtable_char {v : Nat} (h : v < 64) : (base64Dtable (Base64.char v)).toNat = v := by
  have all : ∀ v < 64, (base64Dtable (Base64.char v)).toNat = v := by decide +kernel
  exact all v h

theorem base64Dtable_pad : (base64Dtable Base64.pad).toNat = 0 := by decide

/-- The loop stores the bytes that were encoded, and maybe some for the padding. -/
theorem base64Loop_encode (x : Bytes) (accumulator : UInt32) :
    ∃ stored, base64Loop accumulator 0 (Base64.encode x) = some stored ∧
      stored.take x.length = x := by
  have byte : ∀ {n : Nat} {a : UInt8}, n = a.toNat → UInt8.ofNat n = a := by
    intro n a h
    rw [h, UInt8.ofNat_toNat]
  have small : ∀ a : UInt8, a.toNat < 256 := fun a => a.toNat_lt
  induction x using Base64.encode.induct generalizing accumulator with
  | case1 => exact ⟨[], rfl, rfl⟩
  | case2 a =>
      have ha := small a
      -- one byte: the bytes that stand for the two `=` come behind it
      have h₁ := base64Dtable_char (v := a.toNat / 4) (by omega)
      have h₂ := base64Dtable_char (v := a.toNat % 4 * 16) (by omega)
      have hpad := base64Dtable_pad
      obtain ⟨_, h⟩ := base64Loop_group (Base64.char (a.toNat / 4))
        (Base64.char (a.toNat % 4 * 16)) Base64.pad Base64.pad
        (by omega) (by omega) (by omega) (by omega) accumulator []
      refine ⟨_, h, ?_⟩
      rw [h₁, h₂]
      exact List.cons_eq_cons.mpr ⟨byte (by omega), rfl⟩
  | case3 a b =>
      have ha := small a
      have hb := small b
      -- two bytes, and one for the `=`
      have h₁ := base64Dtable_char (v := a.toNat / 4) (by omega)
      have h₂ := base64Dtable_char (v := a.toNat % 4 * 16 + b.toNat / 16) (by omega)
      have h₃ := base64Dtable_char (v := b.toNat % 16 * 4) (by omega)
      have hpad := base64Dtable_pad
      obtain ⟨_, h⟩ := base64Loop_group (Base64.char (a.toNat / 4))
        (Base64.char (a.toNat % 4 * 16 + b.toNat / 16))
        (Base64.char (b.toNat % 16 * 4)) Base64.pad
        (by omega) (by omega) (by omega) (by omega) accumulator []
      refine ⟨_, h, ?_⟩
      rw [h₁, h₂, h₃]
      exact List.cons_eq_cons.mpr ⟨byte (by omega), List.cons_eq_cons.mpr ⟨byte (by omega), rfl⟩⟩
  | case4 a b c rest ih =>
      have ha := small a
      have hb := small b
      have hc := small c
      have h₁ := base64Dtable_char (v := a.toNat / 4) (by omega)
      have h₂ := base64Dtable_char (v := a.toNat % 4 * 16 + b.toNat / 16) (by omega)
      have h₃ := base64Dtable_char (v := b.toNat % 16 * 4 + c.toNat / 64) (by omega)
      have h₄ := base64Dtable_char (v := c.toNat % 64) (by omega)
      obtain ⟨accumulator', h⟩ := base64Loop_group (Base64.char (a.toNat / 4))
        (Base64.char (a.toNat % 4 * 16 + b.toNat / 16))
        (Base64.char (b.toNat % 16 * 4 + c.toNat / 64)) (Base64.char (c.toNat % 64))
        (by omega) (by omega) (by omega) (by omega) accumulator (Base64.encode rest)
      -- the rest is read with whatever the group left in the accumulator
      obtain ⟨stored, hrest, htake⟩ := ih accumulator'
      rw [hrest] at h
      refine ⟨_, h, ?_⟩
      rw [h₁, h₂, h₃, h₄]
      exact List.cons_eq_cons.mpr ⟨byte (by omega), List.cons_eq_cons.mpr
        ⟨byte (by omega), List.cons_eq_cons.mpr ⟨byte (by omega), htake⟩⟩⟩

/-- Four more characters in front do not change the padding of a text that has
some. -/
theorem base64Padding_append (front : Bytes) {input : Bytes} (long : 2 ≤ input.length) :
    base64Padding (front ++ input) = base64Padding input := by
  have last : ∀ k, 0 < k → k ≤ input.length →
      (front ++ input)[(front ++ input).length - k]? = input[input.length - k]? := by
    intro k hk hle
    rw [List.getElem?_append_right (by rw [List.length_append]; omega), List.length_append]
    congr 1
    omega
  unfold base64Padding
  rw [if_pos long, if_pos (by rw [List.length_append]; omega), last 1 (by omega) (by omega),
    last 2 (by omega) long]

/-- No character of the alphabet is taken for padding. -/
theorem char_ne_pad {v : Nat} (h : v < 64) : Base64.char v ≠ 61 := by
  have all : ∀ v < 64, Base64.char v ≠ 61 := by decide +kernel
  exact all v h

theorem base64Padding_encode (x : Bytes) :
    base64Padding (Base64.encode x) = (3 - x.length % 3) % 3 := by
  have small : ∀ a : UInt8, a.toNat < 256 := fun a => a.toNat_lt
  induction x using Base64.encode.induct with
  | case1 => rfl
  | case2 a =>
      show (if _ then _ else _ : Nat) = _
      simp [Base64.encode, Base64.pad]
  | case3 a b =>
      have hb := small b
      have := char_ne_pad (v := b.toNat % 16 * 4) (by omega)
      simp [base64Padding, Base64.encode, Base64.pad, this]
  | case4 a b c rest ih =>
      have hb := small b
      have hc := small c
      rw [Base64.encode, List.length_cons, List.length_cons, List.length_cons]
      cases rest with
      | nil =>
          have h₃ := char_ne_pad (v := b.toNat % 16 * 4 + c.toNat / 64) (by omega)
          have h₄ := char_ne_pad (v := c.toNat % 64) (by omega)
          simp [base64Padding, Base64.encode, h₃, h₄]
      | cons d rest =>
          have long : 2 ≤ (Base64.encode (d :: rest)).length := by
            rw [Base64.length_encode, List.length_cons]
            omega
          have front := base64Padding_append [Base64.char (a.toNat / 4),
            Base64.char (a.toNat % 4 * 16 + b.toNat / 16),
            Base64.char (b.toNat % 16 * 4 + c.toNat / 64), Base64.char (c.toNat % 64)] long
          refine Eq.trans front (ih.trans ?_)
          rw [List.length_cons]
          omega

theorem base64DecodedLen_encode (x : Bytes) :
    base64DecodedLen (Base64.encode x) = x.length := by
  rw [base64DecodedLen, base64Padding_encode, Base64.length_encode]
  omega

/-- `base64_decode` gives back what was encoded. -/
theorem base64Decode_encode (x : Bytes) :
    (base64Decode (Base64.encode x)).map Decoded.bytes = some x := by
  obtain ⟨stored, hloop, htake⟩ := base64Loop_encode x 0
  have hlength := Base64.length_encode x
  have hdecoded : (Base64.encode x).length / 4 * 3 - base64Padding (Base64.encode x) =
      x.length := base64DecodedLen_encode x
  rw [base64Decode, if_neg (by omega), hloop, hdecoded]
  exact congrArg some htake

/-! ## The stores of the decoder -/

/-- A byte the table has a value for. -/
def Base64Valid (c : UInt8) : Prop := base64Dtable c &&& 0x80 = 0

instance : DecidablePred Base64Valid := fun c =>
  inferInstanceAs (Decidable (base64Dtable c &&& 0x80 = 0))

theorem between_iff {low high : UInt8} :
    (decide (low ≤ c) && decide (c ≤ high)) = true ↔
      low.toNat ≤ c.toNat ∧ c.toNat ≤ high.toNat := by
  rw [Bool.and_eq_true, decide_eq_true_eq, decide_eq_true_eq, UInt8.le_iff_toNat_le,
    UInt8.le_iff_toNat_le]

/-- The table has values for the alphabet and for the padding. -/
theorem base64Valid_iff (c : UInt8) : Base64Valid c ↔ c ∈ Base64.alphabet ∨ c = Base64.pad := by
  rw [Base64.mem_alphabet_iff, Base64Valid]
  fun_cases base64Dtable c with
  | case1 upper =>
      have range : 65 ≤ c.toNat ∧ c.toNat ≤ 90 := between_iff.mp upper
      refine iff_of_true (and_high_eq_zero ?_) (.inl (by omega))
      rw [UInt8.toNat_sub_of_le c 65 (UInt8.le_iff_toNat_le.mpr range.1)]
      show c.toNat - 65 < 64
      omega
  | case2 _ lower =>
      have range : 97 ≤ c.toNat ∧ c.toNat ≤ 122 := between_iff.mp lower
      have above : 71 ≤ c.toNat := by omega
      refine iff_of_true (and_high_eq_zero ?_) (.inl (by omega))
      rw [UInt8.toNat_sub_of_le c 71 (UInt8.le_iff_toNat_le.mpr above)]
      show c.toNat - 71 < 64
      omega
  | case3 _ _ digit =>
      have range : 48 ≤ c.toNat ∧ c.toNat ≤ 57 := between_iff.mp digit
      refine iff_of_true (and_high_eq_zero ?_) (.inl (by omega))
      rw [UInt8.toNat_add]
      show (c.toNat + 4) % 256 < 64
      omega
  | case4 _ _ _ plus =>
      have value : c.toNat = 43 := UInt8.toNat_inj.mpr plus
      exact iff_of_true rfl (.inl (by omega))
  | case5 _ _ _ _ slash =>
      have value : c.toNat = 47 := UInt8.toNat_inj.mpr slash
      exact iff_of_true rfl (.inl (by omega))
  | case6 _ _ _ _ _ padding => exact iff_of_true rfl (.inr padding)
  | case7 upper lower digit plus slash padding =>
      have noUpper : ¬ (65 ≤ c.toNat ∧ c.toNat ≤ 90) := between_iff.not.mp upper
      have noLower : ¬ (97 ≤ c.toNat ∧ c.toNat ≤ 122) := between_iff.not.mp lower
      have noDigit : ¬ (48 ≤ c.toNat ∧ c.toNat ≤ 57) := between_iff.not.mp digit
      have noPlus : ¬ c.toNat = 43 := UInt8.toNat_inj.not.mpr plus
      have noSlash : ¬ c.toNat = 47 := UInt8.toNat_inj.not.mpr slash
      refine iff_of_false (by decide) ?_
      rintro (letter | pad)
      · omega
      · exact padding pad

/-- The loop ends early at a byte outside of the table, and nowhere else. -/
theorem base64Loop_isSome (accumulator : UInt32) (bits : Nat) (input : Bytes) :
    (base64Loop accumulator bits input).isSome = true ↔ ∀ c ∈ input, Base64Valid c := by
  induction input generalizing accumulator bits with
  | nil => exact iff_of_true rfl (by simp)
  | cons c input ih =>
      rw [base64Loop, List.forall_mem_cons]
      dsimp only
      by_cases valid : Base64Valid c
      · have inTable : ¬ base64Dtable c &&& 0x80 ≠ 0 := not_not_intro valid
        rw [if_neg inTable, and_iff_right valid]
        split
        · rw [Option.isSome_map, ih]
        · exact ih _ _
      · have outside : base64Dtable c &&& 0x80 ≠ 0 := valid
        rw [if_pos outside]
        exact iff_of_false Bool.false_ne_true fun h => valid h.1

theorem base64Decode_isSome (input : Bytes) :
    (base64Decode input).isSome = true ↔
      input.length % 4 = 0 ∧ ∀ c ∈ input, c ∈ Base64.alphabet ∨ c = Base64.pad := by
  unfold base64Decode
  split
  · rename_i rejected
    exact iff_of_false Bool.false_ne_true fun h => rejected h.1
  · rename_i groups
    rw [Option.isSome_map, base64Loop_isSome, and_iff_right (not_not.mp groups)]
    simp only [base64Valid_iff]

theorem decodedLen_eq {input : Bytes} {d : Decoded} (h : base64Decode input = some d) :
    d.decodedLen = base64DecodedLen input := by
  unfold base64Decode at h
  split at h
  · cases h
  · obtain ⟨stored, -, rfl⟩ := Option.map_eq_some_iff.mp h
    rfl

/-- A completed loop stored its bytes one after the other. -/
theorem base64Stores_of_base64Loop {accumulator : UInt32} {bits : Nat} {input stored : Bytes}
    (h : base64Loop accumulator bits input = some stored) (j : Nat) :
    base64Stores accumulator bits j input = sequential j stored := by
  induction input generalizing accumulator bits j stored with
  | nil =>
      cases h
      rfl
  | cons c input ih =>
      rw [base64Loop] at h
      rw [base64Stores]
      dsimp only at h ⊢
      split at h
      · cases h
      · rename_i valid
        rw [if_neg valid]
        split at h
        · rename_i full
          obtain ⟨rest, hrest, rfl⟩ := Option.map_eq_some_iff.mp h
          rw [if_pos full, ih hrest]
          rfl
        · rename_i full
          rw [if_neg full, ih h]

/-- The loop stores one after the other as many bytes as the valid characters in
front have bits for. -/
theorem base64Stores_eq (accumulator : UInt32) (bits : Nat) (few : bits < 8) (j : Nat)
    (input : Bytes) :
    ∃ stored : Bytes, base64Stores accumulator bits j input = sequential j stored ∧
      stored.length = (bits + 6 * (input.takeWhile (decide <| Base64Valid ·)).length) / 8 := by
  induction input generalizing accumulator bits j with
  | nil =>
      refine ⟨[], rfl, ?_⟩
      show 0 = (bits + 6 * 0) / 8
      omega
  | cons c input ih =>
      rw [base64Stores]
      dsimp only
      by_cases valid : Base64Valid c
      · have inTable : ¬ base64Dtable c &&& 0x80 ≠ 0 := not_not_intro valid
        rw [if_neg inTable, List.takeWhile_cons_of_pos (by simpa using valid), List.length_cons]
        by_cases full : 8 ≤ bits + 6
        · rw [if_pos full]
          obtain ⟨stored, hstores, hlength⟩ := ih (accumulate accumulator c)
            (bits + 6 - 8) (by omega) (j + 1)
          refine ⟨_ :: stored, congrArg _ hstores, ?_⟩
          rw [List.length_cons, hlength]
          omega
        · rw [if_neg full]
          obtain ⟨stored, hstores, hlength⟩ := ih (accumulate accumulator c)
            (bits + 6) (by omega) j
          refine ⟨stored, hstores, ?_⟩
          rw [hlength]
          congr 1
          omega
      · have outside : base64Dtable c &&& 0x80 ≠ 0 := valid
        rw [if_pos outside, List.takeWhile_cons_of_neg (by simpa using valid)]
        refine ⟨[], rfl, ?_⟩
        show 0 = (bits + 6 * 0) / 8
        omega

/-- The padding counts two only for two `=` at the end. -/
theorem base64Padding_eq_two {input : Bytes} :
    base64Padding input = 2 ↔ [61, 61] <:+ input := by
  by_cases long : 2 ≤ input.length
  · obtain ⟨b, c, hlast⟩ := List.length_eq_two.mp
      (show (input.drop (input.length - 2)).length = 2 by rw [List.length_drop]; omega)
    have hinput : input = input.take (input.length - 2) ++ [b, c] := by
      rw [← hlast, List.take_append_drop]
    rw [hinput, base64Padding_append _ (by simp)]
    have pair : base64Padding [b, c] = 2 ↔ [61, 61] = [b, c] := by
      unfold base64Padding
      by_cases hb : b = 61 <;> by_cases hc : c = 61 <;> simp [hb, hc, eq_comm]
    rw [pair]
    constructor
    · intro h
      rw [h]
      exact List.suffix_append _ _
    · rintro ⟨front, hfront⟩
      exact (List.append_inj' hfront rfl).2
  · constructor
    · intro h
      rw [base64Padding, if_neg long] at h
      cases h
    · intro h
      exact absurd h.length_le long

theorem base64Padding_le (input : Bytes) : base64Padding input ≤ 2 := by
  unfold base64Padding
  split
  · split <;> split <;> omega
  · omega

/-- The padding is at most what the groups of four decode to. -/
theorem base64Padding_le_groups {input : Bytes} (groups : input.length % 4 = 0) :
    base64Padding input ≤ input.length / 4 * 3 := by
  have htwo := base64Padding_le input
  by_cases long : 2 ≤ input.length
  · omega
  · rw [base64Padding, if_neg long]
    exact Nat.zero_le _

/-- A completed loop fills three bytes for each group, also where `=` stands, so it
stays inside the buffer unless two bytes fewer than that are expected. -/
theorem inside_base64DecodeStores (input : Bytes) :
    Inside (base64DecodedLen input + 1) (base64DecodeStores input) ↔
      ¬ (input.length % 4 = 0 ∧ [61, 61] <:+ input ∧ ∀ c ∈ input, Base64Valid c) := by
  unfold base64DecodeStores
  split
  · rename_i rejected
    exact iff_of_true (inside_nil _) fun h => rejected h.1
  · rename_i groups
    replace groups : input.length % 4 = 0 := not_not.mp groups
    obtain ⟨stored, hstores, hlength⟩ := base64Stores_eq 0 0 (by decide) 0 input
    have final : Inside (base64DecodedLen input + 1)
        (if (base64Loop 0 0 input).isSome then [⟨base64DecodedLen input, (0 : UInt8)⟩] else []) := by
      split
      · simp
      · exact inside_nil _
    rw [inside_append, and_iff_left final, hstores, inside_sequential, ← base64Padding_eq_two]
    have hpadding := base64Padding_le input
    have hgroups := base64Padding_le_groups groups
    by_cases valid : ∀ c ∈ input, Base64Valid c
    · have all : input.takeWhile (decide <| Base64Valid ·) = input :=
        List.takeWhile_eq_self_iff.mpr (by simpa using valid)
      rw [all] at hlength
      rw [← List.length_eq_zero_iff, base64DecodedLen]
      constructor
      · rintro fits ⟨-, htwo, -⟩
        omega
      · intro h
        have hone : base64Padding input ≠ 2 := fun htwo => h ⟨groups, htwo, valid⟩
        omega
    · -- the loop returned in front of a byte outside of the table
      have short : (input.takeWhile (decide <| Base64Valid ·)).length < input.length := by
        refine lt_of_le_of_ne (List.takeWhile_prefix _).length_le fun same => valid ?_
        have whole := (List.takeWhile_prefix _).eq_of_length same
        simpa using List.takeWhile_eq_self_iff.mp whole
      refine iff_of_true (.inr ?_) fun h => valid h.2.2
      rw [base64DecodedLen]
      omega

/-- What was encoded is found in the buffer afterwards, and a NUL behind it. -/
theorem contents_base64DecodeStores_encode (x : Bytes) {i : Nat} (h : i ≤ x.length) :
    contents (base64DecodeStores (Base64.encode x)) i =
      if i = x.length then some 0 else x[i]? := by
  obtain ⟨stored, hloop, htake⟩ := base64Loop_encode x 0
  have hlength := Base64.length_encode x
  rw [base64DecodeStores, if_neg (by omega), hloop, Option.isSome_some, if_pos rfl,
    base64Stores_of_base64Loop hloop, contents_append_singleton, base64DecodedLen_encode]
  by_cases last : i = x.length
  · rw [if_pos last.symm, if_pos last]
  · rw [if_neg (Ne.symm last), if_neg last]
    have found := contents_sequential 0 stored i
    rw [Nat.zero_add] at found
    rw [found, ← htake, List.getElem?_take, if_pos (by omega)]

/-! ## The encoder -/

/-- The text continued with zero bytes to a multiple of three. -/
def zeroPadded (x : Bytes) : Bytes := x ++ List.replicate ((3 - x.length % 3) % 3) 0

theorem b64Table_eq_char {v : Nat} (h : v < 64) : b64Table.getD v 0 = Base64.char v := by
  have all : ∀ v < 64, b64Table.getD v 0 = Base64.char v := by decide +kernel
  exact all v h

/-- The three octets side by side. -/
theorem toNat_triple (a b c : UInt8) :
    ((a.toUInt32 <<< 16) ||| (b.toUInt32 <<< 8) ||| c.toUInt32).toNat =
      a.toNat * 65536 + b.toNat * 256 + c.toNat := by
  have ha := a.toNat_lt
  have hb := b.toNat_lt
  have hc := c.toNat_lt
  have high : (a.toUInt32 <<< 16).toNat = a.toNat <<< 16 := by
    rw [UInt32.toNat_shiftLeft, UInt8.toNat_toUInt32, Nat.shiftLeft_eq, Nat.shiftLeft_eq]
    show a.toNat * 2 ^ 16 % 4294967296 = _
    omega
  have middle : (b.toUInt32 <<< 8).toNat = b.toNat <<< 8 := by
    rw [UInt32.toNat_shiftLeft, UInt8.toNat_toUInt32, Nat.shiftLeft_eq, Nat.shiftLeft_eq]
    show b.toNat * 2 ^ 8 % 4294967296 = _
    omega
  have low : b.toNat <<< 8 ||| c.toNat = b.toNat * 256 + c.toNat := by
    rw [← Nat.shiftLeft_add_eq_or_of_lt (by simpa using hc), Nat.shiftLeft_eq]
  rw [UInt32.toNat_or, UInt32.toNat_or, high, middle, UInt8.toNat_toUInt32, Nat.or_assoc, low,
    ← Nat.shiftLeft_add_eq_or_of_lt (by omega), Nat.shiftLeft_eq]
  omega

/-- Six bits of the triple. -/
theorem sextet_eq {triple shift : UInt32} {k v : Nat} (hshift : shift.toNat = k) (hk : k < 32)
    (hv : triple.toNat / 2 ^ k % 64 = v) :
    b64Table.getD ((triple >>> shift) &&& 0x3F).toNat 0 = Base64.char v := by
  have value : ((triple >>> shift) &&& 0x3F).toNat = v := by
    have mask : (0x3F : UInt32).toNat = 2 ^ 6 - 1 := rfl
    rw [UInt32.toNat_and, UInt32.toNat_shiftRight, hshift, Nat.mod_eq_of_lt hk, mask,
      Nat.and_two_pow_sub_one_eq_mod, Nat.shiftRight_eq_div_pow]
    exact hv
  have small : v < 64 := by
    rw [← hv]
    exact Nat.mod_lt _ (by decide)
  rw [value, b64Table_eq_char small]

/-- One round of the loop. The index never passes the length, so neither comparison
with it holds and no `=` is written. -/
theorem base64EncodeLoop_group {input : Bytes} {i i₁ i₂ i₃ : Nat} {a b c : UInt8}
    (more : i < input.length) (first : nextOctet input i = (a.toUInt32, i₁))
    (second : nextOctet input i₁ = (b.toUInt32, i₂))
    (third : nextOctet input i₂ = (c.toUInt32, i₃)) (inside : i₃ ≤ input.length) :
    base64EncodeLoop input i = Base64.encode [a, b, c] ++ base64EncodeLoop input i₃ := by
  have ha := a.toNat_lt
  have hb := b.toNat_lt
  have hc := c.toNat_lt
  have triple := toNat_triple a b c
  rw [base64EncodeLoop, if_pos more]
  simp only [first, second, third]
  rw [if_neg (by omega), if_neg (by omega),
    sextet_eq (k := 18) (v := a.toNat / 4) rfl (by decide) (by rw [triple]; omega),
    sextet_eq (k := 12) (v := a.toNat % 4 * 16 + b.toNat / 16) rfl (by decide)
      (by rw [triple]; omega),
    sextet_eq (k := 6) (v := b.toNat % 16 * 4 + c.toNat / 64) rfl (by decide)
      (by rw [triple]; omega),
    sextet_eq (k := 0) (v := c.toNat % 64) rfl (by decide) (by rw [triple]; omega)]
  rfl

theorem base64EncodeLoop_of_le {input : Bytes} {i : Nat} (h : input.length ≤ i) :
    base64EncodeLoop input i = [] := by
  rw [base64EncodeLoop, if_neg (by omega)]

theorem nextOctet_of_drop {input rest : Bytes} {i k : Nat} {a : UInt8}
    (hrest : input.drop i = rest) (h : rest[k]? = some a) :
    nextOctet input (i + k) = (a.toUInt32, i + k + 1) := by
  rw [← hrest, List.getElem?_drop] at h
  rw [nextOctet, h]

theorem zeroPadded_group (a b c : UInt8) (rest : Bytes) :
    zeroPadded (a :: b :: c :: rest) = a :: b :: c :: zeroPadded rest := by
  have hmod : (rest.length + 1 + 1 + 1) % 3 = rest.length % 3 := by omega
  rw [zeroPadded, List.length_cons, List.length_cons, List.length_cons, hmod]
  rfl

/-- From any index on the encoder writes the text of what is left, continued with
zero bytes. -/
theorem base64EncodeLoop_eq (input : Bytes) {rest : Bytes} {i : Nat}
    (hrest : input.drop i = rest) :
    base64EncodeLoop input i = Base64.encode (zeroPadded rest) := by
  have hlength := congrArg List.length hrest
  rw [List.length_drop] at hlength
  induction rest using Base64.encode.induct generalizing i with
  | case1 =>
      rw [List.length_nil] at hlength
      rw [base64EncodeLoop_of_le (by omega)]
      rfl
  | case2 a =>
      rw [List.length_singleton] at hlength
      have first : nextOctet input i = _ := nextOctet_of_drop (k := 0) hrest rfl
      have zero : nextOctet input (i + 1) = ((0 : UInt8).toUInt32, i + 1) :=
        nextOctet_of_le (by omega)
      -- the index stays where the input ends, so the loop ends after this group
      rw [base64EncodeLoop_group (by omega) first zero zero (by omega),
        base64EncodeLoop_of_le (by omega)]
      rfl
  | case3 a b =>
      rw [List.length_cons, List.length_singleton] at hlength
      have first : nextOctet input i = _ := nextOctet_of_drop (k := 0) hrest rfl
      have second : nextOctet input (i + 1) = _ := nextOctet_of_drop hrest rfl
      have zero : nextOctet input (i + 2) = ((0 : UInt8).toUInt32, i + 2) :=
        nextOctet_of_le (by omega)
      rw [base64EncodeLoop_group (by omega) first second zero (by omega),
        base64EncodeLoop_of_le (by omega)]
      rfl
  | case4 a b c rest ih =>
      rw [List.length_cons, List.length_cons, List.length_cons] at hlength
      have first : nextOctet input i = _ := nextOctet_of_drop (k := 0) hrest rfl
      have second : nextOctet input (i + 1) = _ := nextOctet_of_drop hrest rfl
      have third : nextOctet input (i + 2) = _ := nextOctet_of_drop hrest rfl
      have later : input.drop (i + 3) = rest := by
        rw [← List.drop_drop, hrest]
        rfl
      rw [base64EncodeLoop_group (by omega) first second third (by omega),
        ih later (by omega), zeroPadded_group]
      rfl

/-- `base64_encode` writes the text of `input` continued with zero bytes. -/
theorem base64Encode_eq (input : Bytes) :
    base64Encode input = Base64.encode (zeroPadded input) := base64EncodeLoop_eq input rfl

theorem length_zeroPadded (x : Bytes) : (zeroPadded x).length = (x.length + 2) / 3 * 3 := by
  rw [zeroPadded, List.length_append, List.length_replicate]
  omega

/-- A text that is not padded is one for a multiple of three bytes. -/
theorem zeroPadded_of_mod_eq_zero {x : Bytes} (h : x.length % 3 = 0) : zeroPadded x = x := by
  rw [zeroPadded, h]
  exact List.append_nil x

end SimpleProxy
