import SimpleProxy.Lib.CString

/-!
# Base64 with padding

The text of a byte string in the alphabet `A-Z`, `a-z`, `0-9`, `+` and `/`: four
characters for three bytes, the last group filled up with `=`.
-/

namespace Base64

open CString

def alphabet : Bytes := bytes "ABCDEFGHIJKLMNOPQRSTUVWXYZabcdefghijklmnopqrstuvwxyz0123456789+/"

def pad : UInt8 := 61

/-- The character for six bits. -/
def char (v : Nat) : UInt8 := alphabet.getD v pad

/-- The padded base64 text. -/
def encode : Bytes → Bytes
  | [] => []
  | [a] => [char (a.toNat / 4), char (a.toNat % 4 * 16), pad, pad]
  | [a, b] =>
    [char (a.toNat / 4), char (a.toNat % 4 * 16 + b.toNat / 16), char (b.toNat % 16 * 4), pad]
  | a :: b :: c :: rest =>
    char (a.toNat / 4) :: char (a.toNat % 4 * 16 + b.toNat / 16) ::
      char (b.toNat % 16 * 4 + c.toNat / 64) :: char (c.toNat % 64) :: encode rest

example : encode (bytes "u:p") = bytes "dTpw" := by decide
example : encode (bytes "u") = bytes "dQ==" := by decide

theorem length_encode (x : Bytes) : (encode x).length = (x.length + 2) / 3 * 4 := by
  induction x using encode.induct with
  | case1 => rfl
  | case2 a => simp [encode]
  | case3 a b => simp [encode]
  | case4 a b c rest ih =>
      simp only [encode, List.length_cons, ih]
      omega

/-- What all characters of the alphabet and the padding have, every text has. -/
theorem forall_mem_encode {P : UInt8 → Prop} (all : ∀ v < 64, P (char v)) (padding : P pad)
    (x : Bytes) : ∀ c ∈ encode x, P c := by
  have six : ∀ (a : UInt8), a.toNat < 256 := fun a => a.toNat_lt
  induction x using encode.induct with
  | case1 => simp [encode]
  | case2 a =>
      have := six a
      simp only [encode, List.forall_mem_cons, List.not_mem_nil, false_implies, implies_true]
      exact ⟨all _ (by omega), all _ (by omega), padding, padding, trivial⟩
  | case3 a b =>
      have := six a
      have := six b
      simp only [encode, List.forall_mem_cons, List.not_mem_nil, false_implies, implies_true]
      exact ⟨all _ (by omega), all _ (by omega), all _ (by omega), padding, trivial⟩
  | case4 a b c rest ih =>
      have := six a
      have := six b
      have := six c
      simp only [encode, List.forall_mem_cons]
      exact ⟨all _ (by omega), all _ (by omega), all _ (by omega), all _ (by omega), ih⟩

/-! ## The alphabet by ranges -/

theorem alphabet_eq : alphabet =
    (List.range' 65 26).map UInt8.ofNat ++ (List.range' 97 26).map UInt8.ofNat ++
      (List.range' 48 10).map UInt8.ofNat ++ [43, 47] := by
  decide +kernel

theorem mem_map_ofNat_range' {c : UInt8} {first count : Nat} (h : first + count ≤ 256) :
    c ∈ (List.range' first count).map UInt8.ofNat ↔
      first ≤ c.toNat ∧ c.toNat < first + count := by
  rw [List.mem_map]
  constructor
  · rintro ⟨n, member, rfl⟩
    rw [List.mem_range'_1] at member
    rw [UInt8.toNat_ofNat_of_lt' (by show n < 256; omega)]
    exact member
  · intro within
    exact ⟨c.toNat, List.mem_range'_1.mpr within, UInt8.ofNat_toNat⟩

theorem mem_alphabet_iff {c : UInt8} : c ∈ alphabet ↔
    (65 ≤ c.toNat ∧ c.toNat < 91) ∨ (97 ≤ c.toNat ∧ c.toNat < 123) ∨
      (48 ≤ c.toNat ∧ c.toNat < 58) ∨ c.toNat = 43 ∨ c.toNat = 47 := by
  have others : c ∈ ([43, 47] : Bytes) ↔ c.toNat = 43 ∨ c.toNat = 47 := by
    rw [List.mem_cons, List.mem_singleton, ← UInt8.toNat_inj, ← UInt8.toNat_inj]
    rfl
  rw [alphabet_eq, List.mem_append, List.mem_append, List.mem_append,
    mem_map_ofNat_range' (by decide), mem_map_ofNat_range' (by decide),
    mem_map_ofNat_range' (by decide), others, or_assoc, or_assoc]

/-! ## The padded grammar -/

/-- Letters, and at most two `=` behind them. -/
def Letters (s : Bytes) : Prop :=
  ∃ letters k, s = letters ++ List.replicate k pad ∧ k ≤ 2 ∧ ∀ c ∈ letters, c ∈ alphabet

/-- A padded text: letters in groups of four, the last one filled up. -/
def Padded (s : Bytes) : Prop := s.length % 4 = 0 ∧ Letters s

/-- Behind each `=` there is nothing, or one more of them. -/
def PadsLast (s : Bytes) : Prop :=
  ∀ front back, s = front ++ pad :: back → back = [] ∨ back = [pad]

theorem pad_not_mem_alphabet : pad ∉ alphabet := by decide

theorem padsLast_of_letters {s : Bytes} (h : Letters s) : PadsLast s := by
  obtain ⟨letters, k, rfl, two, all⟩ := h
  have absent : pad ∉ letters := fun member => pad_not_mem_alphabet (all pad member)
  intro front back heq
  have pads : ∃ before, List.replicate k pad = before ++ pad :: back := by
    rcases List.append_eq_append_iff.mp heq with ⟨before, -, hpads⟩ | ⟨more, hletters, hpads⟩
    · exact ⟨before, hpads⟩
    · -- no `=` is one of the letters
      cases more with
      | nil => exact ⟨[], by rw [List.nil_append] at hpads ⊢; exact hpads.symm⟩
      | cons c more =>
          obtain ⟨rfl, -⟩ := List.cons.inj hpads
          exact absurd (hletters ▸ List.mem_append_right _ List.mem_cons_self) absent
  obtain ⟨before, hbefore⟩ := pads
  have same : ∀ c ∈ back, c = pad := by
    intro c hc
    have member : c ∈ List.replicate k pad := by simp [hbefore, hc]
    exact List.eq_of_mem_replicate member
  have hlength := congrArg List.length hbefore
  rw [List.length_replicate, List.length_append, List.length_cons] at hlength
  match back, same with
  | [], _ => exact .inl rfl
  | [c], same => exact .inr (by rw [same c List.mem_cons_self])
  | _ :: _ :: _, _ =>
      rw [List.length_cons, List.length_cons] at hlength
      omega

theorem letters_of_padsLast {s : Bytes} (all : ∀ c ∈ s, c ∈ alphabet ∨ c = pad)
    (last : PadsLast s) : Letters s := by
  -- the letters end in front of the first `=`
  have front : ∀ c ∈ s.takeWhile (· ≠ pad), c ∈ alphabet := by
    intro c hc
    have other : c ≠ pad := by simpa using List.mem_takeWhile_imp hc
    exact (all c ((List.takeWhile_prefix _).subset hc)).resolve_right other
  have whole := List.takeWhile_append_dropWhile (p := (· ≠ pad)) (l := s)
  cases rest : s.dropWhile (· ≠ pad) with
  | nil =>
      rw [rest] at whole
      exact ⟨_, 0, whole.symm, by decide, front⟩
  | cons c back =>
      have first : c = pad := by
        have := List.head?_dropWhile_not (· ≠ pad) s
        rw [rest] at this
        simpa using this
      rw [rest, first] at whole
      rcases last _ back whole.symm with rfl | rfl
      · exact ⟨_, 1, whole.symm, by decide, front⟩
      · exact ⟨_, 2, whole.symm, by decide, front⟩

end Base64
