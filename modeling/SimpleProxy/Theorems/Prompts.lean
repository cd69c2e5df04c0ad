import SimpleProxy.ProxyConfig.Setup

/-!
# The ports of the setup

Both prompts say that a port must be between 1 and 65535. Both take 0; the test of
`ask_port` excludes no number at all, and that of `ask_db_port` looks at what is left of
the number in an `int`.
-/

namespace SimpleProxy.Theorems.Prompts

open Interact CString

variable {typed : Typed} {default : Int} {outside : Int → Bool} {size : Nat} {input : Option Bytes}
  {line : Bytes}

/-- The decimal digits of a port. -/
def Proper (line : Bytes) : Prop :=
  isAllDigits line = true ∧ 1 ≤ digits 0 line ∧ digits 0 line ≤ 65535

instance : DecidablePred Proper := fun line =>
  inferInstanceAs (Decidable (isAllDigits line = true ∧ 1 ≤ digits 0 line ∧ digits 0 line ≤ 65535))

/-- A prompt has its answer: reading failed, or an empty line or a port was typed. -/
def Settles (input : Option Bytes) : Prop := ∀ line ∈ input, line = [] ∨ Proper line

/-- What a prompt is for: its answer to an input, and `none` to ask again. -/
def wanted (default : Int) : Option Bytes → Option Int
  | none => some (-1)
  | some line =>
    if line = [] then some default else if Proper line then some (digits 0 line) else none

/-- The prompt answers the first input that settles it, as it is meant to, and a port it
returns is one that `check_config` lets pass. -/
structure Exact (typed : Typed) (ask : Loop ToolAnswer Unit Int) (default : Int) : Prop where
  answers : ∀ n r, Answers typed ask n r ↔
    wanted default (typed.line n) = some r ∧ ∀ i < n, wanted default (typed.line i) = none
  passes : ∀ n r, Answers typed ask n r → r ≠ -1 → ∀ config, checkConfig config = true →
    checkConfig { config with port := r } = true ∧ checkConfig { config with dbPort := r } = true

/-- A line that is taken for a port and is none. -/
def Stray (outside : Int → Bool) (input : Option Bytes) : Prop :=
  ∃ line ∈ input, isAllDigits line = true ∧ outside (atoi line) = false ∧ ¬ Proper line

theorem digits_of_isAllDigits (h : isAllDigits line = true) : ∀ c ∈ line, isdigit c = true := by
  rw [isAllDigits, Bool.and_eq_true] at h
  exact List.all_eq_true.mp h.2

theorem ne_nil_of_isAllDigits (h : isAllDigits line = true) : line ≠ [] := by
  rw [isAllDigits, Bool.and_eq_true] at h
  simpa using h.1

theorem wanted_eq_none_iff : wanted default input = none ↔ ¬ Settles input := by
  cases input with
  | none => simp [wanted, Settles]
  | some line =>
      rw [wanted, Settles]
      by_cases empty : line = []
      · simp [empty]
      · by_cases proper : Proper line
        · simp [empty, proper]
        · simp [empty, proper]

/-- What settles a prompt is answered as it is meant to be. -/
theorem takeLine_of_wanted (range : ∀ port, 1 ≤ port → port ≤ 65535 → outside port = false)
    {r : Int} (h : wanted default input = some r) : takeLine default outside input = .inr r := by
  cases input with
  | none =>
      cases h
      rfl
  | some line =>
      rw [wanted] at h
      rw [takeLine]
      by_cases empty : line = []
      · rw [if_pos empty] at h ⊢
        cases h
        rfl
      · rw [if_neg empty] at h ⊢
        by_cases proper : Proper line
        · rw [if_pos proper] at h
          obtain ⟨all, low, high⟩ := proper
          have value : atoi line = digits 0 line := atoi_digits (digits_of_isAllDigits all) (by omega)
          have inside := range (digits 0 line) (by omega) (by omega)
          cases h
          simp [all, value, inside]
        · rw [if_neg proper] at h
          cases h

/-- Of the other lines those are taken that are taken for a port. -/
theorem takeLine_of_unsettled (h : ¬ Settles input) :
    (takeLine default outside input = .inl () ∧ ¬ Stray outside input) ∨
      ∃ r, takeLine default outside input = .inr r ∧ Stray outside input := by
  simp only [Settles, not_forall, not_or] at h
  obtain ⟨line, rfl, empty, proper⟩ := h
  rw [takeLine, if_neg empty]
  cases all : isAllDigits line with
  | false =>
      refine .inl ⟨rfl, ?_⟩
      rintro ⟨line', same, all', -⟩
      obtain rfl : line = line' := Option.some.inj same
      rw [all] at all'
      cases all'
  | true =>
      cases inside : outside (atoi line) with
      | true =>
          refine .inl ⟨by simp [inside], ?_⟩
          rintro ⟨line', same, -, inside', -⟩
          obtain rfl : line = line' := Option.some.inj same
          rw [inside] at inside'
          cases inside'
      | false => exact .inr ⟨atoi line, by simp [inside], line, rfl, all, inside, proper⟩

/-- A stray line is none that settles. -/
theorem unsettled_of_stray (h : Stray outside input) : ¬ Settles input := by
  obtain ⟨line, rfl, all, -, proper⟩ := h
  intro settles
  rcases settles line rfl with empty | proper'
  · exact ne_nil_of_isAllDigits all empty
  · exact proper proper'

/-- Any other line than a stray one is answered as it is meant to be, also when that is to
ask again. -/
theorem takeLine_of_calm (range : ∀ port, 1 ≤ port → port ≤ 65535 → outside port = false)
    (calm : ¬ Stray outside input) :
    takeLine default outside input = (wanted default input).elim (.inl ()) .inr := by
  cases h : wanted default input with
  | some r => exact takeLine_of_wanted range h
  | none =>
      rcases takeLine_of_unsettled (wanted_eq_none_iff.mp h) with ⟨again, -⟩ | ⟨_, -, stray⟩
      · exact again
      · exact absurd stray calm

/-- A value that is wanted is a default, a port, or the report that reading failed. -/
theorem ne_zero_of_wanted {r : Int} (positive : default ≠ 0) (h : wanted default input = some r) :
    r ≠ 0 := by
  cases input with
  | none =>
      cases h
      decide
  | some line =>
      rw [wanted] at h
      split at h
      · cases h
        exact positive
      · split at h
        · rename_i proper
          cases h
          have low := proper.2.1
          omega
        · cases h

/-- While nothing has settled the prompt no line is stray. -/
theorem calm_of_early (early : ∀ n, Stray outside (typed.line n) → ∃ i < n, Settles (typed.line i))
    {n : Nat} (before : ∀ i < n, wanted default (typed.line i) = none) :
    ∀ i ≤ n, ¬ Stray outside (typed.line i) := by
  intro i hi stray
  obtain ⟨j, hj, settles⟩ := early i stray
  exact wanted_eq_none_iff.mp (before j (Nat.lt_of_lt_of_le hj hi)) settles

/-- The answers of a prompt whose stray lines all come too late. -/
theorem answers_iff_wanted (range : ∀ port, 1 ≤ port → port ≤ 65535 → outside port = false)
    (early : ∀ n, Stray outside (typed.line n) → ∃ i < n, Settles (typed.line i)) (n : Nat)
    (r : Int) :
    Answers typed (askRound default outside size) n r ↔
      wanted default (typed.line n) = some r ∧ ∀ i < n, wanted default (typed.line i) = none := by
  rw [answers_iff]
  constructor
  · rintro ⟨taken, again⟩
    have before : ∀ i < n, wanted default (typed.line i) = none := by
      intro i hi
      cases h : wanted default (typed.line i) with
      | none => rfl
      | some w =>
          have := (again i hi).symm.trans (takeLine_of_wanted range h)
          cases this
    refine ⟨?_, before⟩
    have calm := calm_of_early early before n (Nat.le_refl n)
    rw [takeLine_of_calm range calm] at taken
    cases h : wanted default (typed.line n) with
    | none =>
        rw [h] at taken
        cases taken
    | some w =>
        rw [h] at taken
        cases taken
        rfl
  · rintro ⟨wants, before⟩
    refine ⟨takeLine_of_wanted range wants, fun i hi => ?_⟩
    have calm := calm_of_early early before i (Nat.le_of_lt hi)
    rw [takeLine_of_calm range calm, before i hi]
    rfl

/-- The first stray line is answered, unless the prompt has its answer already. -/
theorem early_of_exact (exact' : Exact typed (askRound default outside size) default) (n : Nat)
    (stray : Stray outside (typed.line n)) : ∃ i < n, Settles (typed.line i) := by
  induction n using Nat.strongRecOn with
  | ind n ih =>
      refine Classical.byContradiction fun unsettled => ?_
      simp only [not_exists, not_and] at unsettled
      -- none of the lines before is taken, so this one is answered
      have again : ∀ i < n, takeLine default outside (typed.line i) = .inl () := by
        intro i hi
        rcases takeLine_of_unsettled (unsettled i hi) with ⟨again, -⟩ | ⟨_, -, stray'⟩
        · exact again
        · obtain ⟨j, hj, settles⟩ := ih i hi stray'
          exact absurd settles (unsettled j (Nat.lt_trans hj hi))
      rcases takeLine_of_unsettled (unsettled_of_stray stray) with ⟨-, other⟩ | ⟨r, taken, -⟩
      · exact other stray
      · have answered := ((exact'.answers n r).mp (answers_iff.mpr ⟨taken, again⟩)).1
        rw [wanted_eq_none_iff.mpr (unsettled_of_stray stray)] at answered
        cases answered

/-- A prompt is exact as long as no stray line comes before one that settles it. -/
theorem exact_iff (range : ∀ port, 1 ≤ port → port ≤ 65535 → outside port = false)
    (positive : default ≠ 0) :
    Exact typed (askRound default outside size) default ↔
      ∀ n, Stray outside (typed.line n) → ∃ i < n, Settles (typed.line i) := by
  refine ⟨early_of_exact, fun early => ?_⟩
  have answers := @answers_iff_wanted _ default _ size range early
  refine ⟨answers, fun n r answered _ config checked => ?_⟩
  have port := ne_zero_of_wanted positive ((answers n r).mp answered).1
  simp only [checkConfig, Bool.and_eq_true, decide_eq_true_eq] at checked ⊢
  obtain ⟨⟨strings, dbPort⟩, port'⟩ := checked
  exact ⟨⟨⟨strings, dbPort⟩, port⟩, ⟨strings, port⟩, port'⟩

/-! ## The two tests -/

/-- No number is outside for `ask_port`. -/
theorem outsidePort_eq_false (port : Int) : outsidePort port = false := by
  rw [outsidePort, Bool.and_eq_false_iff, decide_eq_false_iff_not, decide_eq_false_iff_not]
  omega

theorem outsideDbPort_eq_false {port : Int} :
    outsideDbPort port = false ↔ 0 ≤ port ∧ port ≤ 65535 := by
  rw [outsideDbPort, Bool.or_eq_false_iff, decide_eq_false_iff_not, decide_eq_false_iff_not]
  omega

/-- What `atoi` leaves of a number: it is clamped to 63 bits and cut to 32. -/
theorem atoi_within_iff (all : isAllDigits line = true) :
    0 ≤ atoi line ∧ atoi line ≤ 65535 ↔
      digits 0 line < 9223372036854775808 ∧ digits 0 line % 4294967296 ≤ 65535 := by
  rw [atoi, strtol_digits (digits_of_isAllDigits all), Int.bmod_def]
  split <;> omega

/-- **The prompts.** `ask_port` is exact as long as no line of digits above 65535, or of the
number 0, comes before one that settles it. For `ask_db_port` a larger number does no harm
unless the low 32 bits of it are at most 65535. -/
theorem prompts_exact_iff (typed : Typed) :
    (Exact typed (askPort 256) defaultPort ↔
      ∀ n line, typed.line n = some line → isAllDigits line = true →
        (digits 0 line = 0 ∨ 65535 < digits 0 line) → ∃ i < n, Settles (typed.line i)) ∧
    (Exact typed (askDbPort 256) defaultDbPort ↔
      ∀ n line, typed.line n = some line → isAllDigits line = true →
        (digits 0 line = 0 ∨ 65535 < digits 0 line ∧ digits 0 line < 9223372036854775808 ∧
          digits 0 line % 4294967296 ≤ 65535) → ∃ i < n, Settles (typed.line i)) := by
  constructor
  · rw [askPort, exact_iff (fun port _ _ => outsidePort_eq_false port) (by decide)]
    refine forall_congr' fun n => ?_
    constructor
    · intro early line found all improper
      refine early ⟨line, found, all, outsidePort_eq_false _, fun proper => ?_⟩
      have := proper.2
      omega
    · rintro early ⟨line, found, all, -, proper⟩
      refine early line found all ?_
      have improper : ¬ (1 ≤ digits 0 line ∧ digits 0 line ≤ 65535) :=
        fun range => proper ⟨all, range⟩
      omega
  · rw [askDbPort, exact_iff (fun port low high => outsideDbPort_eq_false.mpr ⟨by omega, high⟩)
      (by decide)]
    refine forall_congr' fun n => ?_
    constructor
    · intro early line found all improper
      have inside := outsideDbPort_eq_false.mpr ((atoi_within_iff all).mpr (by omega))
      refine early ⟨line, found, all, inside, fun proper => ?_⟩
      have := proper.2
      omega
    · rintro early ⟨line, found, all, inside, proper⟩
      refine early line found all ?_
      have within := (atoi_within_iff all).mp (outsideDbPort_eq_false.mp inside)
      have improper : ¬ (1 ≤ digits 0 line ∧ digits 0 line ≤ 65535) :=
        fun range => proper ⟨all, range⟩
      omega

/-- What `fgets` makes of an input. -/
def typedFrom (size : Nat) (stdin : Bytes) : Typed
  | 0 => (fgets size stdin).map Prod.fst
  | n + 1 => (fgets size stdin).bind fun (_, rest) => typedFrom size rest n

/-- 70000 is taken by the first prompt; the second takes 0, and 2^32 + 80 for 80. -/
theorem prompts_exact_fails :
    Answers (typedFrom 256 (bytes "70000\n")) (askPort 256) 0 70000 ∧
      Answers (typedFrom 256 (bytes "0\n")) (askDbPort 256) 0 0 ∧
      Answers (typedFrom 256 (bytes "4294967376\n")) (askDbPort 256) 0 80 ∧
      ¬ ∀ typed, Exact typed (askPort 256) defaultPort ∧
        Exact typed (askDbPort 256) defaultDbPort := by
  have first : ∀ {typed default outside r}, takeLine default outside (typed.line 0) = .inr r →
      Answers typed (askRound default outside 256) 0 r :=
    fun taken => answers_iff.mpr ⟨taken, fun i hi => absurd hi (Nat.not_lt_zero i)⟩
  have taken : Answers (typedFrom 256 (bytes "70000\n")) (askPort 256) 0 70000 := first (by decide)
  refine ⟨taken, first (by decide), first (by decide), fun all => ?_⟩
  have wants := (((all (typedFrom 256 (bytes "70000\n"))).1.answers 0 70000).mp taken).1
  revert wants
  decide

end SimpleProxy.Theorems.Prompts
