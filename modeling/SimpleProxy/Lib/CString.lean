import Mathlib.Data.List.Basic
import Mathlib.Data.Int.Init
import Mathlib.Algebra.Ring.Nat
import Mathlib.Data.List.TakeWhile

/-!
# C strings

Byte strings as C sees them. A pointer into a string is the suffix it points
to, so a search returns a suffix and a pointer difference is a difference of
lengths. `cstr` is the string found in a stretch of memory: everything before
its first NUL. The character classes are those of the "C" locale.
-/

namespace CString

abbrev Bytes := List UInt8

/-- The bytes of an ASCII literal. -/
def bytes (s : String) : Bytes := s.toList.map fun c => UInt8.ofNat c.toNat

/-- The C string stored in `mem`. -/
def cstr (mem : Bytes) : Bytes := mem.takeWhile (· ≠ 0)

/-- A C string: there is no NUL in front of its NUL. -/
structure CStr where
  text : Bytes
  nulFree : 0 ∉ text

/-- The suffix of `s` from the first occurrence of `pat` on. -/
def strstr : Bytes → Bytes → Option Bytes
  | [], pat => if pat = [] then some [] else none
  | c :: s, pat => if pat.isPrefixOf (c :: s) then some (c :: s) else strstr s pat

/-- The suffix of `s` from the first `c` on. -/
def strchr : Bytes → UInt8 → Option Bytes
  | [], _ => none
  | b :: s, c => if b = c then some (b :: s) else strchr s c

/-- White space: tab, newline, vertical tab, form feed, return and blank. -/
def isspace (c : UInt8) : Bool := (9 ≤ c && c ≤ 13) || c = 32

def isdigit (c : UInt8) : Bool := 48 ≤ c && c ≤ 57

/-- The value of a run of digits read after `acc`. -/
def digits (acc : Nat) : Bytes → Nat
  | [] => acc
  | c :: s => if isdigit c then digits (10 * acc + (c.toNat - 48)) s else acc

/-- `strtol` in base ten: white space, a sign, digits; clamped to 64 bits. -/
def strtol (s : Bytes) : Int :=
  match s.dropWhile isspace with
  | 45 :: t => max (-(digits 0 t : Int)) (-9223372036854775808)
  | 43 :: t => min (digits 0 t : Int) 9223372036854775807
  | t => min (digits 0 t : Int) 9223372036854775807

/-- `atoi`: the low 32 bits of `strtol`, as a signed number. -/
def atoi (s : Bytes) : Int := (strtol s).bmod 4294967296

/-- The decimal digits of a number. -/
def decimalNat (n : Nat) : Bytes :=
  if n < 10 then [UInt8.ofNat (48 + n)] else decimalNat (n / 10) ++ [UInt8.ofNat (48 + n % 10)]

/-- `%d`. -/
def decimal (n : Int) : Bytes :=
  if n < 0 then 45 :: decimalNat n.natAbs else decimalNat n.natAbs

/-- One conversion of `sscanf`: a run of at most `width` bytes of a class, and what
follows; an empty run is a matching failure. -/
def scanRun (width : Nat) (p : UInt8 → Bool) (s : Bytes) : Option (Bytes × Bytes) :=
  let run := (s.take width).takeWhile p
  if run = [] then none else some (run, s.drop run.length)

/-- What `snprintf` stores of a text in a buffer of `size` bytes, in front of the
terminating NUL. -/
def snprintf (size : Nat) (text : Bytes) : Bytes := text.take (size - 1)

/-- `fgets` with a buffer of `size` bytes: what it stores of the next line, with its
newline if that fits, and the input that is left; `none` at the end of the input. -/
def fgets (size : Nat) (input : Bytes) : Option (Bytes × Bytes) :=
  if input = [] then none
  else
    let n := min ((input.takeWhile (· ≠ 10)).length + 1) (size - 1)
    some (input.take n, input.drop n)

example : atoi (bytes " 8080x") = 8080 := by decide
example : atoi (bytes "4294967297") = 1 := by decide
example : decimal (-120) = bytes "-120" := by decide +kernel

/-! ## Searching a longer string -/

theorem strstr_suffix {s pat t : Bytes} (h : strstr s pat = some t) : t <:+ s := by
  induction s with
  | nil =>
      simp only [strstr] at h
      split at h <;> simp_all
  | cons c s ih =>
      simp only [strstr] at h
      split at h
      · cases h
        exact List.suffix_rfl
      · exact (ih h).trans (List.suffix_cons c s)

theorem strstr_starts {s pat t : Bytes} (h : strstr s pat = some t) : pat <+: t := by
  induction s with
  | nil =>
      simp only [strstr] at h
      split at h <;> simp_all
  | cons c s ih =>
      simp only [strstr] at h
      split at h
      · rename_i hp
        cases h
        exact List.isPrefixOf_iff_prefix.mp hp
      · exact ih h

theorem strstr_isSome {s pat : Bytes} : (strstr s pat).isSome ↔ pat <:+: s := by
  induction s with
  | nil =>
      rw [strstr, List.infix_nil]
      split <;> simp [*]
  | cons c s ih =>
      rw [strstr, List.infix_cons_iff, ← ih, ← List.isPrefixOf_iff_prefix]
      split <;> simp [*]

/-- More text after the first occurrence does not move it. -/
theorem strstr_append {s pat t : Bytes} (more : Bytes) (h : strstr s pat = some t) :
    strstr (s ++ more) pat = some (t ++ more) := by
  induction s with
  | nil =>
      simp only [strstr] at h
      split at h
      · rename_i hp
        cases h
        subst hp
        cases more <;> simp [strstr]
      · exact absurd h (by simp)
  | cons c s ih =>
      simp only [strstr] at h
      split at h
      · rename_i hp
        cases h
        have hmore : pat.isPrefixOf (c :: s ++ more) = true :=
          List.isPrefixOf_iff_prefix.mpr
            ((List.isPrefixOf_iff_prefix.mp hp).trans (List.prefix_append _ _))
        simp only [List.cons_append] at hmore ⊢
        simp [strstr, hmore]
      · rename_i hp
        -- the pattern occurs later within `s`, so `c :: s` is long enough to
        -- decide that it does not occur at `c`
        have hlen : pat.length ≤ (c :: s).length := by
          have h₁ := (strstr_starts h).length_le
          have h₂ := (strstr_suffix h).length_le
          simp only [List.length_cons]
          omega
        have hnot : pat.isPrefixOf (c :: s ++ more) = false := by
          rw [Bool.eq_false_iff]
          intro hcon
          exact hp (List.isPrefixOf_iff_prefix.mpr
            (List.prefix_of_prefix_length_le (List.isPrefixOf_iff_prefix.mp hcon)
              (List.prefix_append _ _) hlen))
        simp only [List.cons_append] at hnot ⊢
        simp [strstr, hnot, ih h]

theorem strstr_self (pat more : Bytes) : strstr (pat ++ more) pat = some (pat ++ more) := by
  cases pat with
  | nil => cases more <;> simp [strstr]
  | cons c pat =>
      have found : (c :: pat).isPrefixOf (c :: (pat ++ more)) = true :=
        List.isPrefixOf_iff_prefix.mpr (List.prefix_append (c :: pat) more)
      rw [List.cons_append, strstr, if_pos found]

/-- A text without the first byte of the pattern is passed over. -/
theorem strstr_skip {c : UInt8} {front : Bytes} (h : c ∉ front) (pat rest : Bytes) :
    strstr (front ++ rest) (c :: pat) = strstr rest (c :: pat) := by
  induction front with
  | nil => rfl
  | cons b front ih =>
      have hb : c ≠ b := List.ne_of_not_mem_cons h
      have other : (c :: pat).isPrefixOf (b :: (front ++ rest)) = false := by
        simp [List.isPrefixOf, hb]
      rw [List.cons_append, strstr, other, if_neg Bool.false_ne_true,
        ih (List.not_mem_of_not_mem_cons h)]

/-- A text whose first byte does not occur before is found where it stands. -/
theorem strstr_of_not_mem {c : UInt8} {front pat more : Bytes} (h : c ∉ front) :
    strstr (front ++ (c :: pat ++ more)) (c :: pat) = some (c :: pat ++ more) := by
  rw [strstr_skip h]
  exact strstr_self (c :: pat) more

theorem strstr_of_absent {pat s : Bytes} {c : UInt8} (hc : c ∈ pat) (h : c ∉ s) :
    strstr s pat = none := by
  cases found : strstr s pat with
  | none => rfl
  | some t =>
      have occurs := strstr_isSome.mp (found ▸ rfl : (strstr s pat).isSome = true)
      exact absurd (occurs.subset hc) h

/-- A byte that is not in the pattern separates what is in front of it from what is behind. -/
theorem prefix_separated {pat : Bytes} {x : UInt8} (h : x ∉ pat) (a rest : Bytes) :
    pat <+: a ++ x :: rest ↔ pat <+: a := by
  constructor
  · intro found
    rcases Nat.lt_or_ge a.length pat.length with short | long
    · obtain ⟨more, hmore⟩ := List.prefix_of_prefix_length_le (List.prefix_append a (x :: rest))
        found (Nat.le_of_lt short)
      rw [← hmore, List.prefix_append_right_inj] at found
      cases more with
      | nil =>
          rw [List.append_nil] at hmore
          rw [hmore] at short
          exact absurd short (Nat.lt_irrefl _)
      | cons y more =>
          obtain ⟨rfl, -⟩ := List.cons_prefix_cons.mp found
          exact absurd (hmore ▸ List.mem_append_right _ List.mem_cons_self) h
    · exact List.prefix_of_prefix_length_le found (List.prefix_append _ _) long
  · intro found
    exact found.trans (List.prefix_append _ _)

theorem strstr_separated {pat : Bytes} {x : UInt8} (h : x ∉ pat) (nonempty : pat ≠ [])
    (a rest : Bytes) :
    strstr (a ++ x :: rest) pat = ((strstr a pat).map (· ++ x :: rest)).or (strstr rest pat) := by
  have here : ∀ a : Bytes, pat.isPrefixOf (a ++ x :: rest) = pat.isPrefixOf a := by
    intro a
    rw [Bool.eq_iff_iff, List.isPrefixOf_iff_prefix, List.isPrefixOf_iff_prefix,
      prefix_separated h]
  induction a with
  | nil =>
      have absent : pat.isPrefixOf (x :: rest) = false := by
        refine (here []).trans ?_
        cases pat with
        | nil => exact absurd rfl nonempty
        | cons c pat => rfl
      have passed : strstr (x :: rest) pat = strstr rest pat := by
        rw [strstr, absent, if_neg Bool.false_ne_true]
      have nothing : strstr [] pat = none := by rw [strstr, if_neg nonempty]
      rw [List.nil_append, passed, nothing]
      rfl
  | cons b a ih =>
      have same := here (b :: a)
      rw [List.cons_append] at same ⊢
      rw [strstr, strstr, same, ih]
      split <;> rfl

/-- `strchr` stops at the first one. -/
theorem strchr_eq_some {s t : Bytes} {c : UInt8} :
    strchr s c = some t ↔ ∃ front rest, s = front ++ c :: rest ∧ t = c :: rest ∧ c ∉ front := by
  induction s with
  | nil => simp [strchr]
  | cons b s ih =>
      rw [strchr]
      split
      · rename_i same
        subst same
        constructor
        · intro h
          exact ⟨[], s, rfl, (Option.some.inj h).symm, List.not_mem_nil⟩
        · rintro ⟨front, rest, hs, rfl, clean⟩
          cases front with
          | nil => rw [hs, List.nil_append]
          | cons b' front =>
              rw [List.cons_append] at hs
              exact absurd List.mem_cons_self ((List.cons.inj hs).1 ▸ clean)
      · rename_i other
        rw [ih]
        constructor
        · rintro ⟨front, rest, rfl, rfl, clean⟩
          exact ⟨b :: front, rest, rfl, rfl, by simp [clean, Ne.symm other]⟩
        · rintro ⟨front, rest, hs, rfl, clean⟩
          cases front with
          | nil => exact absurd (List.cons.inj hs).1 other
          | cons b' front =>
              exact ⟨front, rest, (List.cons.inj hs).2, rfl, List.not_mem_of_not_mem_cons clean⟩

theorem strchr_append (a rest : Bytes) (c : UInt8) :
    strchr (a ++ rest) c = ((strchr a c).map (· ++ rest)).or (strchr rest c) := by
  induction a with
  | nil => rfl
  | cons b a ih =>
      rw [List.cons_append, strchr, strchr, ih]
      split <;> rfl

theorem strchr_of_not_mem {s : Bytes} {c : UInt8} (h : c ∉ s) : strchr s c = none := by
  cases found : strchr s c with
  | none => rfl
  | some t =>
      obtain ⟨front, rest, rfl, -, -⟩ := strchr_eq_some.mp found
      exact absurd (List.mem_append_right _ List.mem_cons_self) h

theorem strchr_suffix {s t : Bytes} {c : UInt8} (h : strchr s c = some t) : t <:+ s := by
  obtain ⟨front, rest, rfl, rfl, -⟩ := strchr_eq_some.mp h
  exact List.suffix_append _ _

theorem cstr_starts (mem : Bytes) : cstr mem <+: mem := List.takeWhile_prefix _

/-- A NUL behind a text without one belongs to what follows. -/
theorem cstr_append {front : Bytes} (h : 0 ∉ front) (rest : Bytes) :
    cstr (front ++ rest) = front ++ cstr rest := by
  refine List.takeWhile_append_of_pos ?_
  intro c hc
  simp only [ne_eq, decide_eq_true_eq]
  rintro rfl
  exact h hc

theorem cstr_append_of_mem {front : Bytes} (h : 0 ∈ front) (rest : Bytes) :
    cstr (front ++ rest) = cstr front := by
  obtain ⟨before, after, rfl, clean⟩ := List.eq_append_cons_of_mem h
  rw [List.append_assoc, List.cons_append, cstr_append clean, cstr_append clean]
  rfl

theorem cstr_of_not_mem {s : Bytes} (h : 0 ∉ s) : cstr s = s := by
  have whole := cstr_append h []
  rw [List.append_nil] at whole
  exact whole.trans (List.append_nil s)

theorem not_mem_cstr (s : Bytes) : 0 ∉ cstr s := by
  intro h
  have := List.mem_takeWhile_imp h
  simp at this

/-- What a search finds in the C string it finds in the memory. -/
theorem strstr_of_cstr {mem pat t : Bytes} (h : strstr (cstr mem) pat = some t) :
    ∃ more, strstr mem pat = some (t ++ more) := by
  obtain ⟨more, hmore⟩ := cstr_starts mem
  exact ⟨more, by rw [← hmore]; exact strstr_append more h⟩

/-- Texts that fit with room to spare are told apart. -/
theorem snprintf_inj {size : Nat} {front back a b : Bytes}
    (fits : (front ++ a ++ back).length < size - 1)
    (same : snprintf size (front ++ a ++ back) = snprintf size (front ++ b ++ back)) : a = b := by
  unfold snprintf at same
  have hlength := congrArg List.length same
  rw [List.length_take, List.length_take] at hlength
  have whole : (front ++ b ++ back).length < size - 1 := by omega
  rw [List.take_of_length_le (Nat.le_of_lt fits),
    List.take_of_length_le (Nat.le_of_lt whole)] at same
  exact List.append_cancel_left (List.append_cancel_right same)

/-! ## One conversion -/

/-- Where a conversion stops: at its width, or in front of a byte outside of the
class. -/
def Stops (width : Nat) (p : UInt8 → Bool) (run rest : Bytes) : Prop :=
  run.length = width ∨ ∀ c ∈ rest.head?, p c = false

theorem takeWhile_take_of_stops {width : Nat} {p : UInt8 → Bool} {run rest : Bytes}
    (fits : run.length ≤ width) (all : ∀ c ∈ run, p c = true) (stops : Stops width p run rest) :
    ((run ++ rest).take width).takeWhile p = run := by
  induction run generalizing width with
  | nil =>
      rcases stops with rfl | stops
      · rfl
      · cases rest with
        | nil => simp
        | cons c rest =>
            have hc : p c = false := stops c rfl
            cases width <;> simp [hc]
  | cons b run ih =>
      obtain ⟨hb, hrun⟩ := List.forall_mem_cons.mp all
      cases width with
      | zero => simp at fits
      | succ width =>
          rw [List.length_cons] at fits
          have := ih (Nat.le_of_succ_le_succ fits) hrun (by simpa [Stops] using stops)
          rw [List.cons_append, List.take_succ_cons, List.takeWhile_cons, if_pos hb, this]

theorem stops_takeWhile_take (width : Nat) (p : UInt8 → Bool) (s : Bytes) :
    ∃ run rest, s = run ++ rest ∧ (s.take width).takeWhile p = run ∧ run.length ≤ width ∧
      (∀ c ∈ run, p c = true) ∧ Stops width p run rest := by
  induction s generalizing width with
  | nil => exact ⟨[], [], rfl, by simp, Nat.zero_le _, by simp, .inr (by simp)⟩
  | cons b s ih =>
      cases width with
      | zero => exact ⟨[], b :: s, rfl, rfl, Nat.zero_le _, by simp, .inl rfl⟩
      | succ width =>
          cases hb : p b with
          | false => exact ⟨[], b :: s, rfl, by simp [hb], Nat.zero_le _, by simp, .inr (by simpa)⟩
          | true =>
              obtain ⟨run, rest, heq, htake, hle, hall, hstops⟩ := ih width
              refine ⟨b :: run, rest, by rw [heq, List.cons_append], ?_, ?_, ?_, ?_⟩
              · rw [List.take_succ_cons, List.takeWhile_cons, if_pos hb, htake]
              · simpa using hle
              · exact List.forall_mem_cons.mpr ⟨hb, hall⟩
              · simpa [Stops] using hstops

/-- A conversion takes the longest run it may. -/
theorem scanRun_eq_some {width : Nat} {p : UInt8 → Bool} {s run rest : Bytes} :
    scanRun width p s = some (run, rest) ↔
      s = run ++ rest ∧ run ≠ [] ∧ run.length ≤ width ∧ (∀ c ∈ run, p c = true) ∧
        Stops width p run rest := by
  unfold scanRun
  dsimp only
  constructor
  · intro h
    obtain ⟨run', rest', rfl, htake, hle, hall, hstops⟩ := stops_takeWhile_take width p s
    rw [htake] at h
    split at h
    · cases h
    · rename_i hne
      cases h
      rw [List.drop_left]
      exact ⟨rfl, hne, hle, hall, hstops⟩
  · rintro ⟨rfl, hne, hle, hall, hstops⟩
    rw [takeWhile_take_of_stops hle hall hstops, if_neg hne, List.drop_left]

/-- A conversion fails only in front of a byte outside of the class. -/
theorem scanRun_eq_none {width : Nat} {p : UInt8 → Bool} {s : Bytes} (hwidth : 0 < width) :
    scanRun width p s = none ↔ ∀ c ∈ s.head?, p c = false := by
  unfold scanRun
  dsimp only
  cases s with
  | nil => simp
  | cons b s =>
      obtain ⟨width, rfl⟩ : ∃ n, width = n + 1 := ⟨width - 1, by omega⟩
      cases hb : p b <;> simp [hb]

/-! ## Numbers and their digits -/

theorem digits_append {s : Bytes} (all : ∀ c ∈ s, isdigit c = true) (acc : Nat) (t : Bytes) :
    digits acc (s ++ t) = digits (digits acc s) t := by
  induction s generalizing acc with
  | nil => rfl
  | cons c s ih =>
      obtain ⟨hc, hs⟩ := List.forall_mem_cons.mp all
      rw [List.cons_append, digits, digits, if_pos hc, if_pos hc, ih hs]

theorem digits_stop {x : UInt8} (h : isdigit x = false) (s rest : Bytes) (acc : Nat) :
    digits acc (s ++ x :: rest) = digits acc s := by
  induction s generalizing acc with
  | nil =>
      show (if isdigit x then _ else acc) = acc
      rw [h, if_neg Bool.false_ne_true]
  | cons c s ih => rw [List.cons_append, digits, digits, ih]

/-- The character of a digit. -/
theorem isdigit_ofNat {d : Nat} (h : d < 10) :
    isdigit (UInt8.ofNat (48 + d)) = true ∧ (UInt8.ofNat (48 + d)).toNat - 48 = d := by
  have all : ∀ d < 10, isdigit (UInt8.ofNat (48 + d)) = true ∧
      (UInt8.ofNat (48 + d)).toNat - 48 = d := by decide
  exact all d h

theorem isdigit_of_mem_decimalNat (n : Nat) : ∀ c ∈ decimalNat n, isdigit c = true := by
  induction n using Nat.strongRecOn with
  | ind n ih =>
      intro c hc
      rw [decimalNat] at hc
      split at hc
      · rename_i small
        rw [List.mem_singleton.mp hc]
        exact (isdigit_ofNat small).1
      · rcases List.mem_append.mp hc with front | last
        · exact ih (n / 10) (by omega) c front
        · rw [List.mem_singleton.mp last]
          exact (isdigit_ofNat (Nat.mod_lt n (by decide))).1

theorem digits_decimalNat (n : Nat) : digits 0 (decimalNat n) = n := by
  induction n using Nat.strongRecOn with
  | ind n ih =>
      have one : ∀ {acc d}, d < 10 → digits acc [UInt8.ofNat (48 + d)] = 10 * acc + d := by
        intro acc d h
        obtain ⟨isDigit, value⟩ := isdigit_ofNat h
        rw [digits, if_pos isDigit, digits, value]
      rw [decimalNat]
      split
      · rename_i small
        rw [one small]
        omega
      · rw [digits_append (isdigit_of_mem_decimalNat _), ih (n / 10) (by omega),
          one (Nat.mod_lt n (by decide))]
        omega

theorem length_decimalNat {n k : Nat} (hk : 0 < k) (h : n < 10 ^ k) :
    (decimalNat n).length ≤ k := by
  induction k generalizing n with
  | zero => omega
  | succ k ih =>
      rw [decimalNat]
      split
      · simp
      · rename_i large
        rw [List.length_append, List.length_singleton]
        have hpow : 10 ^ (k + 1) = 10 ^ k * 10 := Nat.pow_succ 10 k
        have positive : 0 < k := by
          rcases Nat.eq_zero_or_pos k with rfl | hpos
          · omega
          · exact hpos
        have := ih positive (n := n / 10) (by omega)
        omega

/-- A digit is none of the characters a line is cut or split at. -/
theorem isspace_of_isdigit {c : UInt8} (h : isdigit c = true) : isspace c = false := by
  have all : ∀ n < 256, isdigit (UInt8.ofNat n) = true → isspace (UInt8.ofNat n) = false := by
    decide +kernel
  have := all c.toNat c.toNat_lt
  rw [UInt8.ofNat_toNat] at this
  exact this h

/-- The digits of a number, with a sign in front of a negative one. -/
theorem mem_decimal {n : Int} {c : UInt8} (h : c ∈ decimal n) : c = 45 ∨ isdigit c = true := by
  unfold decimal at h
  split at h
  · rcases List.mem_cons.mp h with rfl | h
    · exact .inl rfl
    · exact .inr (isdigit_of_mem_decimalNat _ c h)
  · exact .inr (isdigit_of_mem_decimalNat _ c h)

theorem dropWhile_append_stop {p : UInt8 → Bool} {x : UInt8} (h : p x = false) (s rest : Bytes) :
    (s ++ x :: rest).dropWhile p = s.dropWhile p ++ x :: rest := by
  rw [List.dropWhile_append, List.dropWhile_cons_of_neg (by simp [h])]
  split
  · rename_i nothing
    rw [List.isEmpty_iff.mp nothing, List.nil_append]
  · rfl

theorem strtol_unsigned {c : UInt8} {s t : Bytes} (h : s.dropWhile isspace = c :: t)
    (minus : c ≠ 45) (plus : c ≠ 43) :
    strtol s = min (digits 0 (c :: t) : Int) 9223372036854775807 := by
  rw [strtol, h]
  split
  · rename_i heq
    exact absurd (List.cons.inj heq).1 minus
  · rename_i heq
    exact absurd (List.cons.inj heq).1 plus
  · rfl

/-- A number ends in front of the first byte that is none of its characters. -/
theorem atoi_stop {x : UInt8} (digit : isdigit x = false) (space : isspace x = false)
    (minus : x ≠ 45) (plus : x ≠ 43) (s rest : Bytes) : atoi (s ++ x :: rest) = atoi s := by
  have hdrop := dropWhile_append_stop space s rest
  have same : strtol (s ++ x :: rest) = strtol s := by
    cases hs : s.dropWhile isspace with
    | nil =>
        rw [hs, List.nil_append] at hdrop
        have nothing : digits 0 (x :: rest) = 0 := digits_stop digit [] rest 0
        rw [strtol_unsigned hdrop minus plus, nothing, strtol, hs]
        rfl
    | cons c t =>
        rw [hs, List.cons_append] at hdrop
        by_cases negative : c = 45
        · subst negative
          rw [strtol, strtol, hdrop, hs]
          show max (-(digits 0 (t ++ x :: rest) : Int)) _ = max (-(digits 0 t : Int)) _
          rw [digits_stop digit]
        · by_cases positive : c = 43
          · subst positive
            rw [strtol, strtol, hdrop, hs]
            show min (digits 0 (t ++ x :: rest) : Int) _ = min (digits 0 t : Int) _
            rw [digits_stop digit]
          · rw [strtol_unsigned hdrop negative positive, strtol_unsigned hs negative positive,
              ← List.cons_append, digits_stop digit]
  rw [atoi, atoi, same]

/-- The range of `int`. -/
def IsInt (n : Int) : Prop := -2147483648 ≤ n ∧ n ≤ 2147483647

theorem isInt_atoi (s : Bytes) : IsInt (atoi s) := by
  have low := Int.le_bmod (x := strtol s) (m := 4294967296) (by decide)
  have high := Int.bmod_lt (x := strtol s) (m := 4294967296) (by decide)
  unfold IsInt atoi
  omega

theorem length_decimal {n : Int} (h : IsInt n) : (decimal n).length ≤ 11 := by
  have small : n.natAbs < 10 ^ 10 := by
    unfold IsInt at h
    omega
  have := length_decimalNat (by decide) small
  unfold decimal
  split
  · rw [List.length_cons]
    omega
  · omega

theorem strtol_digits {s : Bytes} (all : ∀ c ∈ s, isdigit c = true) :
    strtol s = min (digits 0 s : Int) 9223372036854775807 := by
  have dropped : s.dropWhile isspace = s := by
    cases s with
    | nil => rfl
    | cons c s =>
        have hc := isspace_of_isdigit (all c List.mem_cons_self)
        rw [List.dropWhile_cons_of_neg (by simp [hc])]
  unfold strtol
  rw [dropped]
  split
  · exact absurd (all 45 List.mem_cons_self) (by decide)
  · exact absurd (all 43 List.mem_cons_self) (by decide)
  · rfl

/-- A number below 2^31 is read as it is. -/
theorem atoi_digits {s : Bytes} (all : ∀ c ∈ s, isdigit c = true)
    (small : digits 0 s < 2147483648) : atoi s = digits 0 s := by
  rw [atoi, strtol_digits all, Int.bmod_eq_of_le]
  · omega
  · omega
  · omega

/-- `atoi` reads back what `%d` printed. -/
theorem atoi_decimal {n : Int} (h : IsInt n) : atoi (decimal n) = n := by
  unfold IsInt at h
  have value : strtol (decimal n) = n := by
    unfold decimal
    split
    · show max (-(digits 0 (decimalNat n.natAbs) : Int)) _ = n
      rw [digits_decimalNat]
      omega
    · rw [strtol_digits (isdigit_of_mem_decimalNat _), digits_decimalNat]
      omega
  rw [atoi, value, Int.bmod_eq_of_le]
  · omega
  · omega

end CString
