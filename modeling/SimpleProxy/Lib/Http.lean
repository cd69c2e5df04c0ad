import SimpleProxy.Lib.Lines

/-!
# Request headers

A request line and a list of fields, each line ended by a return and a newline, and an
empty line behind them. A field is a name, which is a token, a colon, and a body; the
rendering `Name: value` is the one whose body is a blank and the value. What a search
finds in a rendered header: a text without line ends is found in the first line that has
it, a newline with a name and a colon behind it at the first field of that name.
-/

namespace Http

open CString

/-! ## Searching a line -/

/-- The first `x` of a text is where it is. -/
theorem before_inj {a b s t : Bytes} {x : UInt8} (ha : x ∉ a) (hb : x ∉ b)
    (same : a ++ x :: s = b ++ x :: t) : a = b := by
  rw [← takeWhile_ne_append ha s, same, takeWhile_ne_append hb]

/-- A text that ends in its only `x`, in a line up to its first `x` and behind it. -/
theorem strstr_ends {pat a : Bytes} {x : UInt8} (hpat : x ∉ pat) (ha : x ∉ a) (rest : Bytes) :
    strstr (a ++ x :: rest) (pat ++ [x]) =
      if pat <:+ a then some (pat ++ x :: rest) else strstr rest (pat ++ [x]) := by
  have here : ∀ {a}, x ∉ a → ((pat ++ [x]).isPrefixOf (a ++ x :: rest) = true ↔ pat = a) := by
    intro a ha
    rw [List.isPrefixOf_iff_prefix]
    constructor
    · rintro ⟨more, hmore⟩
      rw [List.append_assoc, List.singleton_append] at hmore
      exact before_inj hpat ha hmore
    · rintro rfl
      exact ⟨rest, by simp⟩
  induction a with
  | nil =>
      have first := here ha
      rw [List.nil_append] at first ⊢
      by_cases hnil : pat = []
      · subst hnil
        rw [if_pos List.nil_suffix]
        exact strstr_self [x] rest
      · rw [strstr, if_neg (first.not.mpr hnil), if_neg (by rwa [List.suffix_nil])]
  | cons b a ih =>
      have first := here ha
      rw [List.cons_append] at first ⊢
      by_cases hwhole : pat = b :: a
      · rw [strstr, if_pos (first.mpr hwhole), if_pos (hwhole ▸ List.suffix_rfl), hwhole,
          List.cons_append]
      · rw [strstr, if_neg (first.not.mpr hwhole), ih (List.not_mem_of_not_mem_cons ha)]
        simp only [List.suffix_cons_iff, hwhole, false_or]

/-! ## Lines -/

/-- What may stand in a line. -/
structure Text (s : Bytes) : Prop where
  nulFree : 0 ∉ s
  newline : 10 ∉ s
  return' : 13 ∉ s

instance (s : Bytes) : Decidable (Text s) :=
  decidable_of_iff (0 ∉ s ∧ 10 ∉ s ∧ 13 ∉ s)
    ⟨fun h => ⟨h.1, h.2.1, h.2.2⟩, fun h => ⟨h.nulFree, h.newline, h.return'⟩⟩

theorem Text.of_suffix {s t : Bytes} (text : Text t) (h : s <:+ t) : Text s where
  nulFree := fun member => text.nulFree (h.subset member)
  newline := fun member => text.newline (h.subset member)
  return' := fun member => text.return' (h.subset member)

def crlf : Bytes := [13, 10]

/-- Each line with its end. -/
def joinLines (lines : List Bytes) : Bytes := lines.flatMap (· ++ crlf)

@[simp] theorem joinLines_nil : joinLines [] = [] := rfl

@[simp] theorem joinLines_cons (line : Bytes) (lines : List Bytes) :
    joinLines (line :: lines) = line ++ crlf ++ joinLines lines := rfl

theorem joinLines_append (a b : List Bytes) : joinLines (a ++ b) = joinLines a ++ joinLines b :=
  List.flatMap_append

theorem joinLines_eq_nil {lines : List Bytes} (h : joinLines lines = []) : lines = [] := by
  cases lines with
  | nil => rfl
  | cons line lines => simp [crlf] at h

/-- How much is left tells which lines are left. -/
theorem joinLines_suffix_inj {lines a b : List Bytes} (ha : a <:+ lines) (hb : b <:+ lines)
    (same : joinLines a = joinLines b) : a = b := by
  have grow : ∀ {a b : List Bytes}, a <:+ b → joinLines a = joinLines b → a = b := by
    rintro a _ ⟨more, rfl⟩ same
    rw [joinLines_append, List.self_eq_append_left] at same
    rw [joinLines_eq_nil same, List.nil_append]
  rcases List.suffix_or_suffix_of_suffix ha hb with h | h
  · exact grow h same
  · exact (grow h same.symm).symm

/-- The rest of the first line with `pat` from there on, and the lines behind it. -/
def locate (pat : Bytes) : List Bytes → Option (Bytes × List Bytes)
  | [] => none
  | line :: lines =>
    match strstr line pat with
    | some found => some (found, lines)
    | none => locate pat lines

/-- The first line with `pat` is the one that is found. -/
theorem locate_eq_some {pat found : Bytes} {lines back : List Bytes} :
    locate pat lines = some (found, back) ↔ ∃ front line, lines = front ++ line :: back ∧
      (∀ l ∈ front, strstr l pat = none) ∧ strstr line pat = some found := by
  induction lines with
  | nil => simp [locate]
  | cons line lines ih =>
      rw [locate]
      cases hline : strstr line pat with
      | some found' =>
          constructor
          · intro h
            obtain ⟨rfl, rfl⟩ := Prod.mk.inj (Option.some.inj h)
            exact ⟨[], line, rfl, by simp, hline⟩
          · rintro ⟨front, line', heq, absent, hfound⟩
            cases front with
            | nil =>
                obtain ⟨rfl, rfl⟩ := List.cons.inj heq
                rw [hline] at hfound
                rw [Option.some.inj hfound]
            | cons l front =>
                obtain ⟨rfl, -⟩ := List.cons.inj heq
                rw [absent line List.mem_cons_self] at hline
                cases hline
      | none =>
          rw [ih]
          constructor
          · rintro ⟨front, line', rfl, absent, hfound⟩
            exact ⟨line :: front, line', rfl, List.forall_mem_cons.mpr ⟨hline, absent⟩, hfound⟩
          · rintro ⟨front, line', heq, absent, hfound⟩
            cases front with
            | nil =>
                obtain ⟨rfl, -⟩ := List.cons.inj heq
                rw [hline] at hfound
                cases hfound
            | cons l front =>
                obtain ⟨-, rest⟩ := List.cons.inj heq
                exact ⟨front, line', rest, (List.forall_mem_cons.mp absent).2, hfound⟩

theorem locate_eq_none {pat : Bytes} {lines : List Bytes} :
    locate pat lines = none ↔ ∀ line ∈ lines, strstr line pat = none := by
  induction lines with
  | nil => simp [locate]
  | cons line lines ih =>
      rw [locate, List.forall_mem_cons]
      cases strstr line pat <;> simp [ih]

/-- A text that fits into a line. -/
structure Pattern (pat : Bytes) : Prop where
  some : pat ≠ []
  newline : 10 ∉ pat
  return' : 13 ∉ pat

variable {pat : Bytes}

theorem strstr_line (h : Pattern pat) (line rest : Bytes) :
    strstr (line ++ crlf ++ rest) pat =
      ((strstr line pat).map (· ++ crlf ++ rest)).or (strstr rest pat) := by
  have shape : line ++ crlf ++ rest = line ++ 13 :: 10 :: rest := by simp [crlf]
  have skipped : strstr (10 :: rest) pat = strstr rest pat := by
    have separated := strstr_separated h.newline h.some [] rest
    rwa [strstr, if_neg h.some, List.nil_append, Option.map_none, Option.none_or] at separated
  rw [shape, strstr_separated h.return' h.some, skipped]
  simp [crlf]

/-- A search goes from line to line. -/
theorem strstr_joinLines (h : Pattern pat) (lines : List Bytes) (rest : Bytes) :
    strstr (joinLines lines ++ rest) pat =
      ((locate pat lines).map fun hit => hit.1 ++ crlf ++ (joinLines hit.2 ++ rest)).or
        (strstr rest pat) := by
  induction lines with
  | nil => rfl
  | cons line lines ih =>
      rw [joinLines_cons, List.append_assoc, strstr_line h, ih, locate]
      cases strstr line pat <;> rfl

/-! ## Fields -/

/-- The characters of a token. -/
def tchar (c : UInt8) : Bool :=
  33 ≤ c && c ≤ 126 && !(bytes "\"(),/:;<=>?@[\\]").contains c && c ≠ 123 && c ≠ 125

def isToken (s : Bytes) : Bool := !s.isEmpty && s.all tchar

theorem not_mem_token {s : Bytes} {c : UInt8} (token : isToken s = true) (h : tchar c = false) :
    c ∉ s := by
  intro member
  rw [isToken, Bool.and_eq_true] at token
  rw [List.all_eq_true.mp token.2 c member] at h
  cases h

theorem token_ne_nil {s : Bytes} (token : isToken s = true) : s ≠ [] := by
  rintro rfl
  cases token

structure Field where
  name : Bytes
  body : Bytes
  token : isToken name = true
  text : Text body

namespace Field

def line (f : Field) : Bytes := f.name ++ 58 :: f.body

variable (f : Field)

theorem colon_not_mem : 58 ∉ f.name := not_mem_token f.token (by decide)

theorem text_line : Text f.line := by
  have name : ∀ {c}, tchar c = false → c ≠ 58 → c ∉ f.body → c ∉ f.line := by
    intro c hc colon hbody
    rw [line, List.mem_append, List.mem_cons, not_or, not_or]
    exact ⟨not_mem_token f.token hc, colon, hbody⟩
  exact ⟨name (by decide) (by decide) f.text.nulFree, name (by decide) (by decide) f.text.newline,
    name (by decide) (by decide) f.text.return'⟩

end Field

/-- A line that starts with a name and a colon is a field of that name. -/
theorem named_iff (f : Field) {name : Bytes} (colon : 58 ∉ name) (rest : Bytes) :
    name ++ [58] <+: f.line ++ rest ↔ f.name = name := by
  rw [Field.line, List.append_assoc, List.cons_append]
  constructor
  · rintro ⟨more, hmore⟩
    rw [List.append_assoc, List.singleton_append] at hmore
    exact (before_inj colon f.colon_not_mem hmore).symm
  · rintro rfl
    exact ⟨f.body ++ rest, by simp⟩

/-- A name and a colon in the line of a field end its name, or are in its body. -/
theorem strstr_field (f : Field) {name : Bytes} (colon : 58 ∉ name) :
    strstr f.line (name ++ [58]) =
      if name <:+ f.name then some (name ++ 58 :: f.body) else strstr f.body (name ++ [58]) :=
  strstr_ends colon f.colon_not_mem f.body

/-! ## Headers -/

structure Header where
  requestLine : Bytes
  fields : List Field
  text : Text requestLine

namespace Header

def lines (h : Header) : List Bytes := h.requestLine :: h.fields.map Field.line

def render (h : Header) : Bytes := joinLines h.lines ++ crlf

/-- The body of the first field of this name. -/
def body? (h : Header) (name : Bytes) : Option Bytes :=
  (h.fields.find? (·.name = name)).map (·.body)

end Header

/-- The first field of a name behind a newline, or what follows the fields. -/
theorem strstr_fields {name : Bytes} (token : isToken name = true) (fields : List Field)
    (rest : Bytes) :
    strstr (10 :: (joinLines (fields.map Field.line) ++ rest)) (10 :: (name ++ [58])) =
      match fields.dropWhile fun f => f.name ≠ name with
      | [] => strstr (10 :: rest) (10 :: (name ++ [58]))
      | f :: back => some (10 :: (f.line ++ crlf ++ (joinLines (back.map Field.line) ++ rest))) := by
  induction fields with
  | nil => rfl
  | cons f fields ih =>
      have here := named_iff f (not_mem_token token (by decide))
        (crlf ++ (joinLines (fields.map Field.line) ++ rest))
      rw [List.map_cons, joinLines_cons, List.append_assoc, strstr]
      by_cases same : f.name = name
      · rw [if_pos (by simpa using here.mpr same), List.dropWhile_cons_of_neg (by simp [same])]
      · have clean : 10 ∉ f.line ++ [13] := by simp [f.text_line.newline]
        have shape : f.line ++ crlf ++ (joinLines (fields.map Field.line) ++ rest) =
            (f.line ++ [13]) ++ 10 :: (joinLines (fields.map Field.line) ++ rest) := by
          simp [crlf]
        rw [if_neg (by simpa using here.not.mpr same), List.dropWhile_cons_of_pos (by simp [same]),
          shape, strstr_skip clean, ih]

/-- The search for a name in a header and what follows it. -/
theorem strstr_render_named {name : Bytes} (token : isToken name = true) (h : Header)
    (payload : Bytes) :
    strstr (h.render ++ payload) (10 :: (name ++ [58])) =
      match h.fields.dropWhile fun f => f.name ≠ name with
      | [] => strstr (10 :: payload) (10 :: (name ++ [58]))
      | f :: back =>
        some (10 :: (f.line ++ crlf ++ (joinLines (back.map Field.line) ++ (crlf ++ payload)))) := by
  have clean : 10 ∉ h.requestLine ++ [13] := by simp [h.text.newline]
  have shape : h.render ++ payload = (h.requestLine ++ [13]) ++
      10 :: (joinLines (h.fields.map Field.line) ++ (crlf ++ payload)) := by
    simp [Header.render, Header.lines, crlf]
  have blank : strstr (10 :: (crlf ++ payload)) (10 :: (name ++ [58])) =
      strstr (10 :: payload) (10 :: (name ++ [58])) := by
    obtain ⟨c, name, rfl⟩ := List.exists_cons_of_ne_nil (token_ne_nil token)
    have other : c ≠ 13 := by
      rintro rfl
      exact not_mem_token token (by decide) List.mem_cons_self
    have absent : (10 :: (c :: name ++ [58])).isPrefixOf (10 :: (crlf ++ payload)) = false := by
      simp [List.isPrefixOf, crlf, other]
    rw [strstr, absent, if_neg Bool.false_ne_true]
    have return' : (10 : UInt8) ∉ [13] := by decide
    exact strstr_skip return' _ _
  rw [shape, strstr_skip clean, strstr_fields token, blank]

/-! ## Spellings -/

/-- A letter in lower case. -/
def tolower (c : UInt8) : UInt8 := if 65 ≤ c && c ≤ 90 then c + 32 else c

/-- The same but for the case of letters. -/
def SameLetters (a b : Bytes) : Prop := a.map tolower = b.map tolower

instance (a b : Bytes) : Decidable (SameLetters a b) :=
  inferInstanceAs (Decidable (a.map tolower = b.map tolower))

theorem upper_cases {c : UInt8} (h : tolower c ≠ c) : ∃ n < 26, c = UInt8.ofNat (65 + n) := by
  unfold tolower at h
  split at h
  · rename_i upper
    simp only [Bool.and_eq_true, decide_eq_true_eq, UInt8.le_iff_toNat_le] at upper
    have low : 65 ≤ c.toNat := upper.1
    have high : c.toNat ≤ 90 := upper.2
    refine ⟨c.toNat - 65, by omega, ?_⟩
    rw [show 65 + (c.toNat - 65) = c.toNat by omega, UInt8.ofNat_toNat]
  · exact absurd rfl h

/-- Case does not matter for what is a token. -/
theorem tchar_tolower (c : UInt8) : tchar (tolower c) = tchar c := by
  by_cases h : tolower c = c
  · rw [h]
  · obtain ⟨n, hn, rfl⟩ := upper_cases h
    have letters : ∀ n < 26, tchar (tolower (UInt8.ofNat (65 + n))) = tchar (UInt8.ofNat (65 + n)) := by
      decide
    exact letters n hn

theorem tolower_tolower (c : UInt8) : tolower (tolower c) = tolower c := by
  by_cases h : tolower c = c
  · rw [h, h]
  · obtain ⟨n, hn, rfl⟩ := upper_cases h
    have letters : ∀ n < 26, tolower (tolower (UInt8.ofNat (65 + n))) =
        tolower (UInt8.ofNat (65 + n)) := by
      decide
    exact letters n hn

theorem sameLetters_lower (s : Bytes) : SameLetters (s.map tolower) s := by
  unfold SameLetters
  rw [List.map_map]
  exact List.map_congr_left fun c _ => tolower_tolower c

theorem isToken_congr {a b : Bytes} (same : SameLetters a b) : isToken a = isToken b := by
  have fold : ∀ s : Bytes, isToken (s.map tolower) = isToken s := by
    intro s
    rw [isToken, isToken, List.isEmpty_map, List.all_map]
    congr 2
    funext c
    exact tchar_tolower c
  rw [← fold a, ← fold b, same]

/-- A field with its name in another spelling. -/
def Field.respell (f : Field) (name : Bytes) (same : SameLetters name f.name) : Field where
  name := name
  body := f.body
  token := (isToken_congr same).trans f.token
  text := f.text

/-- The same field, in another spelling. -/
structure Respelled (f f' : Field) : Prop where
  name : SameLetters f'.name f.name
  body : f'.body = f.body

/-- The same header, its names in other spellings. -/
structure Header.Respelled (h h' : Header) : Prop where
  requestLine : h'.requestLine = h.requestLine
  fields : List.Forall₂ Http.Respelled h.fields h'.fields

end Http
