import SimpleProxy.Lib.CString

/-!
# String literals in SQL text

How MySQL reads the string literals of a statement in its default mode: a
literal opened by a single quote ends at the next quote that is neither doubled
nor behind a backslash. `Lexes` splits a text into literals and the bytes around
them. A statement template has holes between quotes; `lexes_iff` says for which
arguments the rendered text reads as the template with exactly these arguments.
-/

namespace Sql

open CString

def quote : UInt8 := 39

def backslash : UInt8 := 92

/-- The bytes with a meaning of their own behind a backslash: NUL, backspace,
newline, return, tab and control-Z. -/
def escapes : List (UInt8 × UInt8) := [(48, 0), (98, 8), (110, 10), (114, 13), (116, 9), (90, 26)]

/-- The wildcards of `LIKE` keep the backslash in front of them. -/
def wildcard (c : UInt8) : Bool := c = 37 || c = 95

/-- What a backslash in front of a byte denotes. -/
def unescape (c : UInt8) : Bytes :=
  if wildcard c then [backslash, c] else [(escapes.lookup c).getD c]

/-- The value of a literal after its opening quote, and the text behind it. -/
def literal : Bytes → Option (Bytes × Bytes)
  | [] => none
  | b :: s =>
    if b = quote then
      match s with
      | [] => some ([], [])
      | c :: t => if c = quote then (literal t).map fun (v, r) => (quote :: v, r) else some ([], s)
    else if b = backslash then
      match s with
      | [] => none
      | c :: t => (literal t).map fun (v, r) => (unescape c ++ v, r)
    else (literal s).map fun (v, r) => (b :: v, r)

inductive Token
  | plain (b : UInt8)
  | literal (value : Bytes)
  deriving DecidableEq, Repr

/-- A text reads as this list of tokens. -/
inductive Lexes : Bytes → List Token → Prop
  | nil : Lexes [] []
  | plain {b : UInt8} {s : Bytes} {ts : List Token} (h : b ≠ quote) (rest : Lexes s ts) :
      Lexes (b :: s) (.plain b :: ts)
  | literal {s v r : Bytes} {ts : List Token} (h : Sql.literal s = some (v, r)) (rest : Lexes r ts) :
      Lexes (quote :: s) (.literal v :: ts)

/-- Read between quotes, the bytes stand for themselves. -/
def verbatim : Bytes → Bool
  | [] => true
  | b :: s =>
    if b = quote then false
    else if b = backslash then
      match s with
      | [] => false
      | c :: t => wildcard c && verbatim t
    else verbatim s

example : literal (bytes "it''s\\n' x") = some (bytes "it's\n", bytes " x") := by decide +kernel
example : verbatim (bytes "50\\%") = true := by decide

/-! ## Reading one literal -/

variable {s t v r : Bytes} {b c : UInt8}

theorem literal_doubled :
    literal (quote :: quote :: t) = (literal t).map fun (v, r) => (quote :: v, r) := by
  simp [literal]

theorem literal_closed (h : t.head? ≠ some quote) : literal (quote :: t) = some ([], t) := by
  cases t with
  | nil => simp [literal]
  | cons c t => simp_all [literal]

theorem literal_escaped :
    literal (backslash :: c :: t) = (literal t).map fun (v, r) => (unescape c ++ v, r) := by
  rw [literal, if_neg (by decide), if_pos rfl]

theorem literal_other (hquote : b ≠ quote) (hback : b ≠ backslash) :
    literal (b :: s) = (literal s).map fun (v, r) => (b :: v, r) := by
  rw [literal.eq_def]
  simp [hquote, hback]

/-- A literal is as long as its value and its closing quote, or longer; as long
only if the value is written out as it is. -/
theorem literal_tight (h : literal s = some (v, r)) :
    v.length + r.length + 1 ≤ s.length ∧
      (v.length + r.length + 1 = s.length → s = v ++ quote :: r ∧ verbatim v = true) := by
  induction s using literal.induct generalizing v r with
  | case1 => cases h
  | case2 =>
      cases h
      exact ⟨by decide, fun _ => ⟨rfl, rfl⟩⟩
  | case3 t ih =>
      rw [literal_doubled] at h
      obtain ⟨⟨v, r⟩, h, ⟨⟩⟩ := Option.map_eq_some_iff.mp h
      -- two quotes stand for one, so the literal is longer than its value
      obtain ⟨hle, -⟩ := ih h
      simp only [List.length_cons]
      exact ⟨by omega, fun heq => by omega⟩
  | case4 c t hc =>
      rw [literal_closed (by simpa using hc)] at h
      cases h
      exact ⟨by simp, fun _ => ⟨rfl, rfl⟩⟩
  | case5 => cases h
  | case6 c t hback ih =>
      rw [literal_escaped] at h
      obtain ⟨⟨v, r⟩, h, ⟨⟩⟩ := Option.map_eq_some_iff.mp h
      obtain ⟨hle, htight⟩ := ih h
      -- an escaped wildcard keeps its backslash, any other escape loses it
      by_cases hc : wildcard c = true
      · have hval : unescape c = [backslash, c] := if_pos hc
        simp only [hval, List.cons_append, List.nil_append, List.length_cons]
        refine ⟨by omega, fun heq => ?_⟩
        obtain ⟨rfl, hv⟩ := htight (by omega)
        exact ⟨rfl, by rw [verbatim, if_neg (by decide), if_pos rfl, hc, hv]; rfl⟩
      · have hval : (unescape c).length = 1 := by simp [unescape, hc]
        simp only [List.length_append, hval, List.length_cons]
        exact ⟨by omega, fun heq => by omega⟩
  | case7 b s hquote hback ih =>
      rw [literal_other hquote hback] at h
      obtain ⟨⟨v, r⟩, h, ⟨⟩⟩ := Option.map_eq_some_iff.mp h
      obtain ⟨hle, htight⟩ := ih h
      simp only [List.length_cons]
      refine ⟨by omega, fun heq => ?_⟩
      obtain ⟨rfl, hv⟩ := htight (by omega)
      exact ⟨rfl, by rw [verbatim.eq_def]; simp [hquote, hback, hv]⟩

/-- Bytes that stand for themselves, read up to a quote that is not doubled. -/
theorem literal_verbatim (hv : verbatim v = true) (ht : t.head? ≠ some quote) :
    literal (v ++ quote :: t) = some (v, t) := by
  induction v using verbatim.induct with
  | case1 => exact literal_closed ht
  | case2 =>
      rw [verbatim.eq_def] at hv
      simp at hv
  | case3 =>
      rw [verbatim.eq_def] at hv
      simp at hv
  | case4 c s hback ih =>
      rw [verbatim, if_neg hback, if_pos rfl, Bool.and_eq_true] at hv
      have hval : unescape c = [backslash, c] := if_pos hv.1
      rw [List.cons_append, List.cons_append, literal_escaped, ih hv.2, hval]
      rfl
  | case5 b s hquote hback ih =>
      have hs : verbatim s = true := by
        rw [verbatim.eq_def] at hv
        simpa [hquote, hback] using hv
      rw [List.cons_append, literal_other hquote hback, ih hs]
      rfl

/-! ## The text between the quotes -/

/-- The value of a text that stands complete between two quotes: all of its quotes
are doubled or escaped. -/
def body : Bytes → Option Bytes
  | [] => some []
  | b :: s =>
    if b = quote then
      match s with
      | [] => none
      | c :: t => if c = quote then (body t).map (quote :: ·) else none
    else if b = backslash then
      match s with
      | [] => none
      | c :: t => (body t).map (unescape c ++ ·)
    else (body s).map (b :: ·)

theorem body_other (hquote : b ≠ quote) (hback : b ≠ backslash) :
    body (b :: s) = (body s).map (b :: ·) := by
  rw [body.eq_def]
  simp [hquote, hback]

theorem body_doubled : body (quote :: quote :: t) = (body t).map (quote :: ·) := by
  rw [body, if_pos rfl]
  exact if_pos rfl

theorem body_escaped : body (backslash :: c :: t) = (body t).map (unescape c ++ ·) := by
  rw [body, if_neg (by decide), if_pos rfl]

/-- Behind such a text a literal is read on as from its start. -/
theorem literal_append (hv : body s = some v) (t : Bytes) :
    literal (s ++ t) = (literal t).map fun (w, r) => (v ++ w, r) := by
  induction s using body.induct generalizing v with
  | case1 =>
      cases hv
      rw [List.nil_append]
      cases literal t <;> rfl
  | case2 => simp [body] at hv
  | case3 s ih =>
      rw [body_doubled] at hv
      obtain ⟨v, hs, rfl⟩ := Option.map_eq_some_iff.mp hv
      rw [List.cons_append, List.cons_append, literal_doubled, ih hs, Option.map_map]
      rfl
  | case4 c s hc =>
      rw [body.eq_def] at hv
      simp [hc] at hv
  | case5 =>
      rw [body.eq_def] at hv
      simp at hv
  | case6 c s hback ih =>
      rw [body_escaped] at hv
      obtain ⟨v, hs, rfl⟩ := Option.map_eq_some_iff.mp hv
      rw [List.cons_append, List.cons_append, literal_escaped, ih hs, Option.map_map]
      simp [Function.comp_def]
  | case7 b s hquote hback ih =>
      rw [body_other hquote hback] at hv
      obtain ⟨v, hs, rfl⟩ := Option.map_eq_some_iff.mp hv
      rw [List.cons_append, literal_other hquote hback, ih hs, Option.map_map]
      rfl

/-- What is read as a literal is such a text and its closing quote. -/
theorem body_of_literal (h : literal s = some (v, r)) :
    ∃ u, s = u ++ quote :: r ∧ body u = some v := by
  induction s using literal.induct generalizing v r with
  | case1 => cases h
  | case2 =>
      cases h
      exact ⟨[], rfl, rfl⟩
  | case3 t ih =>
      rw [literal_doubled] at h
      obtain ⟨⟨v, r⟩, h, ⟨⟩⟩ := Option.map_eq_some_iff.mp h
      obtain ⟨u, rfl, hu⟩ := ih h
      exact ⟨quote :: quote :: u, rfl, by rw [body_doubled, hu]; rfl⟩
  | case4 c t hc =>
      rw [literal_closed (by simpa using hc)] at h
      cases h
      exact ⟨[], rfl, rfl⟩
  | case5 => cases h
  | case6 c t hback ih =>
      rw [literal_escaped] at h
      obtain ⟨⟨v, r⟩, h, ⟨⟩⟩ := Option.map_eq_some_iff.mp h
      obtain ⟨u, rfl, hu⟩ := ih h
      exact ⟨backslash :: c :: u, rfl, by rw [body_escaped, hu]; rfl⟩
  | case7 b s hquote hback ih =>
      rw [literal_other hquote hback] at h
      obtain ⟨⟨v, r⟩, h, ⟨⟩⟩ := Option.map_eq_some_iff.mp h
      obtain ⟨u, rfl, hu⟩ := ih h
      exact ⟨b :: u, rfl, by rw [body_other hquote hback, hu]; rfl⟩

/-- Up to a quote that is not doubled, the whole text is read. -/
theorem literal_of_body (hv : body s = some v) (ht : t.head? ≠ some quote) :
    literal (s ++ quote :: t) = some (v, t) := by
  rw [literal_append hv, literal_closed ht]
  simp

/-- A text that stands for itself is its own value. -/
theorem body_verbatim : body s = some s ↔ verbatim s = true := by
  constructor
  · intro h
    have := (literal_tight (literal_of_body h (t := []) (by simp))).2 (by simp)
    exact this.2
  · intro h
    obtain ⟨u, hu, hbody⟩ := body_of_literal (literal_verbatim h (t := []) (by simp))
    rw [List.append_cancel_right hu]
    exact hbody ▸ congrArg some (List.append_cancel_right hu)

/-- White space is never lost. -/
theorem mem_of_body {P : UInt8 → Prop} (hquote : ¬ P quote) (hback : ¬ P backslash)
    (hescaped : ∀ c, P c → c ∈ unescape c) (hv : body s = some v) (hb : b ∈ s) (hP : P b) :
    b ∈ v := by
  induction s using body.induct generalizing v with
  | case1 => cases hb
  | case2 => simp [body] at hv
  | case3 s ih =>
      rw [body_doubled] at hv
      obtain ⟨v, hs, rfl⟩ := Option.map_eq_some_iff.mp hv
      rcases List.mem_cons.mp hb with rfl | hb
      · exact absurd hP hquote
      · rcases List.mem_cons.mp hb with rfl | hb
        · exact absurd hP hquote
        · exact List.mem_cons_of_mem _ (ih hs hb)
  | case4 c s hc =>
      rw [body.eq_def] at hv
      simp [hc] at hv
  | case5 =>
      rw [body.eq_def] at hv
      simp at hv
  | case6 c s _ ih =>
      rw [body_escaped] at hv
      obtain ⟨v, hs, rfl⟩ := Option.map_eq_some_iff.mp hv
      rcases List.mem_cons.mp hb with rfl | hb
      · exact absurd hP hback
      · rcases List.mem_cons.mp hb with rfl | hb
        · exact List.mem_append_left _ (hescaped b hP)
        · exact List.mem_append_right _ (ih hs hb)
  | case7 c s hq hb' ih =>
      rw [body_other hq hb'] at hv
      obtain ⟨v, hs, rfl⟩ := Option.map_eq_some_iff.mp hv
      rcases List.mem_cons.mp hb with rfl | hb
      · exact List.mem_cons_self
      · exact List.mem_cons_of_mem _ (ih hs hb)

theorem length_le_of_body (hv : body s = some v) : v.length ≤ s.length := by
  have tight := (literal_tight (literal_of_body hv (t := []) (by simp))).1
  simpa using tight

/-- A byte of the value that the text has not is an escape in it. -/
theorem escape_of_body {w : Bytes} (absent : b ∉ s)
    (hv : body s = some (v ++ b :: w)) :
    ∃ front e back, s = front ++ backslash :: e :: back ∧ body front = some v := by
  induction s using body.induct generalizing v with
  | case1 => simp [body] at hv
  | case2 => simp [body] at hv
  | case3 s ih =>
      rw [body_doubled] at hv
      obtain ⟨rest, hs, heq⟩ := Option.map_eq_some_iff.mp hv
      cases v with
      | nil => exact absurd (by simp [(List.cons.inj heq).1]) absent
      | cons x v =>
          obtain ⟨rfl, rfl⟩ := List.cons.inj heq
          obtain ⟨front, e, back, rfl, hfront⟩ := ih (fun h => absent (by simp [h])) hs
          exact ⟨quote :: quote :: front, e, back, rfl, by rw [body_doubled, hfront]; rfl⟩
  | case4 c s hc =>
      rw [body.eq_def] at hv
      simp [hc] at hv
  | case5 =>
      rw [body.eq_def] at hv
      simp at hv
  | case6 c s hq ih =>
      rw [body_escaped] at hv
      obtain ⟨rest, hs, heq⟩ := Option.map_eq_some_iff.mp hv
      cases v with
      | nil => exact ⟨[], c, s, rfl, rfl⟩
      | cons x v =>
          -- the byte is behind what this escape denotes
          obtain ⟨later, hlater, rfl⟩ :
              ∃ later, unescape c ++ later = x :: v ∧ rest = later ++ b :: w := by
            by_cases wild : wildcard c = true
            · have hval : unescape c = [backslash, c] := if_pos wild
              rw [hval] at heq ⊢
              obtain ⟨hx, heq'⟩ := List.cons.inj heq
              cases v with
              | nil => exact absurd (by simp [(List.cons.inj heq').1]) absent
              | cons y v =>
                  obtain ⟨hy, hrest⟩ := List.cons.inj heq'
                  exact ⟨v, by rw [← hx, ← hy]; rfl, hrest⟩
            · have hval : unescape c = [(escapes.lookup c).getD c] := if_neg wild
              rw [hval] at heq ⊢
              obtain ⟨hx, hrest⟩ := List.cons.inj heq
              exact ⟨v, by rw [← hx]; rfl, hrest⟩
          obtain ⟨front, e, back, rfl, hfront⟩ := ih (fun h => absent (by simp [h])) hs
          refine ⟨backslash :: c :: front, e, back, rfl, ?_⟩
          rw [body_escaped, hfront, Option.map_some, hlater]
  | case7 c s hq hb ih =>
      rw [body_other hq hb] at hv
      obtain ⟨rest, hs, heq⟩ := Option.map_eq_some_iff.mp hv
      cases v with
      | nil => exact absurd (by rw [(List.cons.inj heq).1]; simp) absent
      | cons x v =>
          obtain ⟨rfl, rfl⟩ := List.cons.inj heq
          obtain ⟨front, e, back, rfl, hfront⟩ := ih (fun h => absent (by simp [h])) hs
          exact ⟨c :: front, e, back, rfl, by rw [body_other hq hb, hfront]; rfl⟩

/-! ## Templates -/

/-- A piece of a template: fixed text, or a hole between quotes with the argument
that fills it. -/
inductive Part
  | text (bs : Bytes)
  | hole (arg : Bytes)

/-- The text of a filled template. -/
def render : List Part → Bytes
  | [] => []
  | .text bs :: parts => bs ++ render parts
  | .hole arg :: parts => quote :: arg ++ quote :: render parts

/-- What the author of the template means. -/
def meaning : List Part → List Token
  | [] => []
  | .text bs :: parts => bs.map .plain ++ meaning parts
  | .hole arg :: parts => .literal arg :: meaning parts

def args : List Part → List Bytes
  | [] => []
  | .text _ :: parts => args parts
  | .hole arg :: parts => arg :: args parts

/-- The fixed text has no quotes, and no two holes meet. -/
def wellFormed : List Part → Bool
  | [] => true
  | .text bs :: parts => !bs.contains quote && wellFormed parts
  | .hole _ :: parts => (render parts).head? ≠ some quote && wellFormed parts

/-- The length of the shortest text that reads as this token. -/
def Token.width : Token → Nat
  | .plain _ => 1
  | .literal v => v.length + 2

def width (ts : List Token) : Nat := (ts.map Token.width).sum

variable {ts : List Token} {parts : List Part}

theorem width_le (h : Lexes s ts) : width ts ≤ s.length := by
  induction h with
  | nil => exact Nat.le_refl 0
  | plain _ _ ih => simpa [width, Token.width, Nat.add_comm] using ih
  | literal h _ ih =>
      have := (literal_tight h).1
      simp only [width, List.map_cons, List.sum_cons, Token.width, List.length_cons] at ih ⊢
      omega

theorem width_meaning : width (meaning parts) = (render parts).length := by
  induction parts with
  | nil => rfl
  | cons part parts ih =>
      cases part with
      | text bs =>
          have hbs : (bs.map fun b => (Token.plain b).width).sum = bs.length := by
            simp [Token.width]
          simp_all [width, meaning, render, Function.comp_def]
      | hole arg =>
          simp_all [width, meaning, render, Token.width]
          omega

/-- Text without quotes is read byte by byte. -/
theorem lexes_text {bs : Bytes} (h : bs.contains quote = false) :
    Lexes (bs ++ s) (bs.map .plain ++ ts) ↔ Lexes s ts := by
  induction bs with
  | nil => exact Iff.rfl
  | cons b bs ih =>
      have hb : b ≠ quote := by
        rintro rfl
        simp at h
      have hbs : bs.contains quote = false := by
        simp only [List.contains_cons, Bool.or_eq_false_iff] at h
        exact h.2
      rw [← ih hbs]
      constructor
      · rintro (_ | ⟨_, rest⟩ | _)
        exact rest
      · exact .plain hb

/-- A text reads in one way only. -/
theorem Lexes.unique {ts' : List Token} (h : Lexes s ts) (h' : Lexes s ts') : ts = ts' := by
  induction h generalizing ts' with
  | nil =>
      cases h'
      rfl
  | plain hb rest ih =>
      cases h' with
      | plain _ rest' => rw [ih rest']
      | literal => exact absurd rfl hb
  | literal hlit rest ih =>
      cases h' with
      | plain hb => exact absurd rfl hb
      | literal hlit' rest' =>
          rw [hlit] at hlit'
          cases hlit'
          rw [ih rest']

theorem lexes_literal : Lexes (quote :: s) (.literal v :: ts) ↔
    ∃ r, literal s = some (v, r) ∧ Lexes r ts := by
  constructor
  · rintro (_ | ⟨_, _⟩ | ⟨h, rest⟩)
    exact ⟨_, h, rest⟩
  · rintro ⟨r, h, rest⟩
    exact .literal h rest

theorem lexes_plain_only {bs : Bytes} (h : bs.contains quote = false) :
    Lexes s (bs.map .plain) ↔ s = bs := by
  constructor
  · intro lexes
    induction bs generalizing s with
    | nil =>
        cases lexes
        rfl
    | cons b bs ih =>
        cases lexes with
        | plain _ rest =>
            simp only [List.contains_cons, Bool.or_eq_false_iff] at h
            rw [ih h.2 rest]
  · rintro rfl
    have lexes : Lexes (s ++ []) (s.map .plain ++ []) := (lexes_text h).mpr .nil
    simpa using lexes

/-- A hole with a complete text reads as its value. -/
theorem lexes_hole_body {arg : Bytes} (hv : body arg = some v) (hs : s.head? ≠ some quote) :
    Lexes (quote :: arg ++ quote :: s) (.literal v :: ts) ↔ Lexes s ts := by
  rw [List.cons_append, lexes_literal, literal_of_body hv hs]
  constructor
  · rintro ⟨r, h, rest⟩
    cases h
    exact rest
  · intro rest
    exact ⟨s, rfl, rest⟩

/-- In front of fixed text that ends the statement, a hole reads as a value only if
its argument is complete. -/
theorem lexes_last_hole {arg bs : Bytes} (hnext : bs.head? ≠ some quote)
    (h : bs.contains quote = false) :
    Lexes (quote :: arg ++ quote :: bs) (.literal v :: bs.map .plain) ↔ body arg = some v := by
  constructor
  · intro lexes
    rw [List.cons_append, lexes_literal] at lexes
    obtain ⟨r, hlit, rest⟩ := lexes
    obtain rfl := (lexes_plain_only h).mp rest
    obtain ⟨u, hu, hbody⟩ := body_of_literal hlit
    rw [List.append_cancel_right hu]
    exact hbody
  · intro hv
    rw [lexes_hole_body hv hnext, lexes_plain_only h]

/-- A literal with more in it than a complete text has another value. -/
theorem literal_longer (hv : body s = some v) (hquote : b ≠ quote) (hback : b ≠ backslash) :
    literal (s ++ b :: t) ≠ some (v, r) := by
  intro h
  rw [literal_append hv, literal_other hquote hback, Option.map_map] at h
  obtain ⟨⟨w, r'⟩, -, heq⟩ := Option.map_eq_some_iff.mp h
  have hlength := congrArg List.length (Prod.mk.inj heq).1
  simp at hlength

/-- A hole is read right if its argument stands for itself and the rest is read
right. -/
theorem lexes_hole {arg : Bytes} (hnext : (render parts).head? ≠ some quote) :
    Lexes (quote :: arg ++ quote :: render parts) (.literal arg :: meaning parts) ↔
      verbatim arg = true ∧ Lexes (render parts) (meaning parts) := by
  constructor
  · rintro (_ | ⟨_, _⟩ | @⟨_, _, r, _, h, rest⟩)
    -- what is left of the text is as long as the rest of the template, so the
    -- literal has no room for an escape
    have h : literal (arg ++ quote :: render parts) = some (arg, r) := h
    have hwidth := width_le rest
    rw [width_meaning] at hwidth
    obtain ⟨hle, htight⟩ := literal_tight h
    simp only [List.length_append, List.length_cons] at hle htight
    obtain ⟨heq, hv⟩ := htight (by omega)
    have hr : render parts = r := by simpa using heq
    exact ⟨hv, hr ▸ rest⟩
  · rintro ⟨hv, rest⟩
    exact .literal (literal_verbatim hv hnext) rest

/-- A filled template means what its author means if and only if every argument
stands for itself between quotes. -/
theorem lexes_iff (hparts : wellFormed parts = true) :
    Lexes (render parts) (meaning parts) ↔ ∀ arg ∈ args parts, verbatim arg = true := by
  induction parts with
  | nil => simpa [args, render, meaning] using Lexes.nil
  | cons part parts ih =>
      cases part with
      | text bs =>
          simp only [wellFormed, Bool.and_eq_true, Bool.not_eq_true'] at hparts
          exact (lexes_text hparts.1).trans (ih hparts.2)
      | hole arg =>
          simp only [wellFormed, Bool.and_eq_true, decide_eq_true_eq] at hparts
          simp only [args, List.forall_mem_cons, ← ih hparts.2]
          exact lexes_hole hparts.1

/-- The same for a text that was cut off after `n` bytes. -/
theorem lexes_take_iff (hparts : wellFormed parts = true) (n : Nat) :
    Lexes ((render parts).take n) (meaning parts) ↔
      (∀ arg ∈ args parts, verbatim arg = true) ∧ (render parts).length ≤ n := by
  have whole : (render parts).length ≤ n → (render parts).take n = render parts :=
    List.take_of_length_le
  constructor
  · intro h
    have hwidth := width_le h
    rw [width_meaning, List.length_take] at hwidth
    have hn : (render parts).length ≤ n := by omega
    exact ⟨(lexes_iff hparts).mp (whole hn ▸ h), hn⟩
  · rintro ⟨hargs, hn⟩
    rw [whole hn]
    exact (lexes_iff hparts).mpr hargs

/-! ## Reading a text with a template -/

/-- The values in the holes, if a text reads as the template with any values. -/
def fill : List Part → Bytes → Option (List Bytes)
  | [], s => if s = [] then some [] else none
  | .text bs :: parts, s => if bs.isPrefixOf s then fill parts (s.drop bs.length) else none
  | .hole _ :: _, [] => none
  | .hole _ :: parts, b :: s =>
    if b = quote then
      match literal s with
      | none => none
      | some (v, r) => (fill parts r).map (v :: ·)
    else none

/-- A text that reads as something begins with its plain bytes. -/
theorem Lexes.text {bs : Bytes} (h : Lexes s (bs.map .plain ++ ts)) :
    ∃ r, s = bs ++ r ∧ Lexes r ts := by
  induction bs generalizing s with
  | nil => exact ⟨s, rfl, h⟩
  | cons b bs ih =>
      cases h with
      | plain _ rest =>
          obtain ⟨r, rfl, hr⟩ := ih rest
          exact ⟨r, rfl, hr⟩

theorem fill_of_lexes (h : Lexes s (meaning parts)) : fill parts s = some (args parts) := by
  induction parts generalizing s with
  | nil =>
      cases h
      rfl
  | cons part parts ih =>
      cases part with
      | text bs =>
          obtain ⟨r, rfl, hr⟩ := h.text
          rw [fill, if_pos (List.isPrefixOf_iff_prefix.mpr (List.prefix_append _ _)), List.drop_left]
          exact ih hr
      | hole arg =>
          cases h with
          | literal hlit rest =>
              rw [fill, if_pos rfl, hlit]
              dsimp only
              rw [ih rest]
              rfl

/-- A part without its argument. -/
def Part.blank : Part → Part
  | .text bs => .text bs
  | .hole _ => .hole []

/-- What is in the holes does not matter. -/
theorem fill_blank (parts : List Part) (s : Bytes) :
    fill (parts.map Part.blank) s = fill parts s := by
  induction parts generalizing s with
  | nil => rfl
  | cons part parts ih =>
      cases part with
      | text bs =>
          show (if _ then fill (parts.map Part.blank) _ else none) = _
          rw [ih]
          rfl
      | hole arg =>
          cases s with
          | nil => rfl
          | cons b s =>
              simp only [List.map_cons, Part.blank, fill, ih]

/-- A text with another beginning is not read. -/
theorem fill_other {bs : Bytes} (h : bs.isPrefixOf s = false) : fill (.text bs :: parts) s = none := by
  rw [fill, h, if_neg Bool.false_ne_true]

end Sql
