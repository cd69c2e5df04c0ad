import SimpleProxy.Lib.Sql

/-!
# Users

A user, the three queries about users, and what a query returns. Each query is the text in the buffer
when its allocation succeeded; arguments are C strings, without their NUL.
-/

namespace SimpleProxy

open CString

structure User where
  username : Bytes
  password : Bytes
  deriving DecidableEq, Repr

/-- The result of `db_execute`: a null pointer, the 1 of a statement without a
result set, or a result set, of which only the first row is fetched. A column
may be SQL's `NULL`. -/
inductive DbResult
  | failed
  | done
  | rows (first : Option (Option Bytes × Option Bytes))
  deriving DecidableEq, Repr

def tableName : Bytes := bytes "users"

/-- The size of every query buffer. -/
def querySize : Nat := 1024

def dbUserAdd (name base64Pass : Bytes) : Bytes :=
  snprintf querySize
    (bytes "INSERT INTO `" ++ tableName ++ bytes "` (username, password) VALUES ('" ++ name ++
      bytes "', '" ++ base64Pass ++ bytes "');")

def dbUserGet (name : Bytes) : Bytes :=
  snprintf querySize
    (bytes "SELECT username, password FROM `" ++ tableName ++ bytes "` WHERE username = '" ++ name ++
      bytes "' LIMIT 1;")

def dbUserRemove (name : Bytes) : Bytes :=
  snprintf querySize
    (bytes "DELETE FROM `" ++ tableName ++ bytes "` WHERE username = '" ++ name ++ bytes "'")

/-- Queries for short names are not cut off, so they tell their names apart. -/
theorem dbUserGet_inj {name name' : Bytes} (short : name.length ≤ 255)
    (same : dbUserGet name = dbUserGet name') : name = name' := by
  refine snprintf_inj ?_ same
  have front : (bytes "SELECT username, password FROM `" ++ tableName ++
      bytes "` WHERE username = '").length = 57 := by decide
  have back : (bytes "' LIMIT 1;").length = 10 := by decide
  have size : querySize = 1024 := rfl
  rw [List.length_append, List.length_append, front, back, size]
  omega

/-! ## What the queries are meant to be -/

/-- A query with its arguments. -/
inductive Query
  | add (name base64Pass : Bytes)
  | get (name : Bytes)
  | remove (name : Bytes)

namespace Query

def text : Query → Bytes
  | add name base64Pass => dbUserAdd name base64Pass
  | get name => dbUserGet name
  | remove name => dbUserRemove name

/-- The fixed statement, with each argument in a hole of its own. -/
def template : Query → List Sql.Part
  | add name base64Pass =>
    [.text (bytes "INSERT INTO `users` (username, password) VALUES ("), .hole name,
      .text (bytes ", "), .hole base64Pass, .text (bytes ");")]
  | get name =>
    [.text (bytes "SELECT username, password FROM `users` WHERE username = "), .hole name,
      .text (bytes " LIMIT 1;")]
  | remove name => [.text (bytes "DELETE FROM `users` WHERE username = "), .hole name]

/-- What the callers can pass: a user name out of a request, or an argument of the
command line and a password as it was typed in. -/
def Passable : Query → Prop
  | add name base64Pass => 0 ∉ name ∧ 0 ∉ base64Pass ∧ base64Pass.length ≤ 255
  | get name => 0 ∉ name ∧ 0 < name.length ∧ name.length ≤ 255
  | remove name => 0 ∉ name

theorem wellFormed_template (q : Query) : Sql.wellFormed q.template = true := by
  cases q <;> rfl

/-- A query is its template, cut off where the buffer ends. -/
theorem text_eq (q : Query) : q.text = (Sql.render q.template).take (querySize - 1) := by
  cases q with
  | add name base64Pass =>
      have first : bytes "INSERT INTO `" ++ tableName ++ bytes "` (username, password) VALUES ('" =
          bytes "INSERT INTO `users` (username, password) VALUES (" ++ [Sql.quote] := by
        decide
      have second : bytes "', '" = Sql.quote :: bytes ", " ++ [Sql.quote] := by decide
      have last : bytes "');" = Sql.quote :: bytes ");" := by decide
      rw [text, dbUserAdd, snprintf, first, second, last]
      simp [template, Sql.render]
  | get name =>
      have first : bytes "SELECT username, password FROM `" ++ tableName ++
          bytes "` WHERE username = '" =
          bytes "SELECT username, password FROM `users` WHERE username = " ++ [Sql.quote] := by
        decide
      have last : bytes "' LIMIT 1;" = Sql.quote :: bytes " LIMIT 1;" := by decide
      rw [text, dbUserGet, snprintf, first, last]
      simp [template, Sql.render]
  | remove name =>
      have first : bytes "DELETE FROM `" ++ tableName ++ bytes "` WHERE username = '" =
          bytes "DELETE FROM `users` WHERE username = " ++ [Sql.quote] := by decide
      have last : bytes "'" = [Sql.quote] := by decide
      rw [text, dbUserRemove, snprintf, first, last]
      simp [template, Sql.render]

/-! ## What they are read as -/

variable {name pass value value' : Bytes}

/-- A query that fits is not cut off. -/
theorem text_of_fits {q : Query} (fits : (Sql.render q.template).length < querySize) :
    q.text = Sql.render q.template := by
  rw [text_eq, List.take_of_length_le (Nat.le_sub_one_of_lt fits)]

theorem render_get_length (name : Bytes) :
    (Sql.render (get name).template).length = name.length + 67 := by
  have front : (bytes "SELECT username, password FROM `users` WHERE username = ").length = 56 := by
    decide
  have back : (bytes " LIMIT 1;").length = 9 := by decide
  simp only [template, Sql.render, List.length_append, List.length_cons, List.length_nil, front,
    back]
  omega

theorem insert_length :
    (bytes "INSERT INTO `users` (username, password) VALUES (").length = 49 := by decide

theorem render_add_length (name pass : Bytes) :
    (Sql.render (add name pass).template).length = name.length + pass.length + 57 := by
  have front := insert_length
  have middle : (bytes ", ").length = 2 := by decide
  have back : (bytes ");").length = 2 := by decide
  simp only [template, Sql.render, List.length_append, List.length_cons, List.length_nil, front,
    middle, back]
  omega

/-- The query for a user reads as one for `value` if the name denotes it. -/
theorem lexes_get (short : name.length ≤ 255) :
    Sql.Lexes (dbUserGet name) (Sql.meaning (get value).template) ↔ Sql.body name = some value := by
  have text : dbUserGet name = Sql.render (get name).template :=
    text_of_fits (q := get name) (by rw [render_get_length]; unfold querySize; omega)
  rw [text]
  simp only [template, Sql.render, Sql.meaning, List.append_nil]
  rw [Sql.lexes_text (by decide), Sql.lexes_last_hole (by decide) (by decide)]

/-- The statement that adds a user reads as one for `value` and `value'` if the name
denotes the one and the password the other. -/
theorem lexes_add (short : name.length ≤ 255) (short' : pass.length ≤ 255)
    (denotes : Sql.body name = some value) :
    Sql.Lexes (dbUserAdd name pass) (Sql.meaning (add value value').template) ↔
      Sql.body pass = some value' := by
  have text : dbUserAdd name pass = Sql.render (add name pass).template :=
    text_of_fits (q := add name pass) (by rw [render_add_length]; unfold querySize; omega)
  rw [text]
  simp only [template, Sql.render, Sql.meaning, List.append_nil]
  have comma : (bytes ", " ++ (Sql.quote :: pass ++ Sql.quote :: bytes ");")).head? ≠
      some Sql.quote := show some 44 ≠ some Sql.quote by decide
  rw [Sql.lexes_text (by decide), Sql.lexes_hole_body denotes comma,
    Sql.lexes_text (by decide), Sql.lexes_last_hole (by decide) (by decide)]

theorem render_remove_length (name : Bytes) :
    (Sql.render (remove name).template).length = name.length + 39 := by
  have front : (bytes "DELETE FROM `users` WHERE username = ").length = 37 := by decide
  simp only [template, Sql.render, List.length_append, List.length_cons, List.length_nil, front]
  omega

/-- The statement that removes a user reads as one for `value` if the name denotes it. -/
theorem lexes_remove (short : name.length ≤ 255) :
    Sql.Lexes (dbUserRemove name) (Sql.meaning (remove value).template) ↔
      Sql.body name = some value := by
  have text : dbUserRemove name = Sql.render (remove name).template :=
    text_of_fits (q := remove name) (by rw [render_remove_length]; unfold querySize; omega)
  rw [text]
  simp only [template, Sql.render, Sql.meaning]
  rw [Sql.lexes_text (by decide)]
  have last : ([] : Bytes).head? ≠ some Sql.quote := by decide
  exact Sql.lexes_last_hole last rfl

/-- A name that goes on behind a complete text does not denote its value, even in a
statement that is cut off. -/
theorem not_lexes_add_longer (short : name.length ≤ 255) (denotes : Sql.body name = some value)
    {c : UInt8} (hquote : c ≠ Sql.quote) (hback : c ≠ Sql.backslash) (rest pass value' : Bytes) :
    ¬ Sql.Lexes (dbUserAdd (name ++ c :: rest) pass) (Sql.meaning (add value value').template) := by
  intro lexes
  have text : dbUserAdd (name ++ c :: rest) pass =
      (Sql.render (add (name ++ c :: rest) pass).template).take (querySize - 1) :=
    text_eq (add (name ++ c :: rest) pass)
  have front := insert_length
  -- the cut is behind the name
  obtain ⟨more, hmore⟩ : ∃ more, dbUserAdd (name ++ c :: rest) pass =
      bytes "INSERT INTO `users` (username, password) VALUES (" ++
        Sql.quote :: (name ++ c :: more) := by
    rw [text]
    simp only [template, Sql.render, List.cons_append, List.append_assoc]
    rw [List.take_append, List.take_of_length_le (by rw [front]; decide), front]
    obtain ⟨k, hk⟩ : ∃ k, querySize - 1 - 49 = name.length + k + 2 :=
      ⟨querySize - 1 - 49 - name.length - 2, by unfold querySize; omega⟩
    rw [hk, List.take_succ_cons, List.take_append, List.take_of_length_le (by omega),
      show name.length + k + 1 - name.length = k + 1 by omega, List.take_succ_cons]
    exact ⟨_, rfl⟩
  rw [hmore] at lexes
  simp only [template, Sql.meaning] at lexes
  rw [Sql.lexes_text (by decide), Sql.lexes_literal] at lexes
  obtain ⟨r, hlit, -⟩ := lexes
  exact Sql.literal_longer denotes hquote hback hlit

/-- The statement says which values it adds. -/
theorem meaning_add_inj {name' pass' : Bytes}
    (same : Sql.meaning (add name pass).template = Sql.meaning (add name' pass').template) :
    name = name' ∧ pass = pass' := by
  simp only [template, Sql.meaning] at same
  obtain ⟨hname, same⟩ := List.cons.inj (List.append_cancel_left same)
  obtain ⟨hpass, -⟩ := List.cons.inj (List.append_cancel_left same)
  cases hname
  cases hpass
  exact ⟨rfl, rfl⟩

end Query

end SimpleProxy
