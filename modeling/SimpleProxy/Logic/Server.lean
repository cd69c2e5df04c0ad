import SimpleProxy.Logic.Host

/-!
# A server

A database server with a book and nothing else: it reads a text as one of the statements and
executes it, or fails, and it drops no table. It is documented as servers are, so that what is
said of all of them is not empty.
-/

namespace SimpleProxy

open Interact CString

/-- The query that a text reads as. -/
def readQuery (text : Bytes) : Option Query :=
  match Sql.fill (Query.add [] []).template text with
  | some [name, pass] => some (.add name pass)
  | _ =>
    match Sql.fill (Query.get []).template text with
    | some [name] => some (.get name)
    | _ =>
      match Sql.fill (Query.remove []).template text with
      | some [name] => some (.remove name)
      | _ => none

def readStatement (text : Bytes) : Option Statement :=
  if text = usersTable.statement then some .create
  else if text = tablesQuery then some .list
  else (readQuery text).map .query

variable {text : Bytes} {q : Query} {s : Statement}

/-- The values in the holes of a template that differs in them alone. -/
theorem fill_of_lexes_blank {parts parts' : List Sql.Part}
    (same : parts.map Sql.Part.blank = parts'.map Sql.Part.blank)
    (h : Sql.Lexes text (Sql.meaning parts')) : Sql.fill parts text = some (Sql.args parts') := by
  rw [← Sql.fill_blank, same, Sql.fill_blank]
  exact Sql.fill_of_lexes h

theorem readQuery_of_lexes (h : Sql.Lexes text (Sql.meaning q.template)) :
    readQuery text = some q := by
  unfold readQuery
  cases q with
  | add name pass =>
      have blank : (Query.add [] []).template.map Sql.Part.blank =
          (Query.add name pass).template.map Sql.Part.blank := rfl
      have filled : Sql.fill (Query.add [] []).template text = some [name, pass] :=
        fill_of_lexes_blank blank h
      rw [filled]
  | get name =>
      have blank : (Query.get []).template.map Sql.Part.blank =
          (Query.get name).template.map Sql.Part.blank := rfl
      have filled : Sql.fill (Query.get []).template text = some [name] :=
        fill_of_lexes_blank blank h
      obtain ⟨r, rfl, -⟩ := h.text
      have other : Sql.fill (Query.add [] []).template
          (bytes "SELECT username, password FROM `users` WHERE username = " ++ r) = none :=
        Sql.fill_other rfl
      rw [other, filled]
  | remove name =>
      have blank : (Query.remove []).template.map Sql.Part.blank =
          (Query.remove name).template.map Sql.Part.blank := rfl
      have filled : Sql.fill (Query.remove []).template text = some [name] :=
        fill_of_lexes_blank blank h
      obtain ⟨r, rfl, -⟩ := h.text
      have other : Sql.fill (Query.add [] []).template
          (bytes "DELETE FROM `users` WHERE username = " ++ r) = none :=
        Sql.fill_other rfl
      have other' : Sql.fill (Query.get []).template
          (bytes "DELETE FROM `users` WHERE username = " ++ r) = none :=
        Sql.fill_other rfl
      rw [other, other', filled]

/-- How statements about users begin. -/
def verbs : List Bytes :=
  [bytes "INSERT INTO `users` (username, password) VALUES (",
    bytes "SELECT username, password FROM `users` WHERE username = ",
    bytes "DELETE FROM `users` WHERE username = "]

theorem verb_of_lexes (h : Sql.Lexes text (Sql.meaning q.template)) :
    ∃ verb ∈ verbs, verb.isPrefixOf text = true := by
  cases q with
  | add =>
      obtain ⟨r, rfl, -⟩ := h.text
      exact ⟨_, .head _, List.isPrefixOf_iff_prefix.mpr (List.prefix_append _ _)⟩
  | get =>
      obtain ⟨r, rfl, -⟩ := h.text
      exact ⟨_, .tail _ (.head _), List.isPrefixOf_iff_prefix.mpr (List.prefix_append _ _)⟩
  | remove =>
      obtain ⟨r, rfl, -⟩ := h.text
      exact ⟨_, .tail _ (.tail _ (.head _)), List.isPrefixOf_iff_prefix.mpr (List.prefix_append _ _)⟩

theorem readQuery_drop (names : Bytes) : readQuery (dropText names) = none := by
  have add : Sql.fill (Query.add [] []).template (dropText names) = none := Sql.fill_other rfl
  have get : Sql.fill (Query.get []).template (dropText names) = none := Sql.fill_other rfl
  have remove : Sql.fill (Query.remove []).template (dropText names) = none := Sql.fill_other rfl
  rw [readQuery, add, get, remove]

/-- What a text says is read, but for a text that drops tables. -/
theorem readStatement_of_reads (h : Says text s) :
    readStatement text = some s ∨ (∃ names, s = .drop names) ∧ readStatement text = none := by
  unfold readStatement
  cases h with
  | @query _ q h =>
      have verb := verb_of_lexes h
      have create : text ≠ usersTable.statement := by
        rintro rfl
        exact absurd verb (by decide)
      have list : text ≠ tablesQuery := by
        rintro rfl
        exact absurd verb (by decide)
      rw [if_neg create, if_neg list, readQuery_of_lexes h]
      exact .inl rfl
  | create => exact .inl (if_pos rfl)
  | @drop names list plain h =>
      have first : (dropText list).head? = some 68 := rfl
      have create : dropText list ≠ usersTable.statement := by
        intro same
        rw [same] at first
        exact absurd first (by decide)
      have list' : dropText list ≠ tablesQuery := by
        intro same
        rw [same] at first
        exact absurd first (by decide)
      rw [if_neg create, if_neg list', readQuery_drop]
      exact .inr ⟨⟨names, rfl⟩, rfl⟩
  | list =>
      have create : tablesQuery ≠ usersTable.statement := by decide
      rw [if_neg create, if_pos rfl]
      exact .inl rfl

/-- A query out of a text that begins with `SELECT` is the one for a user. -/
theorem get_of_select {rest : Bytes} (h : readQuery (bytes "SELECT " ++ rest) = some q) :
    ∃ name, q = .get name := by
  have add : Sql.fill (Query.add [] []).template (bytes "SELECT " ++ rest) = none :=
    Sql.fill_other rfl
  have remove : Sql.fill (Query.remove []).template (bytes "SELECT " ++ rest) = none :=
    Sql.fill_other rfl
  rw [readQuery, add, remove] at h
  dsimp only at h
  split at h
  · exact ⟨_, (Option.some.inj h).symm⟩
  · cases h

/-- Names are compared byte by byte. -/
def sameName : Collation := fun a b => a = b

/-- What a text does to a book, if it is read and is no error. -/
def serve (limit : Nat) (b : Book) (text : Bytes) : Option (DbResult × Book) :=
  (readStatement text).bind (Statement.run sameName limit b)

/-- The server executes a text, or fails before it does. -/
def server (limit : Nat) : Engine Book where
  step b text r := if r = .failed then some b else ((serve limit b text).filter (·.1 = r)).map (·.2)
  book := id
  same := sameName
  limit := limit

theorem server_step {limit : Nat} {b b' : Book} {r : DbResult}
    (h : (server limit).step b text r = some b') :
    r = .failed ∧ b' = b ∨ serve limit b text = some (r, b') := by
  have h : (if r = .failed then some b else
    ((serve limit b text).filter (·.1 = r)).map (·.2)) = some b' := h
  split at h
  · rename_i failed
    exact .inl ⟨failed, (Option.some.inj h).symm⟩
  · obtain ⟨⟨r', b''⟩, found, rfl⟩ := Option.map_eq_some_iff.mp h
    obtain ⟨hserve, same⟩ := Option.filter_eq_some_iff.mp found
    obtain rfl : r' = r := of_decide_eq_true same
    exact .inr hserve

theorem server_documented (limit : Nat) : (server limit).Documented where
  equivalence :=
    ⟨fun _ => decide_eq_true rfl, fun h => decide_eq_true (of_decide_eq_true h).symm,
      fun h h' => decide_eq_true ((of_decide_eq_true h).trans (of_decide_eq_true h'))⟩
  select := by
    intro b b' text r hselect step
    rcases server_step step with ⟨-, rfl⟩ | served
    · rfl
    · obtain ⟨rest, rfl⟩ := hselect
      obtain ⟨s, read, run⟩ := Option.bind_eq_some_iff.mp served
      unfold readStatement at read
      split at read
      · rename_i create
        have first : (bytes "SELECT " ++ rest).head? = some 83 := rfl
        rw [create] at first
        exact absurd first (by decide)
      · split at read
        · obtain rfl := Option.some.inj read
          exact (Prod.mk.inj (Option.some.inj run)).2.symm
        · obtain ⟨q, hq, rfl⟩ := Option.map_eq_some_iff.mp read
          obtain ⟨name, rfl⟩ := get_of_select hq
          simp only [Statement.run, Option.ite_none_right_eq_some, Option.some.injEq,
            Prod.mk.injEq] at run
          exact run.2.2.symm
  effect := by
    intro b b' text s r reads step
    rcases server_step step with ⟨rfl, rfl⟩ | served
    · exact .inr ⟨rfl, .inl rfl⟩
    · obtain ⟨s', read, run⟩ := Option.bind_eq_some_iff.mp served
      rcases readStatement_of_reads reads with read' | ⟨-, read'⟩
      · rw [read'] at read
        obtain rfl := Option.some.inj read
        exact .inl run
      · rw [read'] at read
        cases read

/-! ## A host where nothing fails -/

/-- A disk with a configuration. -/
def configured : Files.Disk where
  content := Function.update (fun _ => none) confPath
    (some (bytes "PORT=80\nDB_PORT=1\nDB_HOST=h\nDB_DATABASE=d\nDB_USER=u\nDB_PASS=p\n"))
  reading := none
  writing := none

/-- A new process, with this to be typed. -/
def booted (stdin : Bytes) (b : Book) : Host Book := ⟨stdin, configured, .idle, b, []⟩

/-- Every call does what it should. -/
def smooth (limit : Nat) (k : Host Book) : (c : ToolCall ⊕ Files.Call ⊕ HostCall) → ConfigAnswer c
  | .inl .malloc => true
  | .inl (.fgets size) => (fgets size k.stdin).map Prod.fst
  | .inl (.dbExecute text) => ((serve limit k.db text).map Prod.fst).getD .failed
  | .inr (.inl (.fopenRead path)) => (k.disk.content path).isSome
  | .inr (.inl (.fopenWrite _)) => true
  | .inr (.inl (.fgets size)) => (fgets size k.disk.unread).map Prod.fst
  | .inr (.inl (.fputs text)) => text.length
  | .inr (.inl .fcloseRead) => ()
  | .inr (.inl .fcloseWrite) => (0 : Nat)
  | .inr (.inl (.remove _)) => true
  | .inr (.inl (.rename ..)) => true
  | .inr (.inr .geteuid) => (0 : Nat)
  | .inr (.inr (.system _)) => (0 : Int)
  | .inr (.inr (.dbCreate _)) => true
  | .inr (.inr .dbClose) => ()

/-- A run of the tool on such a host. -/
def smoothRun (limit : Nat) (argv : List Bytes) (k : Host Book) :
    Option (List (Exchange ConfigAnswer) × Int × Host Book) :=
  (configMain 8 argv).drive ((server limit).host true) (smooth limit) k

end SimpleProxy
