import SimpleProxy.Main.Auth
import SimpleProxy.ProxyConfig.Tables

/-!
# The database both programs use

A `Book` is what a database is for the proxy and for the configuration tool: its tables, and
the rows of the one table they know. `Statement` has what the two programs want to say to
it, with what it does to a book; `Says` tells which text says what, in the terms of
`Sql.Lexes`. An `Engine` stands for the server, with the one documented law that a
statement does what it says or fails. User names are compared by the collation of their
column, which is an equivalence and need not be equality.
-/

namespace SimpleProxy

open Interact CString

/-- The tables of the database, and the rows of `users`. -/
structure Book where
  tables : List Bytes
  users : List User
  absent : tableName ∉ tables → users = []

inductive Statement
  | query (q : Query)
  | create
  | drop (names : List Bytes)
  | list

def quoted (name : Bytes) : Bytes := 96 :: name ++ [96]

/-- What `GROUP_CONCAT` makes of the names, and NULL of none. -/
def joined (names : List Bytes) : Option Bytes :=
  if names = [] then none else some ((bytes ", ").intercalate (names.map quoted))

/-- The text says this. -/
inductive Says : Bytes → Statement → Prop
  | query {text : Bytes} {q : Query} (h : Sql.Lexes text (Sql.meaning q.template)) :
      Says text (.query q)
  | create : Says usersTable.statement .create
  | drop {names : List Bytes} {text : Bytes} (plain : ∀ n ∈ names, 96 ∉ n)
      (h : joined names = some text) : Says (dropText text) (.drop names)
  | list : Says tablesQuery .list

/-- How user names are compared. -/
abbrev Collation := Bytes → Bytes → Bool

namespace Book

variable (same : Collation)

/-- The row of a user. -/
def find (b : Book) (name : Bytes) : Option User := b.users.find? fun u => same name u.username

/-- No table. -/
def none : Book where
  tables := []
  users := []
  absent _ := rfl

/-- The one table, without a row. -/
def fresh : Book where
  tables := [tableName]
  users := []
  absent _ := rfl

def add (b : Book) (name pass : Bytes) : Option Book :=
  if h : tableName ∈ b.tables ∧ b.find same name = Option.none then
    some { b with users := b.users ++ [⟨name, pass⟩], absent := fun absent => absurd h.1 absent }
  else Option.none

def remove (b : Book) (name : Bytes) : Option Book :=
  if h : tableName ∈ b.tables then
    some { b with
      users := b.users.filter fun u => !same name u.username
      absent := fun absent => absurd h absent }
  else Option.none

/-- `CREATE TABLE IF NOT EXISTS`. -/
def create (b : Book) : Book :=
  if tableName ∈ b.tables then b else ⟨b.tables ++ [tableName], [], fun _ => rfl⟩

def drop (b : Book) (names : List Bytes) : Book where
  tables := b.tables.filter (· ∉ names)
  users := if tableName ∈ names then [] else b.users
  absent h := by
    split
    · rfl
    · rename_i kept
      exact b.absent fun present => h (List.mem_filter.mpr ⟨present, by simpa using kept⟩)

end Book

/-- What a statement does, and its result; `none` if it is an error. `limit` is the longest
text of a `GROUP_CONCAT`. -/
def Statement.run (same : Collation) (limit : Nat) (b : Book) : Statement → Option (DbResult × Book)
  | .query (.get name) =>
    if tableName ∈ b.tables then
      some (.rows ((b.find same name).map fun u => (some u.username, some u.password)), b)
    else none
  | .query (.add name pass) => (b.add same name pass).map (.done, ·)
  | .query (.remove name) => (b.remove same name).map (.done, ·)
  | .create => some (.done, b.create)
  | .drop names => some (.done, b.drop names)
  | .list => some (.rows (some ((joined b.tables).map (·.take limit), none)), b)

/-- A database server: how it answers a text, what its book is, and two of its settings. -/
structure Engine (D : Type) where
  step : D → Bytes → DbResult → Option D
  book : D → Book
  same : Collation
  limit : Nat

namespace Engine

variable {D : Type}

/-- What the programs rely on: a collation compares, `SELECT` only reads, and a statement is
executed as it reads, or fails. A connection can be lost before or after a statement took
effect. -/
structure Documented (E : Engine D) : Prop where
  equivalence : Equivalence fun a b => E.same a b = true
  select {d d' : D} {text : Bytes} {r : DbResult} (h : bytes "SELECT " <+: text)
    (step : E.step d text r = some d') : E.book d' = E.book d
  effect {d d' : D} {text : Bytes} {s : Statement} {r : DbResult} (reads : Says text s)
    (step : E.step d text r = some d') : s.run E.same E.limit (E.book d) = some (r, E.book d') ∨
      r = .failed ∧ (E.book d' = E.book d ∨
        ∃ r', s.run E.same E.limit (E.book d) = some (r', E.book d'))

/-- The server for `has_valid_auth`. Memory and time are as they are. -/
def auth (E : Engine D) : Env AuthAnswer D where
  step d
    | .dbExecute text, r => E.step d text r
    | _, _ => some d

end Engine

/-! ## What the commands are for -/

/-- What an administrator asks for. -/
inductive Command
  | add (name pass : Bytes)
  | remove (name : Bytes)
  | migrate
  | drop
  | reset
  deriving DecidableEq, Repr

/-- What a command is for; there is nothing to drop or to reset in an empty database. -/
def Command.run (same : Collation) (b : Book) : Command → Option Book
  | .add name pass => b.add same name pass
  | .remove name => b.remove same name
  | .migrate => some b.create
  | .drop => if b.tables = [] then none else some (b.drop b.tables)
  | .reset => if b.tables = [] then none else some (b.drop b.tables).create

/-- What a command that failed may have done: nothing, all of it when its answer was lost, and
either half of a reset. -/
def Command.Partly (same : Collation) (c : Command) (b b' : Book) : Prop :=
  b' = b ∨ c.run same b = some b' ∨ c = .reset ∧ (b' = b.drop b.tables ∨ b' = b.create)

/-- What the exit code says of a command. -/
inductive Command.Outcome (same : Collation) (c : Command) (b : Book) : Int → Book → Prop
  | done {b' : Book} (h : c.run same b = some b') : Outcome same c b 0 b'
  | failed {b' : Book} (h : c.Partly same b b') : Outcome same c b 1 b'

theorem Command.Outcome.run {same : Collation} {c : Command} {b b' : Book}
    (h : c.Outcome same b 0 b') : c.run same b = some b' := by
  cases h with
  | done h => exact h

/-- A database for this program alone. -/
def Book.Own (b : Book) : Prop := b.tables = [] ∨ b.tables = [tableName]

namespace Book

variable {same : Collation} {b b' : Book} {name pass : Bytes}

theorem Own.create (own : b.Own) : b.create.Own := by
  unfold Book.create
  rcases own with h | h
  · rw [if_neg (by rw [h]; exact List.not_mem_nil)]
    refine .inr ?_
    show b.tables ++ [tableName] = [tableName]
    rw [h, List.nil_append]
  · rw [if_pos (by rw [h]; exact List.mem_singleton_self _)]
    exact .inr h

theorem Own.drop (own : b.Own) (names : List Bytes) : (b.drop names).Own := by
  show b.tables.filter (· ∉ names) = [] ∨ b.tables.filter (· ∉ names) = [tableName]
  rcases own with h | h
  · exact .inl (by rw [h]; rfl)
  · rw [h]
    by_cases kept : tableName ∈ names
    · exact .inl (List.filter_cons_of_neg (by simpa using kept))
    · exact .inr (List.filter_cons_of_pos (by simpa using kept))

theorem Own.add (own : b.Own) (h : b.add same name pass = some b') : b'.Own := by
  unfold Book.add at h
  split at h
  · cases h
    exact own
  · cases h

theorem Own.remove (own : b.Own) (h : b.remove same name = some b') : b'.Own := by
  unfold Book.remove at h
  split at h
  · cases h
    exact own
  · cases h

end Book

theorem Command.own_of_run {same : Collation} {c : Command} {b b' : Book} (own : b.Own)
    (h : c.run same b = some b') : b'.Own := by
  cases c with
  | add name pass => exact Book.Own.add own h
  | remove name => exact Book.Own.remove own h
  | migrate =>
      obtain rfl := Option.some.inj h
      exact own.create
  | drop =>
      simp only [Command.run, Option.ite_none_left_eq_some, Option.some.injEq] at h
      exact h.2 ▸ own.drop _
  | reset =>
      simp only [Command.run, Option.ite_none_left_eq_some, Option.some.injEq] at h
      exact h.2 ▸ (own.drop _).create

theorem Command.Outcome.own {same : Collation} {c : Command} {b b' : Book} {code : Int}
    (own : b.Own) (h : c.Outcome same b code b') : b'.Own := by
  cases h with
  | done h => exact own_of_run own h
  | failed h =>
      rcases h with rfl | whole | ⟨-, rfl | rfl⟩
      · exact own
      · exact own_of_run own whole
      · exact own.drop _
      · exact own.create

end SimpleProxy
