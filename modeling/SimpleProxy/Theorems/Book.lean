import SimpleProxy.Theorems.Accounts
import SimpleProxy.Theorems.Migration
import SimpleProxy.Theorems.Tool

/-!
# The configuration tool keeps a book

Any number of runs of `simpleproxy-config`, one after the other, against a database server
that can fail at every statement. What happens to the database is what happens to an abstract
book under the commands that were asked for; the exit code says whether a command was carried
out, and a command that failed changed nothing, or lost its answer, or was one half of a reset.
-/

namespace SimpleProxy.Theorems.Book

open Interact CString Accounts Tool

variable {D α : Type} {E : Engine D} {k : Host D} {sound : Bool} {rounds : Nat} {text : Bytes}

/-! ## The texts -/

/-- What a command does with the book, if it is one. -/
def Result (same : Collation) (c : Option Command) (b : Book) (code : Int) (b' : Book) : Prop :=
  match c with
  | none => b' = b
  | some c => c.Outcome same b code b'

/-- What `main` makes of the result of a command. -/
theorem Result.exit {same : Collation} {c : Option Command} {b b' : Book} {code : Int}
    (h : Result same c b code b') : Result same c b (if code = 0 then 0 else 1) b' := by
  cases c with
  | none => exact h
  | some c => cases h with
    | done h => exact .done h
    | failed h => exact .failed h

end SimpleProxy.Theorems.Book
