import SimpleProxy.Lib.Prog
import SimpleProxy.Core.User

/-!
# The configuration tool

`cmd_add` and `cmd_remove` of `simpleproxy-config`: the one reads the password from the
terminal, and both execute one statement. What they print is left out.
-/

namespace SimpleProxy

open Interact CString

inductive ToolCall
  | malloc
  | fgets (size : Nat)
  | dbExecute (query : Bytes)
  deriving DecidableEq, Repr

abbrev ToolAnswer : ToolCall → Type
  | .malloc => Bool
  | .fgets _ => Option Bytes
  | .dbExecute _ => DbResult

abbrev ToolProc := Prog ToolAnswer

abbrev ToolIo := Exchange ToolAnswer

abbrev toolPerform (c : ToolCall) : ToolProc (ToolAnswer c) := Prog.perform c

/-- The line without its newline, as a C string. -/
def chomp (line : Bytes) : Bytes := (cstr line).takeWhile (· ≠ 10)

def getPassword : ToolProc (Option Bytes) := do
  let room ← toolPerform .malloc
  if room then
    match ← toolPerform (.fgets 256) with
    | none => return none
    | some line => return some (chomp line)
  else
    return none

/-- The exit code of `simpleproxy-config add`. -/
def cmdAdd (argv : List Bytes) : ToolProc Int := do
  match argv with
  | [_, _, option, username] =>
    if option ≠ bytes "-u" ∧ option ≠ bytes "--user" then
      return 1
    else
      match ← getPassword with
      | none => return 1
      | some password =>
        let room ← toolPerform .malloc
        if room then
          match ← toolPerform (.dbExecute (dbUserAdd username password)) with
          | .done => return 0
          | _ => return 1
        else
          return 1
  | _ => return 1

/-- The exit code of a command that executes one statement, NULL if there was no room for it. -/
def executed : Option Bytes → ToolProc Int
  | none => return 1
  | some query => do
    match ← toolPerform (.dbExecute query) with
    | .done => return 0
    | _ => return 1

/-- A text, if there is room for it. -/
def allocated (text : Bytes) : ToolProc (Option Bytes) := do
  let room ← toolPerform .malloc
  return if room then some text else none

/-- The exit code of `simpleproxy-config remove`. -/
def cmdRemove (argv : List Bytes) : ToolProc Int := do
  match argv with
  | [_, _, option, username] =>
    if option ≠ bytes "-u" ∧ option ≠ bytes "--user" then
      return 1
    else
      executed (← allocated (dbUserRemove username))
  | _ => return 1

/-- What a successful `add` did. -/
theorem cmdAdd_runs {program command option username : Bytes} {tr : List ToolIo}
    (run : (cmdAdd [program, command, option, username]).Runs tr 0) :
    ∃ line, (⟨.fgets 256, some line⟩ : ToolIo) ∈ tr ∧
      ∀ query r, (⟨.dbExecute query, r⟩ : ToolIo) ∈ tr ↔
        query = dbUserAdd username (chomp line) ∧ r = .done := by
  unfold cmdAdd at run
  dsimp only at run
  split at run
  · cases run.2
  · rw [getPassword, Prog.runs_bind] at run
    obtain ⟨password, t₁, t₂, rfl, hread, run⟩ := run
    rw [Prog.runs_perform_bind] at hread
    obtain ⟨room, rest, rfl, hread⟩ := hread
    split at hread
    · rw [Prog.runs_perform_bind] at hread
      obtain ⟨line, rest, rfl, hread⟩ := hread
      cases line with
      | none =>
          obtain ⟨rfl, rfl⟩ := hread
          cases run.2
      | some line =>
          obtain ⟨rfl, rfl⟩ := hread
          dsimp only at run
          rw [Prog.runs_perform_bind] at run
          obtain ⟨room', rest', rfl, run⟩ := run
          split at run
          · rw [Prog.runs_perform_bind] at run
            obtain ⟨res, rest', rfl, run⟩ := run
            cases res with
            | failed => cases run.2
            | rows => cases run.2
            | done =>
                obtain ⟨rfl, -⟩ := run
                refine ⟨line, by simp, ?_⟩
                intro query r
                simp
          · cases run.2
    · obtain ⟨rfl, rfl⟩ := hread
      cases run.2

end SimpleProxy
