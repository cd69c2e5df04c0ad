import SimpleProxy.Logic.Database
import SimpleProxy.ProxyConfig.Program

/-!
# The host of the configuration tool

What `simpleproxy-config` runs on: a terminal whose input is one stream of bytes, the files,
the other programs it starts, and a database behind a connection. `fgets` takes the next
piece of the input or fails. The connection is opened and closed once; a statement on no
connection, a second `db_create` and a `db_close` of nothing are misuse, and stay it.
-/

namespace SimpleProxy

open Interact CString

inductive Connection
  | idle
  | up
  | down
  | misused
  deriving DecidableEq, Repr

structure Host (D : Type) where
  stdin : Bytes
  disk : Files.Disk
  connection : Connection
  db : D
  /-- The commands that were given to `system`, with their results. -/
  started : List (Bytes × Int)

namespace Host

variable {D : Type}

/-- One `fgets`, which can fail at any time. -/
def fgets (k : Host D) (size : Nat) (line : Option Bytes) : Option (Host D) :=
  match line, CString.fgets size k.stdin with
  | none, _ => some k
  | some line, some (next, rest) => if line = next then some { k with stdin := rest } else none
  | some _, none => none

/-- A statement, where the connection is used as it should. -/
def execute (E : Engine D) (k : Host D) (text : Bytes) (r : DbResult) : Option (Host D) :=
  match k.connection with
  | .up => (E.step k.db text r).map fun d => { k with db := d }
  | _ => some { k with connection := .misused }

def create (k : Host D) (ok : Bool) : Host D :=
  match k.connection with
  | .idle => if ok then { k with connection := .up } else k
  | _ => { k with connection := .misused }

def close (k : Host D) : Host D :=
  match k.connection with
  | .up => { k with connection := .down }
  | _ => { k with connection := .misused }

end Host


def Host.files {D : Type} (sound : Bool) : Env Files.Answer (Host D) :=
  (Files.storage sound).zoom Host.disk fun k disk => { k with disk := disk }

/-- The calls on the host itself. -/
def Host.around {D : Type} : Env HostAnswer (Host D) where
  step k
    | .geteuid, _ => some k
    | .system command, result => some { k with started := k.started ++ [(command, result)] }
    | .dbCreate _, ok => some (k.create ok)
    | .dbClose, _ => some k.close

namespace Engine

variable {D : Type} (E : Engine D)

/-- The terminal, the memory and the database. -/
def tool : Env ToolAnswer (Host D) where
  step k
    | .malloc, _ => some k
    | .fgets size, line => k.fgets size line
    | .dbExecute text, r => k.execute E text r

def host (sound : Bool) : Env ConfigAnswer (Host D) where
  step k
    | .inl c, r => E.tool.step k c r
    | .inr (.inl c), r => (Host.files sound).step k c r
    | .inr (.inr c), r => Host.around.step k c r

end Engine

variable {D α : Type} {E : Engine D} {k : Host D} {sound : Bool}

theorem wp_onTool {p : ToolProc α} {Q : α → Host D → Prop} :
    (onTool p).wp (E.host sound) Q k ↔ p.wp E.tool Q k := Prog.wp_inLeft

theorem wp_onFiles {p : Files.FileProg α} {Q : α → Host D → Prop} :
    (onFiles p).wp (E.host sound) Q k ↔ p.wp (Host.files sound) Q k :=
  Prog.wp_inRight.trans Prog.wp_inLeft

theorem wp_onHost {c : HostCall} {Q : HostAnswer c → Host D → Prop} :
    (onHost c).wp (E.host sound) Q k ↔ ∀ r k', Host.around.step k c r = some k' → Q r k' :=
  Prog.wp_inRight.trans (Prog.wp_inRight.trans (Prog.wp_perform c))

/-- A program on files changes nothing else. -/
theorem wp_files {p : Files.FileProg α} {Q : α → Host D → Prop}
    (h : p.wp (Files.storage sound) (fun a disk => Q a { k with disk := disk }) k.disk) :
    p.wp (Host.files sound) Q k := by
  unfold Host.files
  refine Prog.wp_zoom ?_ ?_ ?_ h
  · intro k disk
    rfl
  · intro k disk disk'
    rfl
  · intro k
    rfl

/-! ## Calls that are no statements -/

/-- `fgets` and `malloc`. -/
def ToolCall.Local : ToolCall → Prop
  | .dbExecute _ => False
  | _ => True

/-- They change nothing but what is left of the input. -/
theorem tool_local {c : ToolCall} {r : ToolAnswer c} {k k' : Host D} (h : c.Local)
    (step : E.tool.step k c r = some k') : ∃ stdin, k' = { k with stdin := stdin } := by
  cases c with
  | malloc =>
      cases step
      exact ⟨k.stdin, rfl⟩
  | fgets size =>
      have step : k.fgets size r = some k' := step
      unfold Host.fgets at step
      split at step
      · cases step
        exact ⟨k.stdin, rfl⟩
      · split at step
        · cases step
          exact ⟨_, rfl⟩
        · cases step
      · cases step
  | dbExecute text => exact h.elim

/-- A program that makes only such calls. -/
theorem wp_local {p : ToolProc α} (h : p.Calls ToolCall.Local) :
    p.wp E.tool (fun _ k' => ∃ stdin, k' = { k with stdin := stdin }) k := by
  refine h.wp (I := fun k' => ∃ stdin, k' = { k with stdin := stdin }) ?_ ⟨k.stdin, rfl⟩
  rintro _ c r k' hc ⟨stdin, rfl⟩ step
  obtain ⟨stdin', rfl⟩ := tool_local hc step
  exact ⟨stdin', rfl⟩

theorem getInput_local (size : Nat) : (getInput size).Calls ToolCall.Local :=
  Prog.Calls.call trivial fun _ => trivial

theorem askRound_local (default : Int) (outside : Int → Bool) (size : Nat) (s : Unit) :
    (askRound default outside size s).Calls ToolCall.Local :=
  (getInput_local size).bind fun _ => trivial

theorem askText_local (default : Option Bytes) (size : Nat) (s : Unit) :
    (askText default size s).Calls ToolCall.Local := by
  refine (getInput_local size).bind fun line => ?_
  cases line with
  | none => trivial
  | some buffer =>
      dsimp only
      cases (if buffer = [] then default else some buffer) with
      | none => trivial
      | some text => exact Prog.Calls.call trivial fun _ => trivial

theorem askConfig_local (rounds : Nat) : (askConfig rounds).Calls ToolCall.Local := by
  have text : ∀ default, (Loop.run (askText default inputSize) rounds ()).Calls ToolCall.Local :=
    fun default => Loop.calls_run (askText_local default inputSize) rounds ()
  refine (Loop.calls_run (askRound_local _ _ _) rounds ()).bind fun port => ?_
  split
  · trivial
  refine (Loop.calls_run (askRound_local _ _ _) rounds ()).bind fun dbPort => ?_
  split
  · trivial
  refine (text _).bind ?_
  rintro (_ | dbHost)
  · trivial
  refine (text _).bind ?_
  rintro (_ | dbDatabase)
  · trivial
  refine (text _).bind ?_
  rintro (_ | dbUser)
  · trivial
  refine (text _).bind ?_
  rintro (_ | dbPass) <;> trivial

end SimpleProxy
