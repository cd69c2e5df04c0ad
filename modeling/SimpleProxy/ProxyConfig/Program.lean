import SimpleProxy.Lib.Http
import SimpleProxy.ProxyConfig.Setup
import SimpleProxy.ProxyConfig.Tables

/-!
# The configuration tool as a whole

`main` of `simpleproxy-config`, with the whole of its setup. Its calls are those of the
commands, those on files, and those on the host: who runs it, other programs, and the
connection to the database. What is printed is left out. A prompt that asks again, and a
loop over a file, is cut off after `rounds` rounds.
-/

namespace SimpleProxy

open Interact CString

inductive HostCall
  | geteuid
  | system (command : Bytes)
  | dbCreate (config : Config)
  | dbClose
  deriving DecidableEq, Repr

/-- `system` returns -1 or a wait status; a failed `db_create` leaves no connection. -/
abbrev HostAnswer : HostCall → Type
  | .geteuid => Nat
  | .system _ => Int
  | .dbCreate _ => Bool
  | .dbClose => Unit

/-- The answers to all calls of the tool. -/
abbrev ConfigAnswer := Sum.elim ToolAnswer (Sum.elim Files.Answer HostAnswer)

abbrev ConfigProc := Prog ConfigAnswer

def onTool {α : Type} (p : ToolProc α) : ConfigProc α := p.inLeft

def onFiles {α : Type} (p : Files.FileProg α) : ConfigProc α := p.inLeft.inRight

def onHost (c : HostCall) : ConfigProc (HostAnswer c) := (Prog.perform c).inRight.inRight

/-! ## The other prompts -/

/-- One round of a prompt for a text. What an empty line stands for may be missing, and then
it asks again. -/
def askText (default : Option Bytes) (bufferSize : Nat) : Loop ToolAnswer Unit (Option Bytes) :=
  fun _ => do
    match ← getInput bufferSize with
    | none => return .inr none
    | some buffer =>
      match if buffer = [] then default else some buffer with
      | none => return .inl ()
      | some text => return .inr (← allocated text)

/-- `DEFAULT_DB_HOST` -/
def defaultDbHost : Bytes := bytes "127.0.0.1"

/-- `DEFAULT_DB_DATABASE` -/
def defaultDbDatabase : Bytes := bytes "simpleproxy"

def askDbHost : Nat → Loop ToolAnswer Unit (Option Bytes) := askText (some defaultDbHost)

def askDbDatabase : Nat → Loop ToolAnswer Unit (Option Bytes) := askText (some defaultDbDatabase)

def askDbUser : Nat → Loop ToolAnswer Unit (Option Bytes) := askText none

def askDbPass : Nat → Loop ToolAnswer Unit (Option Bytes) := askText none

/-! ## The service -/

/-- `SERVICE_NAME` -/
def serviceName : Bytes := bytes "simpleproxy.service"

/-- `WIFEXITED(result) && WEXITSTATUS(result) == 0`, of a result that is not -1. -/
def exitedWell (result : Int) : Bool := result ≠ -1 && result % 128 = 0 && result / 256 % 256 = 0

def systemctl (action serviceName : Bytes) : Bytes :=
  snprintf 256 (bytes "systemctl " ++ action ++ bytes " " ++ serviceName)

def runSystemctl (action serviceName : Bytes) : ConfigProc Int := do
  let result ← onHost (.system (systemctl action serviceName))
  return if exitedWell result then 0 else -1

def startEnableService : ConfigProc Int := do
  if (← runSystemctl (bytes "enable") serviceName) ≠ 0 then
    return 1
  else if (← runSystemctl (bytes "start") serviceName) ≠ 0 then
    return 1
  else
    return 0

/-- `!tolower(input[0]) == 'y'`, where the `!` binds first: 0 or 1 is compared with 121. -/
def declines (input : Bytes) : Bool :=
  let letter := Http.tolower (input.head?.getD 0)
  (if letter = 0 then 1 else 0) = (121 : Nat)

def promptAndEnableService : ConfigProc Int := do
  match ← onTool (toolPerform (.fgets 16)) with
  | none => return 1
  | some line => if declines (chomp line) then return 0 else startEnableService

/-! ## The setup -/

/-- The size of the buffer that all prompts share. -/
def inputSize : Nat := 256

/-- The six prompts, until one fails. -/
def askConfig (rounds : Nat) : ToolProc (Option Config) := do
  let port ← (askPort inputSize).run rounds ()
  if port = -1 then return none
  let dbPort ← (askDbPort inputSize).run rounds ()
  if dbPort = -1 then return none
  let some dbHost ← (askDbHost inputSize).run rounds () | return none
  let some dbDatabase ← (askDbDatabase inputSize).run rounds () | return none
  let some dbUser ← (askDbUser inputSize).run rounds () | return none
  let some dbPass ← (askDbPass inputSize).run rounds () | return none
  return some ⟨port, dbPort, some dbHost, some dbDatabase, some dbUser, some dbPass⟩

def cmdSetup (rounds : Nat) : ConfigProc Int := do
  if (← onHost .geteuid) ≠ 0 then
    return 1
  else
    match ← onTool (askConfig rounds) with
    | none => return 1
    | some config =>
      if ← onFiles (updateConfigFile rounds confPath config) then
        promptAndEnableService
      else
        return 1

def cmdSetupService : ConfigProc Int := startEnableService

/-! ## The program -/

/-- `COMMANDS`, without the descriptions. -/
def commands (rounds : Nat) (argv : List Bytes) : List (Bytes × ConfigProc Int) :=
  [(bytes "setup", cmdSetup rounds), (bytes "setup-service", cmdSetupService),
    (bytes "migrate", onTool cmdMigrate), (bytes "drop", onTool cmdDrop),
    (bytes "reset", onTool cmdReset), (bytes "add", onTool (cmdAdd argv)),
    (bytes "remove", onTool (cmdRemove argv))]

def checkPrintVersion (argv : List Bytes) : Bool :=
  match argv with
  | _ :: option :: _ => option = bytes "--version" || option = bytes "-v"
  | _ => false

/-- A command between `db_create` and `db_close`. -/
def withDatabase (config : Config) (func : Option (ConfigProc Int)) : ConfigProc Int := do
  if ← onHost (.dbCreate config) then
    match func with
    | some func =>
      let result ← func
      onHost .dbClose
      return if result = 0 then 0 else 1
    | none =>
      onHost .dbClose
      return 1
  else
    return 1

/-- `main`; the result is the exit code. -/
def configMain (rounds : Nat) (argv : List Bytes) : ConfigProc Int := do
  if checkPrintVersion argv then
    return 0
  else
    match argv with
    | _ :: cmd :: _ =>
      if cmd = bytes "setup" then
        cmdSetup rounds
      else
        let config ← onFiles (loadConfig rounds confPath)
        if checkConfig config then
          withDatabase config ((commands rounds argv).lookup cmd)
        else
          return 1
    | _ => return 1

end SimpleProxy
