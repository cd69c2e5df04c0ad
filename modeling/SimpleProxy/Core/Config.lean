import SimpleProxy.Lib.Files

/-!
# The configuration file

`config.c`: reading the configuration, and rewriting it line by line. Both loops
read the file in pieces of at most 511 bytes; what one piece does to the
configuration is `loadLine`, what is written for it is `updateLine`. Log output is
left out, and `strdup` is taken to succeed.
-/

namespace SimpleProxy

open Interact CString Files

/-- `Config`; a string that is not set is NULL. -/
structure Config where
  port : Int
  dbPort : Int
  dbHost : Option Bytes
  dbDatabase : Option Bytes
  dbUser : Option Bytes
  dbPass : Option Bytes
  deriving DecidableEq, Repr

/-- `MAX_LINE`. -/
def maxLine : Nat := 512

def trimNewline (str : Bytes) : Bytes :=
  (str.reverse.dropWhile fun c => c = 10 || c = 13).reverse

def createDefaultConfig : Config where
  port := 0
  dbPort := 0
  dbHost := none
  dbDatabase := none
  dbUser := none
  dbPass := none

def checkConfig (config : Config) : Bool :=
  config.dbDatabase.isSome && config.dbUser.isSome && config.dbPass.isSome &&
    config.dbHost.isSome && config.dbPort ≠ 0 && config.port ≠ 0

/-- The line up to a `#`, without white space. -/
def prepareLine (line : Bytes) : Bytes :=
  (line.takeWhile (· ≠ 35)).filter fun c => !isspace c

/-- The text in front of the first `=`, and the text behind it. -/
def keyAndValue (line : Bytes) : Option (Bytes × Bytes) :=
  (strchr line 61).map fun equalSign =>
    (line.take (line.length - equalSign.length), equalSign.drop 1)

/-- One round of the loop of `load_config`. -/
def loadLine (config : Config) (line : Bytes) : Config :=
  let line := trimNewline (cstr line)
  if line = [] ∨ line.head? = some 35 then config
  else
    match keyAndValue (prepareLine line) with
    | none => config
    | some (key, value) =>
      if key = bytes "PORT" then { config with port := atoi value }
      else if key = bytes "DB_HOST" then { config with dbHost := some value }
      else if key = bytes "DB_DATABASE" then { config with dbDatabase := some value }
      else if key = bytes "DB_PORT" then { config with dbPort := atoi value }
      else if key = bytes "DB_USER" then { config with dbUser := some value }
      else if key = bytes "DB_PASS" then { config with dbPass := some value }
      else config

/-- One round of the loop of `update_config_file`: what is written for a line. -/
def updateLine (config : Config) (line : Bytes) : Bytes :=
  let originalLine := cstr line
  match keyAndValue (prepareLine (trimNewline originalLine)) with
  | none => originalLine
  | some (key, _) =>
    if key = bytes "PORT" then bytes "PORT=" ++ decimal config.port ++ [10]
    else if key = bytes "DB_PORT" then bytes "DB_PORT=" ++ decimal config.dbPort ++ [10]
    else if key = bytes "DB_HOST" then bytes "DB_HOST=" ++ config.dbHost.getD [] ++ [10]
    else if key = bytes "DB_DATABASE" then
      bytes "DB_DATABASE=" ++ config.dbDatabase.getD [] ++ [10]
    else if key = bytes "DB_USER" then bytes "DB_USER=" ++ config.dbUser.getD [] ++ [10]
    else if key = bytes "DB_PASS" then bytes "DB_PASS=" ++ config.dbPass.getD [] ++ [10]
    else originalLine

/-- The loop of `load_config`, cut off after the given number of rounds. -/
def loadLines : Nat → Config → FileProg Config
  | 0, _ => .halt
  | rounds + 1, config => do
    match ← Files.perform (.fgets maxLine) with
    | none => return config
    | some line => loadLines rounds (loadLine config line)

def loadConfig (rounds : Nat) (filename : Bytes) : FileProg Config := do
  let file ← Files.perform (.fopenRead filename)
  if file then
    let config ← loadLines rounds createDefaultConfig
    Files.perform .fcloseRead
    return config
  else
    return createDefaultConfig

/-- The loop of `update_config_file`, cut off after the given number of rounds; no
result of `fputs` or `fprintf` is looked at. -/
def updateLines (config : Config) : Nat → FileProg Unit
  | 0 => .halt
  | rounds + 1 => do
    match ← Files.perform (.fgets maxLine) with
    | none => return
    | some line =>
      let _ ← Files.perform (.fputs (updateLine config line))
      updateLines config rounds

/-- `temp_filename`, cut off by its buffer. -/
def tempFilename (filename : Bytes) : Bytes := snprintf maxLine (filename ++ bytes ".tmp")

def updateConfigFile (rounds : Nat) (filename : Bytes) (config : Config) : FileProg Bool := do
  let fin ← Files.perform (.fopenRead filename)
  if fin then
    let fout ← Files.perform (.fopenWrite (tempFilename filename))
    if fout then
      updateLines config rounds
      Files.perform .fcloseRead
      let _ ← Files.perform .fcloseWrite
      let removed ← Files.perform (.remove filename)
      if removed then
        let renamed ← Files.perform (.rename (tempFilename filename) filename)
        if renamed then return true else return false
      else
        return false
    else
      Files.perform .fcloseRead
      return false
  else
    return false

/-- `CONF_PATH`. -/
def confPath : Bytes := bytes "/etc/simpleproxy/simpleproxy.conf"

example : loadLine createDefaultConfig (bytes " DB_PASS = a b # c\n") =
    { createDefaultConfig with dbPass := some (bytes "ab") } := by decide +kernel
example : updateLine { createDefaultConfig with dbPort := 3306 } (bytes "DB_PORT=1 # c\r\n") =
    bytes "DB_PORT=3306\n" := by decide +kernel

/-! ## The six keys -/

/-- The keys of the configuration. -/
inductive Key
  | port
  | dbPort
  | dbHost
  | dbDatabase
  | dbUser
  | dbPass
  deriving DecidableEq, Repr

namespace Key

def all : List Key := [port, dbPort, dbHost, dbDatabase, dbUser, dbPass]

def name : Key → Bytes
  | port => bytes "PORT"
  | dbPort => bytes "DB_PORT"
  | dbHost => bytes "DB_HOST"
  | dbDatabase => bytes "DB_DATABASE"
  | dbUser => bytes "DB_USER"
  | dbPass => bytes "DB_PASS"

theorem mem_all (key : Key) : key ∈ all := by
  cases key <;> decide

end Key

namespace Config

/-- What a line with this key and this value sets. -/
def set (config : Config) (key : Key) (value : Bytes) : Config :=
  match key with
  | .port => { config with port := atoi value }
  | .dbPort => { config with dbPort := atoi value }
  | .dbHost => { config with dbHost := some value }
  | .dbDatabase => { config with dbDatabase := some value }
  | .dbUser => { config with dbUser := some value }
  | .dbPass => { config with dbPass := some value }

/-- The text that is written for a key. -/
def value (config : Config) (key : Key) : Bytes :=
  match key with
  | .port => decimal config.port
  | .dbPort => decimal config.dbPort
  | .dbHost => config.dbHost.getD []
  | .dbDatabase => config.dbDatabase.getD []
  | .dbUser => config.dbUser.getD []
  | .dbPass => config.dbPass.getD []

end Config

end SimpleProxy
