import SimpleProxy.Lib.Prog
import SimpleProxy.Core.Base64
import SimpleProxy.Core.HashMap
import SimpleProxy.Core.User

/-!
# Checking credentials

`has_valid_auth` and what it is made of. It asks for memory and for the time and
queries the database; the cache of accepted credentials, a static variable of the
function, is passed in and out.
-/

namespace SimpleProxy

open Interact CString

/-- `malloc` stands for `strdup` too. -/
inductive AuthCall
  | malloc
  | time
  | dbExecute (query : Bytes)
  deriving DecidableEq, Repr

abbrev AuthAnswer : AuthCall → Type
  | .malloc => Bool
  | .time => Int
  | .dbExecute _ => DbResult

abbrev AuthProc := Prog AuthAnswer

abbrev AuthIo := Exchange AuthAnswer

/-- What one call of `has_valid_auth` did, oldest first. -/
abbrev AuthHistory := List AuthIo

abbrev authPerform (c : AuthCall) : AuthProc (AuthAnswer c) := Prog.perform c

/-- `CACHE_TTL` -/
def cacheTtl : Int := 3600

/-- `sscanf(decoded, "%255[^:]:%255s", username, password)`, if it converts both. -/
def scanCredentials (decoded : Bytes) : Option (Bytes × Bytes) :=
  match scanRun 255 (· ≠ 58) decoded with
  | some (username, 58 :: rest) =>
    (scanRun 255 (!isspace ·) (rest.dropWhile isspace)).map fun (password, _) => (username, password)
  | _ => none

def getUserFromB64 (base64 : Bytes) : AuthProc (Option User) := do
  if base64.length % 4 ≠ 0 then
    return none
  else
    let room ← authPerform .malloc
    match if room then base64Decode base64 else none with
    | none => return none
    | some decoded =>
      let username ← authPerform .malloc
      let password ← authPerform .malloc
      if username && password then
        match scanCredentials (cstr decoded.bytes) with
        | none => return none
        | some (username, password) =>
          let user ← authPerform .malloc
          return if user then some ⟨username, password⟩ else none
      else
        return none

/-- `extract_basic_auth_b64` when its allocation succeeds. -/
def extractBasicAuthB64 (request : Bytes) : Option Bytes := do
  let authHeader ←
    match strstr request (bytes "Proxy-Authorization:") with
    | some header => some (header.drop (bytes "Proxy-Authorization:").length)
    | none =>
      (strstr request (bytes "Authorization:")).map (·.drop (bytes "Authorization:").length)
  let authHeader := authHeader.dropWhile isspace
  if (bytes "Basic ").isPrefixOf authHeader then
    let b64Start := authHeader.drop 6
    let rest := ((strstr b64Start (bytes "\r\n")).orElse fun _ => strchr b64Start 10).getD []
    some (b64Start.take (b64Start.length - rest.length))
  else
    none

/-- `db_user_get_from_result` on the first row of a result. `strdup` takes the columns for C strings:
what is behind a NUL in them is lost. -/
def dbUserGetFromResult (row : Option (Option Bytes × Option Bytes)) : AuthProc (Option User) := do
  match row with
  | some (some username, some password) =>
    let user ← authPerform .malloc
    if user then
      let name ← authPerform .malloc
      let pass ← authPerform .malloc
      return if name && pass then some ⟨cstr username, cstr password⟩ else none
    else
      return none
  | _ => return none

/-- `has_valid_auth` from `get_user_from_b64` to the comparison of the passwords. -/
def checkCredentials (authB64 : Bytes) : AuthProc Bool := do
  match ← getUserFromB64 authB64 with
  | none => return false
  | some requestUser =>
    let room ← authPerform .malloc
    if room then
      match ← authPerform (.dbExecute (dbUserGet requestUser.username)) with
      | .rows row =>
        match ← dbUserGetFromResult row with
        | none => return false
        | some validUser => return requestUser.password = validUser.password
      | _ => return false
    else
      return false

/-- The answer for `authB64` when the cache has none, and the cache with it. -/
def authenticate (map : HashMap Int) (authB64 : Bytes) : AuthProc (Bool × HashMap Int) := do
  let valid ← checkCredentials authB64
  if valid then
    let now ← authPerform .time
    return (true, map.add authB64 (now + cacheTtl))
  else
    return (false, map)

def hasValidAuth (map : Option (HashMap Int)) (request : Bytes) : AuthProc (Bool × HashMap Int) := do
  let map := map.getD .create
  match extractBasicAuthB64 request with
  | none => return (false, map)
  | some authB64 =>
    let room ← authPerform .malloc
    if room then
      match map.get authB64 with
      | some ttl =>
        let now ← authPerform .time
        if now < ttl then
          return (true, map)
        else
          authenticate (map.remove authB64) authB64
      | none => authenticate map authB64
    else
      return (false, map)

example : extractBasicAuthB64 (bytes "A: b\r\nAuthorization: \t Basic dTpw\r\n\r\n") =
    some (bytes "dTpw") := by
  decide
example : scanCredentials (bytes "u: p q") = some (bytes "u", bytes "p") := by decide

end SimpleProxy
