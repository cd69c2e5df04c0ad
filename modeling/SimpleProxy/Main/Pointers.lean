import SimpleProxy.Lib.Blocks
import SimpleProxy.Main.Auth
import SimpleProxy.Main.Util

/-!
# Two request functions, pointer by pointer

`extract_basic_auth_b64` and `parse_host_port` on the memory they read and write: the
request from its first byte on, the block that is returned, the two arrays of 256 bytes.
Allocations are taken to succeed.
-/

namespace SimpleProxy

open CString Blocks

/-- Behind the name of the header. -/
def authHeaderAt (request : Block) : Checked (Option Block) := do
  match ← Blocks.strstr (bytes "Proxy-Authorization:") request with
  | some authHeader => return some (← advance authHeader (bytes "Proxy-Authorization:").length)
  | none =>
    match ← Blocks.strstr (bytes "Authorization:") request with
    | some authHeader => return some (← advance authHeader (bytes "Authorization:").length)
    | none => return none

/-- `end`: where the first search stopped, else the second, else the end of the string. -/
def endOf (first second : Checked (Option Block)) (start : Block) : Checked Block := do
  match ← first with
  | some stop => return stop
  | none =>
    match ← second with
    | some stop => return stop
    | none => advance start (← strlen start)

/-- `extract_basic_auth_b64`: the block it returns, if any. -/
def extractBasicAuthB64At (request : Block) : Checked (Option Block) := do
  match ← authHeaderAt request with
  | none => return none
  | some authHeader =>
    let authHeader ← skipWhile isspace authHeader
    if ← starts authHeader (bytes "Basic ") then
      let b64Start ← advance authHeader 6
      let stop ←
        endOf (Blocks.strstr (bytes "\r\n") b64Start) (Blocks.strchr 10 b64Start) b64Start
      let len ← distance stop b64Start
      let authB64 ← storeAll (malloc (len + 1)) 0 (← loads len b64Start)
      return some (← store authB64 len 0)
    else
      return none

/-- `host` of a `ClientState`. -/
structure HostArray where
  cells : Block
  size : cells.length = 256

/-- `host_port`, up to its NUL. -/
def hostPortAt (hostHeader : Block) : Checked Block := do
  let hostHeader ← skipWhile (fun c => c = 32 || c = 9) hostHeader
  let stop ← endOf (Blocks.strchr 13 hostHeader) (Blocks.strchr 10 hostHeader) hostHeader
  let len ← distance stop hostHeader
  let len := if 256 ≤ len then 255 else len
  let hostPort ← storeAll (malloc 256) 0 (← Blocks.strncpy len hostHeader)
  store hostPort len 0

/-- The port in `host_port`, and `host_port` with a NUL for the colon. -/
def splitPortAt (hostPort : Block) : Checked (Block × Int) := do
  match ← Blocks.strchr 58 hostPort with
  | some colon =>
    let i ← distance colon hostPort
    let hostPort ← store hostPort i 0
    let port ← Blocks.atoi (← advance (hostPort.drop i) 1)
    return (hostPort, port)
  | none => return (hostPort, 80)

/-- `parse_host_port`: what it leaves in `host` and `*port` when it returns 0. -/
def parseHostPortAt (request : Block) (host : HostArray) : Checked (Option (Block × Int)) := do
  let found ←
    match ← Blocks.strstr (bytes "\nHost:") request with
    | some hostHeader => pure (some hostHeader)
    | none => Blocks.strstr (bytes "\nhost:") request
  match found with
  | none => return none
  | some hostHeader =>
    let (hostPort, port) ← splitPortAt (← hostPortAt (← advance hostHeader 6))
    return some (← storeAll host.cells 0 ((← string hostPort) ++ [0]), port)

end SimpleProxy
