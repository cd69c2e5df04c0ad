import SimpleProxy.Main.Calls

/-!
# Reading the target out of a request

`parse_host_port` on the C string held by the request buffer.
-/

namespace SimpleProxy

open CString

/-- The end of a request header. -/
def crlfcrlf : Bytes := [13, 10, 13, 10]

/-- The host and port of the `Host` header, if there is one. -/
def parseHostPort (request : Bytes) : Option (Bytes × Int) :=
  match (strstr request (bytes "\nHost:")).or (strstr request (bytes "\nhost:")) with
  | none => none
  | some found =>
    let hostHeader := (found.drop 6).dropWhile fun c => c = 32 || c = 9
    let stop := ((strchr hostHeader 13).or (strchr hostHeader 10)).getD []
    let len := hostHeader.length - stop.length
    -- `host_port` has 256 bytes, one of them for the terminator
    let hostPort := hostHeader.take (if 256 ≤ len then 255 else len)
    match strchr hostPort 58 with
    | some colon =>
      some (hostPort.take (hostPort.length - colon.length), atoi (colon.drop 1))
    | none => some (hostPort, 80)

/-- Where a request with this header is to be connected. -/
example : parseHostPort (bytes "CONNECT a:1 HTTP/1.1\r\nHost: a.b:443\r\n\r\n") =
    some (bytes "a.b", 443) := by decide

end SimpleProxy
