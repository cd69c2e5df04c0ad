import SimpleProxy.Main.Connection
import SimpleProxy.Main.Util

/-!
# The client state machine

One handler for each state of a client, and the dispatch on the state. The
handlers call `handle_client` again after they moved the client to another
state, so each takes it as an argument; `dispatch` ties the knot with a bound
on the nesting, and `handleClient` allows one level for each handler.
-/

namespace SimpleProxy

open Interact CString

/-- An event as the handlers see it: the kind of descriptor it is for and what
it reports. -/
structure ClientEvent where
  fdType : EpollFdType
  events : EpollMask
  deriving DecidableEq, Repr

/-- The type of `handle_client`. -/
abbrev Handler := ClientState → ClientEvent → Proc ClientState

/-- The 407 answer. -/
def proxyAuthRequired : Bytes :=
  bytes "HTTP/1.1 407 Proxy Authentication Required\r\n" ++
  bytes "Proxy-Authenticate: Basic realm=\"Proxy\"\r\n" ++
  bytes "Content-Length: 0\r\n" ++
  bytes "Connection: close\r\n" ++
  bytes "\r\n"

def sendProxyAuthRequired (clientFd : Fd) : Proc Unit := do
  let _ ← perform (.send .client clientFd proxyAuthRequired .plain)

/-- `epoll_create_data`: the data pointer, null when the allocation fails. -/
def epollCreateData (fdType : EpollFdType) : Proc (Option EpollFdType) := do
  let ok ← perform .malloc
  return if ok then some fdType else none

/-- `register_forwarding_fds`; no caller looks at its result. -/
def registerForwardingFds (state : ClientState) : Proc Bool := do
  match ← epollCreateData .client with
  | none => return false
  | some clientData =>
    let ok ← perform (.epollMod .client state.clientFd ⟨true, true⟩ (some clientData))
    if ok then
      match ← epollCreateData .target with
      | none => return false
      | some targetData =>
        perform (.epollMod .target state.targetFd ⟨true, true⟩ (some targetData))
    else
      return false

/-- The part of `read_request_nonblocking` after the buffer was grown. -/
def receiveRequest (state : ClientState) : Proc (Int × ClientState) := do
  match ← perform (.recv .client state.clientFd
      (state.requestCapacity - state.requestBuffer.length)) with
  | .again => return (0, state)
  | .error => return (-1, state)
  | .eof => if state.requestBuffer = [] then return (-1, state) else return (0, state)
  | .data bs =>
    -- the terminator is stored at `request_len`, so the string is what is live
    let state := { state with requestBuffer := state.requestBuffer ++ bs }
    if (strstr (cstr state.requestBuffer) crlfcrlf).isSome then
      return (1, state)
    else
      return (0, state)

def readRequestNonblocking (state : ClientState) : Proc (Int × ClientState) := do
  if state.requestBuffer.length = state.requestCapacity - 1 then
    let newbuf ← perform .malloc
    if newbuf then
      receiveRequest { state with requestCapacity := state.requestCapacity * 2 }
    else
      return (-1, state)
  else
    receiveRequest state

def handleReadingRequest (handleClient : Handler) : Handler := fun state event => do
  let (result, state) ← readRequestNonblocking state
  if result < 0 then
    handleClient { state with state := .closing } event
  else if result = 1 then
    handleClient { state with state := .authenticating } event
  else
    return state

def handleAuthenticating (handleClient : Handler) : Handler := fun state event => do
  let ok ← perform (.hasValidAuth state.requestBuffer)
  if ok then
    let request := cstr state.requestBuffer
    let state := { state with isHttps := (bytes "CONNECT ").isPrefixOf request }
    match parseHostPort request with
    | none => return { state with state := .closing }
    | some (host, port) =>
      handleClient { state with host := host, port := port, state := .initializeConnection } event
  else
    sendProxyAuthRequired state.clientFd
    handleClient { state with state := .closing } event

def handleInitializeConnection : Handler := fun state _ => do
  let (result, state) ← connectionConnect state
  if result = -1 then
    return { state with state := .closing }
  else
    let data ← epollCreateData .target
    let ok ← perform (.epollAdd .target state.targetFd ⟨false, true⟩ data)
    if ok then
      return { state with state := .connecting }
    else
      perform (.close .target state.targetFd)
      return { state with state := .closing }

def handleConnecting (handleClient : Handler) : Handler := fun state event => do
  let err ← perform (.getsockopt state.targetFd)
  if err = .code 0 then
    let state ← stage state.isHttps establish state
    let state := { state with responseBuffer := [], state := .forwarding }
    let _ ← registerForwardingFds state
    return state
  else
    perform (.close .target state.targetFd)
    handleClient { state with targetFd := -1, state := .closing } event

def handleForwarding : Handler := fun state event => do
  let (result, state) ← connectionForward event.fdType event.events state
  if result ≠ 0 then
    return { state with state := .closing }
  else
    return state

/-- `epoll_del_fd` and `close` on one side of a client, if it is open. -/
def closeSide (side : Side) (state : ClientState) : Proc Unit := do
  if state.fd side ≠ -1 then
    let _ ← perform (.epollDel side (state.fd side))
    perform (.close side (state.fd side))

def handleClosing : Handler := fun state _ => do
  closeSide .client state
  closeSide .target state
  return { state with expired := true, clientFd := -1, targetFd := -1 }

/-- `handle_client` with at most the given nesting. -/
def dispatch : Nat → Handler
  | 0, _, _ => .halt
  | depth + 1, state, event =>
    if state.expired then
      return state
    else
      match state.state with
      | .readingRequest => handleReadingRequest (dispatch depth) state event
      | .authenticating => handleAuthenticating (dispatch depth) state event
      | .initializeConnection => handleInitializeConnection state event
      | .connecting => handleConnecting (dispatch depth) state event
      | .forwarding => handleForwarding state event
      | .closing => handleClosing state event
      | .closed => return state

def handleClient : Handler := dispatch 6

/-- `state_handlers`, with the `handle_client` its entries call. There is no entry
for `CLOSED`, where `handle_client` returns at once. -/
def stateHandlers (handleClient : Handler) : ClientStateEnum → Handler
  | .readingRequest => handleReadingRequest handleClient
  | .authenticating => handleAuthenticating handleClient
  | .initializeConnection => handleInitializeConnection
  | .connecting => handleConnecting handleClient
  | .forwarding => handleForwarding
  | .closing => handleClosing
  | .closed => fun state _ => return state

theorem dispatch_succ (depth : Nat) (state : ClientState) (event : ClientEvent) :
    dispatch (depth + 1) state event =
      if state.expired then return state
      else stateHandlers (dispatch depth) state.state state event := by
  rw [dispatch]
  cases state.state <;> rfl

end SimpleProxy
