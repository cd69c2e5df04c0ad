import SimpleProxy.Main.Client

/-!
# Connecting and forwarding

The target connection and the two-way relay between a client and its target.
`recv_into_buffer` and `send_from_buffer` loop until the socket would block;
here the number of rounds is bounded by the room left and by the bytes to
send, which the socket contract never lets them exceed.
-/

namespace SimpleProxy

open Interact CString

/-- The reply to an accepted `CONNECT` request. -/
def connectionEstablished : Bytes := bytes "HTTP/1.1 200 Connection Established\r\n\r\n"

def sendHttpsEstablished (clientFd : Fd) : Proc Unit := do
  let _ ← perform (.send .client clientFd connectionEstablished .plain)

/-- What both connect paths do for a `CONNECT` request: reply, and drop the
request. -/
def establish (state : ClientState) : Proc ClientState := do
  sendHttpsEstablished state.clientFd
  return { state with requestBuffer := [] }

/-- `if (cond)` in front of one stage of a function. -/
def stage (cond : Bool) (run : ClientState → Proc ClientState) (state : ClientState) :
    Proc ClientState :=
  if cond then run state else return state

/-- `htons` on the `int` port of a `ClientState`: its low 16 bits. -/
def htons (port : Int) : Nat := (port % 65536).toNat

theorem htons_of_fits {port : Int} (h : 0 ≤ port ∧ port < 65536) : (htons port : Int) = port := by
  rw [htons, Int.emod_eq_of_lt h.1 h.2, Int.toNat_of_nonneg h.1]

def connectionConnect (state : ClientState) : Proc (Int × ClientState) := do
  match ← perform (.gethostbyname state.host) with
  | none => return (-1, state)
  | some addr =>
    match ← perform .socket with
    | none => return (-1, { state with targetFd := -1 })
    | some fd =>
      let state := { state with targetFd := fd }
      match ← perform (.connect state.targetFd addr (htons state.port)) with
      | .inProgress => return (0, state)
      | .error =>
        perform (.close .target state.targetFd)
        return (-1, { state with targetFd := -1 })
      | .ok =>
        let state ← stage state.isHttps establish state
        return (1, state)

/-- The loop of `recv_into_buffer`; the result is its return value and the
buffer. -/
def recvLoop (side : Side) (fd : Fd) (capacity : Nat) :
    Nat → Bytes → Int → Proc (Int × Bytes)
  | 0, _, _ => .halt
  | rounds + 1, buffer, total => do
    match ← perform (.recv side fd (capacity - buffer.length)) with
    | .data bs => recvLoop side fd capacity rounds (buffer ++ bs) (total + bs.length)
    | .eof => return (if 0 < total then total else -2, buffer)
    | .again => return (total, buffer)
    | .error => return (-1, buffer)

def recvIntoBuffer (side : Side) (fd : Fd) (buffer : Bytes) (capacity : Nat) :
    Proc (Int × Bytes) :=
  recvLoop side fd capacity (capacity - buffer.length + 1) buffer 0

/-- The loop of `send_from_buffer`: what was sent is moved out of the buffer. -/
def sendLoop (side : Side) (fd : Fd) : Nat → Bytes → Int → Proc (Int × Bytes)
  | _, [], total => return (total, [])
  | 0, _ :: _, _ => .halt
  | rounds + 1, buffer, total => do
    match ← perform (.send side fd buffer .noSignal) with
    | .sent s =>
      if 0 < s then
        sendLoop side fd rounds (buffer.drop s) (total + s)
      else
        return (-1, buffer)
    | .again => return (total, buffer)
    | .error => return (-1, buffer)

def sendFromBuffer (side : Side) (fd : Fd) (buffer : Bytes) : Proc (Int × Bytes) :=
  sendLoop side fd buffer.length buffer 0

/-- What `connection_forward` does with the result of a transfer on `side`:
a negative one marks the peer closed, a positive one is activity. -/
def noteTransfer (side : Side) (result : Int) (state : ClientState) : Proc ClientState :=
  if result < 0 then
    return state.setClosed side
  else if 0 < result then do
    let now ← perform .time
    return { state with lastActive := now }
  else
    return state

/-- Receive from `side` into its buffer. -/
def receiveFrom (side : Side) (state : ClientState) : Proc ClientState := do
  let (r, buffer) ← recvIntoBuffer side (state.fd side) (state.inbox side) (state.inboxCapacity side)
  noteTransfer side r (state.setInbox buffer side)

/-- Send to `side` what is waiting for it. -/
def sendTo (side : Side) (state : ClientState) : Proc ClientState := do
  let (s, buffer) ← sendFromBuffer side (state.fd side) (state.outbox side)
  noteTransfer side s (state.setInbox buffer side.other)

def connectionForward (fdType : EpollFdType) (ev : EpollMask) (state : ClientState) :
    Proc (Int × ClientState) := do
  let isClient := fdType == .client
  let isTarget := fdType == .target
  let writeFd := ((0 < state.requestBuffer.length && isTarget) ||
    (0 < state.responseBuffer.length && isClient)) && ev.epollout
  let readFd := ev.epollin
  -- client to target
  let state ← stage (isClient && readFd) (receiveFrom .client) state
  let state ← stage (isTarget && writeFd) (sendTo .target) state
  -- target to client
  let state ← stage (isTarget && readFd) (receiveFrom .target) state
  let state ← stage (isClient && writeFd) (sendTo .client) state
  return (if state.clientClosed && state.targetClosed then -1 else 0, state)

end SimpleProxy
