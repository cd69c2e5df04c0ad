import SimpleProxy.Main.Calls

/-!
# Client states

`ClientState` and its constructor and destructor. The two buffers are given
by their live bytes: `requestBuffer` is `request_buffer[0..request_len)`, its
length is `request_len`, and bytes past it are never read before they are
written. The fields of the two directions are also reached through the side
they belong to: what is received from a side goes to its `inbox`, what is sent
to a side comes from its `outbox`.
-/

namespace SimpleProxy

open Interact CString

/-- `MAX_BUFFER_SIZE`, the initial capacity of both buffers. -/
def maxBufferSize : Nat := 4096

inductive ClientStateEnum
  | readingRequest
  | authenticating
  | initializeConnection
  | connecting
  | forwarding
  | closing
  | closed
  deriving DecidableEq, Repr

structure ClientState where
  clientFd : Fd
  targetFd : Fd
  clientClosed : Bool
  targetClosed : Bool
  slot : Nat
  lastActive : Int
  expired : Bool
  requestBuffer : Bytes
  requestCapacity : Nat
  responseBuffer : Bytes
  responseCapacity : Nat
  state : ClientStateEnum
  host : Bytes
  port : Int
  isHttps : Bool
  deriving DecidableEq, Repr

namespace ClientState

def fd (st : ClientState) : Side → Fd
  | .client => st.clientFd
  | .target => st.targetFd

def closed (st : ClientState) : Side → Bool
  | .client => st.clientClosed
  | .target => st.targetClosed

def setClosed (st : ClientState) : Side → ClientState
  | .client => { st with clientClosed := true }
  | .target => { st with targetClosed := true }

/-- The buffer filled by `recv` from a side. -/
def inbox (st : ClientState) : Side → Bytes
  | .client => st.requestBuffer
  | .target => st.responseBuffer

def inboxCapacity (st : ClientState) : Side → Nat
  | .client => st.requestCapacity
  | .target => st.responseCapacity

def setInbox (st : ClientState) (buffer : Bytes) : Side → ClientState
  | .client => { st with requestBuffer := buffer }
  | .target => { st with responseBuffer := buffer }

end ClientState

namespace Side

def other : Side → Side
  | .client => .target
  | .target => .client

@[simp] theorem other_other (side : Side) : side.other.other = side := by
  cases side <;> rfl

@[simp] theorem other_ne (side : Side) : side.other ≠ side := by
  cases side <;> decide

theorem eq_other {s side : Side} (h : s ≠ side) : s = side.other := by
  cases s <;> cases side <;> first | rfl | exact absurd rfl h

end Side

namespace ClientState

/-- The buffer drained by `send` to a side: what came from the other side. -/
def outbox (st : ClientState) (side : Side) : Bytes := st.inbox side.other

/-- The value of a fresh `ClientState` whose allocations all succeeded. -/
def create (clientFd : Fd) (now : Int) : ClientState where
  clientFd := clientFd
  targetFd := -1
  clientClosed := false
  targetClosed := false
  slot := 0
  lastActive := now
  expired := false
  requestBuffer := []
  requestCapacity := maxBufferSize
  responseBuffer := []
  responseCapacity := maxBufferSize
  state := .readingRequest
  host := []
  port := 80
  isHttps := false

end ClientState

def createClientState (clientFd : Fd) : Proc (Option ClientState) := do
  let state ← perform .malloc
  if state then
    let now ← perform .time
    let requestBuffer ← perform .malloc
    let responseBuffer ← perform .malloc
    if requestBuffer && responseBuffer then
      return some (ClientState.create clientFd now)
    else
      return none
  else
    return none

def freeClientState (state : ClientState) : Proc Unit := do
  if state.clientFd ≠ -1 then
    perform (.close .client state.clientFd)
  if state.targetFd ≠ -1 then
    let _ ← perform (.epollDel .target state.targetFd)
    perform (.close .target state.targetFd)

/-! ## The fields of one side -/

namespace ClientState

variable (st : ClientState) (b : Bytes) (s t : Side)

@[simp] theorem inbox_setInbox_self : (st.setInbox b s).inbox s = b := by
  cases s <;> rfl

theorem inbox_setInbox (h : s ≠ t) : (st.setInbox b s).inbox t = st.inbox t := by
  cases s <;> cases t <;> first | rfl | exact absurd rfl h

@[simp] theorem inboxCapacity_setInbox :
    (st.setInbox b s).inboxCapacity t = st.inboxCapacity t := by
  cases s <;> cases t <;> rfl

@[simp] theorem fd_setInbox : (st.setInbox b s).fd t = st.fd t := by
  cases s <;> cases t <;> rfl

@[simp] theorem closed_setInbox : (st.setInbox b s).closed t = st.closed t := by
  cases s <;> cases t <;> rfl

@[simp] theorem inbox_setClosed : (st.setClosed s).inbox t = st.inbox t := by
  cases s <;> cases t <;> rfl

@[simp] theorem inboxCapacity_setClosed :
    (st.setClosed s).inboxCapacity t = st.inboxCapacity t := by
  cases s <;> cases t <;> rfl

@[simp] theorem fd_setClosed : (st.setClosed s).fd t = st.fd t := by
  cases s <;> cases t <;> rfl

@[simp] theorem closed_setClosed_self : (st.setClosed s).closed s = true := by
  cases s <;> rfl

theorem closed_setClosed (h : s ≠ t) : (st.setClosed s).closed t = st.closed t := by
  cases s <;> cases t <;> first | rfl | exact absurd rfl h

end ClientState

end SimpleProxy
