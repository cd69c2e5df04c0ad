import SimpleProxy.Lib.Prog
import SimpleProxy.Lib.CString

/-!
# System calls of the proxy

The calls the event loop and its handlers make, the results they can get, and
the part of the socket contract that does not depend on kernel state: `recv`
asked for `n > 0` bytes delivers between 1 and `n` of them, `recv` asked for
none returns 0, and `send` accepts at least one byte and at most all of them.

A descriptor read from a `ClientState` carries the side (client or target) of
the field it was read from. The side is not an argument of the C call; it says
which stream of a session the exchange belongs to.
-/

namespace SimpleProxy

open Interact CString

/-- A descriptor number; `-1` is "no descriptor". -/
abbrev Fd := Int

/-- An IPv4 address, as in `h_addr_list[0]`. -/
abbrev Addr := UInt32

/-- The two peers of a session. -/
inductive Side
  | client
  | target
  deriving DecidableEq, Repr

inductive EpollFdType
  | listener
  | client
  | target
  | timer
  deriving DecidableEq, Repr

/-- The two bits of an epoll event mask the program looks at. -/
structure EpollMask where
  epollin : Bool
  epollout : Bool
  deriving DecidableEq, Repr

/-- `flags` of `send`: 0 or `MSG_NOSIGNAL`. -/
inductive SendFlags
  | plain
  | noSignal
  deriving DecidableEq, Repr

/-- `recv`: bytes, 0, -1 with `EAGAIN` or `EWOULDBLOCK`, -1 with another error. -/
inductive RecvResult
  | data (bs : Bytes)
  | eof
  | again
  | error
  deriving DecidableEq, Repr

inductive SendResult
  | sent (n : Nat)
  | again
  | error
  deriving DecidableEq, Repr

inductive ConnectResult
  | ok
  | inProgress
  | error
  deriving DecidableEq, Repr

/-- `getsockopt(SO_ERROR)`: -1, or the error stored in `err`. -/
inductive SockError
  | failed
  | code (err : Int)
  deriving DecidableEq, Repr

inductive AcceptResult
  | conn (fd : Fd)
  | again
  | error
  deriving DecidableEq, Repr

/-- The calls. `malloc` also stands for `calloc` and `realloc`; the data of an
epoll registration is the `fd_type` of its `EpollData` (whose `client_state`
is the client the call is made for), or `none` for a null pointer. -/
inductive Call
  | recv (side : Side) (fd : Fd) (n : Nat)
  | send (side : Side) (fd : Fd) (data : Bytes) (flags : SendFlags)
  | time
  | malloc
  | hasValidAuth (request : Bytes)
  | gethostbyname (host : Bytes)
  | socket
  | connect (fd : Fd) (addr : Addr) (port : Nat)
  | getsockopt (fd : Fd)
  | epollAdd (side : Side) (fd : Fd) (events : EpollMask) (data : Option EpollFdType)
  | epollMod (side : Side) (fd : Fd) (events : EpollMask) (data : Option EpollFdType)
  | epollDel (side : Side) (fd : Fd)
  | close (side : Side) (fd : Fd)
  | accept
  | readTimer
  deriving DecidableEq, Repr

/-- The result type of each call. A `Bool` says whether the call succeeded
(for `hasValidAuth`, whether it returned non-zero). -/
abbrev Answer : Call → Type
  | .recv .. => RecvResult
  | .send .. => SendResult
  | .time => Int
  | .malloc => Bool
  | .hasValidAuth _ => Bool
  | .gethostbyname _ => Option Addr
  | .socket => Option Fd
  | .connect .. => ConnectResult
  | .getsockopt _ => SockError
  | .epollAdd .. => Bool
  | .epollMod .. => Bool
  | .epollDel .. => Bool
  | .close .. => Unit
  | .accept => AcceptResult
  | .readTimer => Bool

/-- The socket contract on a single call. -/
def Admits : (c : Call) → Answer c → Bool
  | .recv _ _ n, .data bs => 0 < bs.length && bs.length ≤ n
  | .recv _ _ _, .eof => true
  | .recv _ _ n, .again => 0 < n
  | .recv _ _ n, .error => 0 < n
  | .send _ _ data _, .sent n => 0 < n && n ≤ data.length
  | _, _ => true

/-- A program of the proxy. -/
abbrev Proc := Prog Answer

/-- One system call and its result. -/
abbrev Io := Exchange Answer

/-- Everything one client's handlers did, oldest first. -/
abbrev History := List Io

/-- Handlers run against any answers within the socket contract. -/
abbrev anyAnswers : Env Answer History := recorder fun c r => Admits c r = true

abbrev perform (c : Call) : Proc (Answer c) := Prog.perform c

/-! ## The byte streams of a session -/

/-- The bytes an exchange delivered from the peer on `side`. -/
def Io.received (side : Side) : Io → Bytes
  | ⟨.recv s _ _, .data bs⟩ => if s = side then bs else []
  | _ => []

/-- The bytes of forwarded traffic the peer on `side` accepted in an exchange.
The proxy's own replies are sent without `MSG_NOSIGNAL` and are not traffic. -/
def Io.accepted (side : Side) : Io → Bytes
  | ⟨.send s _ data .noSignal, .sent n⟩ => if s = side then data.take n else []
  | _ => []

/-- The bytes received so far from the peer on `side`. -/
def received (side : Side) (h : History) : Bytes := h.flatMap (Io.received side)

/-- The bytes of forwarded traffic accepted so far by the peer on `side`. -/
def accepted (side : Side) (h : History) : Bytes := h.flatMap (Io.accepted side)

@[simp] theorem received_nil (side : Side) : received side [] = [] := rfl

@[simp] theorem accepted_nil (side : Side) : accepted side [] = [] := rfl

@[simp] theorem received_append (side : Side) (h₁ h₂ : History) :
    received side (h₁ ++ h₂) = received side h₁ ++ received side h₂ :=
  List.flatMap_append

@[simp] theorem accepted_append (side : Side) (h₁ h₂ : History) :
    accepted side (h₁ ++ h₂) = accepted side h₁ ++ accepted side h₂ :=
  List.flatMap_append

@[simp] theorem received_singleton (side : Side) (e : Io) :
    received side [e] = e.received side := by
  simp [received]

@[simp] theorem accepted_singleton (side : Side) (e : Io) :
    accepted side [e] = e.accepted side := by
  simp [accepted]

end SimpleProxy
