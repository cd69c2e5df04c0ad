import SimpleProxy.Main.RunLoop
import SimpleProxy.ProxyConfig.Program

/-!
# Starting the proxy

`main` of the proxy up to the loop of `run_loop`: the configuration, the database connection,
the listening socket, epoll and the timer. A call that returns a descriptor returns -1 when it
fails. Calls whose failure the source ignores are left out, `sigaction` and the `fcntl` of
`set_nonblocking`, and so is logging; `malloc` stands for `calloc` too.
-/

namespace SimpleProxy

open Interact CString

inductive StartCall
  | dbCreate (config : Config)
  | socket
  | setsockopt (fd : Fd)
  | bind (fd : Fd) (port : Nat)
  | listen (fd : Fd) (backlog : Nat)
  | epollCreate
  | timerfdCreate
  | timerfdSettime (fd : Fd) (seconds : Nat)
  | malloc
  | epollAdd (fd : Fd) (events : EpollMask) (data : EpollFdType)
  | close (fd : Fd)
  deriving DecidableEq, Repr

abbrev StartAnswer : StartCall → Type
  | .socket => Fd
  | .epollCreate => Fd
  | .timerfdCreate => Fd
  | .close _ => Unit
  | _ => Bool

abbrev SetupAnswer := Sum.elim Files.Answer StartAnswer

abbrev StartProc := Prog SetupAnswer

abbrev StartIo := Exchange SetupAnswer

abbrev StartHistory := List StartIo

def startPerform (c : StartCall) : StartProc (StartAnswer c) := (Prog.perform c).inRight

/-- A call of the start and its result. -/
def startIo (c : StartCall) (r : StartAnswer c) : StartIo := ⟨.inr c, r⟩

/-- How the start ends: the exit code of the process, or the descriptors the loop runs on. -/
inductive StartResult
  | exit (code : Int)
  | loop (serverSock epollFd timerFd : Fd)
  deriving DecidableEq, Repr

/-- `BACKLOG` -/
def backlog : Nat := 128

def createServerSocket (port : Int) (backlog : Nat) : StartProc Fd := do
  let serverFd ← startPerform .socket
  if serverFd = 0 then
    return -1
  else if ← startPerform (.setsockopt serverFd) then
    if ← startPerform (.bind serverFd (htons port)) then
      if ← startPerform (.listen serverFd backlog) then
        return serverFd
      else
        startPerform (.close serverFd)
        return -1
    else
      startPerform (.close serverFd)
      return -1
  else
    startPerform (.close serverFd)
    return -1

def createTimerFd (timeoutSec : Nat) : StartProc Fd := do
  let timerFd ← startPerform .timerfdCreate
  if timerFd = -1 then
    return -1
  else if ← startPerform (.timerfdSettime timerFd timeoutSec) then
    return timerFd
  else
    startPerform (.close timerFd)
    return -1

def registerTimer (timeout : Nat) : StartProc Fd := do
  let timerFd ← createTimerFd timeout
  if timerFd = -1 then
    return -1
  else if ← startPerform .malloc then
    if ← startPerform (.epollAdd timerFd ⟨true, false⟩ .timer) then
      return timerFd
    else
      return -1
  else
    return -1

/-- `cleanup_resources` on one of the global variables. -/
def cleanupResource (fd : Fd) : StartProc Unit :=
  if fd ≠ -1 then startPerform (.close fd) else pure ()

/-- `cleanup_resources`, on the values of the three of them. -/
def cleanupResources (serverSock epollFd timerFd : Fd) : StartProc Unit := do
  cleanupResource serverSock
  cleanupResource epollFd
  cleanupResource timerFd

def exitWithError (serverSock epollFd timerFd : Fd) : StartProc StartResult := do
  cleanupResources serverSock epollFd timerFd
  return .exit 1

/-- `run_loop` up to its loop. -/
def enterLoop (serverSock : Fd) : StartProc StartResult := do
  let epollFd ← startPerform .epollCreate
  if epollFd = -1 then
    exitWithError serverSock epollFd (-1)
  else if ← startPerform .malloc then
    if ← startPerform (.epollAdd serverSock ⟨true, false⟩ .listener) then
      let timerFd ← registerTimer 5
      if timerFd = -1 then
        exitWithError serverSock epollFd timerFd
      else
        return .loop serverSock epollFd timerFd
    else
      exitWithError serverSock epollFd (-1)
  else
    exitWithError serverSock epollFd (-1)

/-- `main` -/
def proxyMain (rounds : Nat) (argv : List Bytes) : StartProc StartResult := do
  if checkPrintVersion argv then
    return .exit 0
  else
    let config ← (loadConfig rounds confPath).inLeft
    if checkConfig config then
      if ← startPerform (.dbCreate config) then
        let serverSock ← createServerSocket config.port backlog
        if serverSock < 0 then
          return .exit 1
        else
          enterLoop serverSock
      else
        return .exit 1
    else
      return .exit 1

/-! ## The kernel -/

namespace Kernel

/-- A call that is to open a descriptor: -1, or a number that is not open. -/
def opened (k : Kernel) (fd : Fd) : Option Kernel :=
  if fd = -1 then some k
  else if 0 ≤ fd ∧ k.fds fd = none then some (k.openFd fd .proxy) else none

/-- A call that needs an open descriptor to succeed. -/
def onOpen (k : Kernel) (fd : Fd) (ok : Bool) : Option Kernel :=
  if ok = true ∧ k.fds fd = none then none else some k

def startEffect (k : Kernel) : (c : StartCall) → StartAnswer c → Option Kernel
  | .socket, fd => k.opened fd
  | .epollCreate, fd => k.opened fd
  | .timerfdCreate, fd => k.opened fd
  | .setsockopt fd, ok => k.onOpen fd ok
  | .bind fd _, ok => k.onOpen fd ok
  | .listen fd _, ok => k.onOpen fd ok
  | .timerfdSettime fd _, ok => k.onOpen fd ok
  | .epollAdd fd events data, true =>
    if k.fds fd ≠ none ∧ k.interest fd = none then
      some (k.register fd (some ⟨events, some ⟨data, none⟩⟩))
    else none
  | .close fd, _ => some (k.closeFd fd)
  | _, _ => some k

/-- What the start does to the kernel. The files are somebody else's business. -/
def startEnv : Env SetupAnswer Kernel where
  step k
    | .inl _, _ => some k
    | .inr c, r => k.startEffect c r

/-- Nothing is open yet. -/
def fresh : Kernel where
  fds _ := none
  interest _ := none
  trace := []

end Kernel

/-- What the start runs on: the files, the kernel, and the connection to the database. -/
structure StartState where
  disk : Files.Disk
  kernel : Kernel
  connected : Bool

def StartState.fresh (disk : Files.Disk) : StartState := ⟨disk, .fresh, false⟩

/-- A `db_create` that succeeds. No call of the start disconnects. -/
def connects : (c : StartCall) → StartAnswer c → Bool
  | .dbCreate _, ok => ok
  | _, _ => false

def startHost (sound : Bool) : Env SetupAnswer StartState where
  step m
    | .inl c, r => ((Files.storage sound).step m.disk c r).map fun d => { m with disk := d }
    | .inr c, r => (m.kernel.startEffect c r).map fun k =>
      { m with kernel := k, connected := m.connected || connects c r }

end SimpleProxy
