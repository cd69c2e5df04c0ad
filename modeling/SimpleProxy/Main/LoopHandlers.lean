import SimpleProxy.Main.Proxy
import Mathlib.Logic.Function.Basic

/-!
# Listener, timer and client events

The three event handlers of the loop and what they own: the heap of
`ClientState`s and the registry `clients[]`. Several parties act here, so every
call is labelled with the client it is made for. Clients are numbered by the
`accept` calls; a number is never used again.
-/

namespace SimpleProxy

open Interact CString

abbrev ClientId := Nat

/-- Whose business a call is: the proxy's own, or one client's. -/
inductive Party
  | proxy
  | client (c : ClientId)
  deriving DecidableEq, Repr

/-- A program in which several parties act. -/
abbrev SysProc := Prog (ByParty Party Answer)

abbrev performAs (who : Party) (c : Call) : SysProc (Answer c) := Prog.perform (who, c)

/-- `MAX_CLIENTS`; no proof looks at its value. -/
@[irreducible] def maxClients : Nat := 1024

/-- The heap of client states, the next unused client number and `clients[]`. -/
structure Memory where
  heap : ClientId → Option ClientState
  nextId : ClientId
  clients : List (Option ClientId)

namespace Memory

def write (mem : Memory) (c : ClientId) (state : ClientState) : Memory :=
  { mem with heap := Function.update mem.heap c (some state) }

def free (mem : Memory) (c : ClientId) : Memory :=
  { mem with heap := Function.update mem.heap c none }

@[simp] theorem clients_write (mem : Memory) (c : ClientId) (state : ClientState) :
    (mem.write c state).clients = mem.clients := rfl

theorem write_write (mem : Memory) (c : ClientId) (state state' : ClientState) :
    (mem.write c state).write c state' = mem.write c state' := by
  simp [write]

theorem free_write (mem : Memory) (c : ClientId) (state : ClientState) :
    (mem.write c state).free c = mem.free c := by
  simp [write, free]

theorem free_of_absent {mem : Memory} {c : ClientId} (h : mem.heap c = none) :
    mem.free c = mem := by
  unfold free
  rw [Function.update_eq_self_iff.mpr h.symm]

/-- Memory after `state_registry_init`. -/
def boot : Memory where
  heap _ := none
  nextId := 0
  clients := List.replicate maxClients none

end Memory

/-! ## The registry -/

/-- The first free slot and the registry with the client in it; `none` is the
result -1 of a full registry. -/
def stateRegistryAdd (clients : List (Option ClientId)) (client : ClientId) :
    Option (Nat × List (Option ClientId)) :=
  (clients.findIdx? Option.isNone).map fun slot => (slot, clients.set slot (some client))

def stateRegistryRemove (clients : List (Option ClientId)) (slot : Nat) :
    List (Option ClientId) :=
  clients.set slot none

/-! ## Handlers -/

/-- `epoll_register_client`; the state is on the heap from `create_client_state` to
`free_client_state`. -/
def epollRegisterClient (mem : Memory) (client : ClientId) (clientFd : Fd) :
    SysProc (Option ClientState × Memory) := do
  match ← (createClientState clientFd).by (.client client) with
  | none =>
    performAs (.client client) (.close .client clientFd)
    return (none, mem)
  | some state =>
    let mem := mem.write client state
    match ← (epollCreateData .client).by (.client client) with
    | none =>
      (freeClientState state).by (.client client)
      return (none, mem.free client)
    | some clientData =>
      let ok ← performAs (.client client)
        (.epollAdd .client clientFd ⟨true, false⟩ (some clientData))
      if ok then
        return (some state, mem)
      else
        (freeClientState state).by (.client client)
        return (none, mem.free client)

/-- The accept loop; `rounds` bounds how many connections one event accepts. -/
def handleListenerEvent : Nat → Memory → SysProc Memory
  | 0, _ => .halt
  | rounds + 1, mem => do
    let client := mem.nextId
    let mem := { mem with nextId := client + 1 }
    match ← performAs (.client client) .accept with
    | .again => return mem
    | .error => return mem
    | .conn clientSock =>
      match ← epollRegisterClient mem client clientSock with
      -- `free_client_state` of a null pointer does nothing
      | (none, mem) => return mem
      | (some state, mem) =>
        match stateRegistryAdd mem.clients client with
        | none =>
          (freeClientState state).by (.client client)
          return mem.free client
        | some (slot, clients) =>
          handleListenerEvent rounds
            ({ mem with clients := clients }.write client { state with slot := slot })

/-- The part of `timeout_callback` that concerns the client itself; `none` if
it was released. -/
def timeoutCallback (state : ClientState) : Proc (Option ClientState) := do
  let now ← perform .time
  if now - state.lastActive < 10 && !state.expired then
    return some state
  else if state.expired then
    freeClientState state
    return none
  else if state.clientFd ≠ -1 && state.targetFd ≠ -1 then
    let _ ← perform (.epollDel .client state.clientFd)
    let _ ← perform (.epollDel .target state.targetFd)
    return some { state with expired := true }
  else
    return some { state with expired := true }

/-- `timeout_callback` for one slot of the registry. An entry whose state was
released already would be undefined behaviour. -/
def sweepSlot (mem : Memory) (slot : Nat) : SysProc Memory :=
  match mem.clients[slot]? with
  | some (some client) =>
    match mem.heap client with
    | none => .halt
    | some state => do
      match ← (timeoutCallback state).by (.client client) with
      | some state => return mem.write client state
      | none =>
        return { mem with clients := stateRegistryRemove mem.clients state.slot }.free client
  | _ => return mem

def handleTimerEvent (mem : Memory) : SysProc Memory := do
  let ok ← performAs .proxy .readTimer
  if ok then
    (List.range maxClients).foldlM sweepSlot mem
  else
    return mem

/-- The data of a registration: the kind of descriptor and its client. -/
structure EpollData where
  fdType : EpollFdType
  clientState : Option ClientId
  deriving DecidableEq, Repr

/-- `handle_client_event`. Following a null pointer or a pointer to a state
that was released is undefined behaviour. -/
def handleClientEvent (mem : Memory) (data : EpollData) (events : EpollMask) : SysProc Memory :=
  if data.fdType = .client ∨ data.fdType = .target then
    match data.clientState with
    | none => .halt
    | some client =>
      match mem.heap client with
      | none => .halt
      | some state => do
        let state ← (handleClient state ⟨data.fdType, events⟩).by (.client client)
        return mem.write client state
  else
    return mem

/-- The body of the inner loop of `run_loop`. -/
def handleEvent (rounds : Nat) (mem : Memory) (data : Option EpollData) (events : EpollMask) :
    SysProc Memory :=
  match data with
  | none => .halt
  | some data =>
    if data.fdType = .listener ∧ data.clientState = none then
      handleListenerEvent rounds mem
    else if data.fdType = .timer then
      handleTimerEvent mem
    else
      handleClientEvent mem data events

end SimpleProxy
