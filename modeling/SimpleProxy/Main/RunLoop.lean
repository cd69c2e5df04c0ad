import SimpleProxy.Main.LoopHandlers
import SimpleProxy.Lib.System

/-!
# The event loop and the kernel

The kernel as far as the proxy can tell: which descriptors are open and for
whom, the epoll interest set, and (a ghost) the record of all calls. `accept`
and `socket` may return any number that is not open, so a number is reused as
soon as it is closed; closing a descriptor takes it out of the interest set.

A world is the proxy's memory, the kernel and the rest of the batch that
`epoll_wait` returned. The loop either waits, which reports registered
descriptors with the data they are registered with, or handles the next event
of the batch. A handler without an outcome leaves a world without a next step.
-/

namespace SimpleProxy

open Interact CString

structure Registration where
  events : EpollMask
  data : Option EpollData
  deriving DecidableEq, Repr

/-- A call in the record: who made it, whom the descriptor it names belonged to
at that moment, and the exchange. -/
structure TraceEntry where
  who : Party
  owner : Option Party
  io : Io

structure Kernel where
  fds : Fd → Option Party
  interest : Fd → Option Registration
  trace : List TraceEntry

/-- The descriptor a call is about. -/
def Call.fd? : Call → Option Fd
  | .recv _ fd _ => some fd
  | .send _ fd _ _ => some fd
  | .connect fd _ _ => some fd
  | .getsockopt fd => some fd
  | .epollAdd _ fd _ _ => some fd
  | .epollMod _ fd _ _ => some fd
  | .epollDel _ fd => some fd
  | .close _ fd => some fd
  | _ => none

/-- The client a party's `EpollData` points to. -/
def Party.clientState : Party → Option ClientId
  | .proxy => none
  | .client c => some c

namespace Kernel

def openFd (k : Kernel) (fd : Fd) (who : Party) : Kernel :=
  { k with fds := Function.update k.fds fd (some who) }

def closeFd (k : Kernel) (fd : Fd) : Kernel :=
  { k with
    fds := Function.update k.fds fd none
    interest := Function.update k.interest fd none }

def register (k : Kernel) (fd : Fd) (reg : Option Registration) : Kernel :=
  { k with interest := Function.update k.interest fd reg }

/-- The effect of a call that was answered so; `none` if the kernel never gives
that answer. -/
def effect (k : Kernel) (who : Party) : (c : Call) → Answer c → Option Kernel
  | .socket, some fd => if 0 ≤ fd ∧ k.fds fd = none then some (k.openFd fd who) else none
  | .accept, .conn fd => if 0 ≤ fd ∧ k.fds fd = none then some (k.openFd fd who) else none
  | .close _ fd, _ => some (k.closeFd fd)
  | .epollAdd _ fd events data, true =>
    if k.fds fd ≠ none ∧ k.interest fd = none then
      some (k.register fd (some ⟨events, data.map fun t => ⟨t, who.clientState⟩⟩))
    else none
  | .epollMod _ fd events data, true =>
    if k.interest fd ≠ none then
      some (k.register fd (some ⟨events, data.map fun t => ⟨t, who.clientState⟩⟩))
    else none
  | .epollDel _ fd, true => if k.interest fd ≠ none then some (k.register fd none) else none
  | _, _ => some k

def record (k : Kernel) (entry : TraceEntry) : Kernel := { k with trace := k.trace ++ [entry] }

/-- The kernel as the environment of the proxy. -/
def env : Env (ByParty Party Answer) Kernel where
  step k c r :=
    if Admits c.2 r then
      (k.effect c.1 c.2 r).map fun k' => k'.record ⟨c.1, c.2.fd?.bind k.fds, c.2, r⟩
    else none

end Kernel

/-- An event of a batch. `struct epoll_event` has only the mask and the data;
`fd` is the descriptor it was reported for. -/
structure EpollEvent where
  fd : Fd
  events : EpollMask
  data : Option EpollData
  deriving DecidableEq, Repr

structure World where
  mem : Memory
  kernel : Kernel
  batch : List EpollEvent

/-- `epoll_wait` may report this event: its descriptor is registered with this
data, and only for what it reports. -/
def Kernel.reports (k : Kernel) (e : EpollEvent) : Bool :=
  match k.interest e.fd with
  | none => false
  | some reg => e.data = reg.data && (!e.events.epollin || reg.events.epollin) &&
      (!e.events.epollout || reg.events.epollout)

/-- `MAX_CONNECTIONS * 3`, the length of the event array. -/
def maxEvents : Nat := 1024 * 3

/-- `epoll_wait` may fill the array with this batch. -/
def Kernel.reportsAll (k : Kernel) (events : List EpollEvent) : Bool :=
  events.all k.reports && (events.map EpollEvent.fd).Nodup && events.length ≤ maxEvents

/-- One step of `run_loop`. -/
inductive World.Step : World → World → Prop
  | wait {w : World} {events : List EpollEvent} (idle : w.batch = [])
      (reported : w.kernel.reportsAll events = true) : Step w { w with batch := events }
  | handle {w : World} {e : EpollEvent} {rest : List EpollEvent} {rounds : Nat}
      {tr : List (Exchange (ByParty Party Answer))} {mem : Memory} {kernel : Kernel}
      (next : w.batch = e :: rest)
      (run : (handleEvent rounds w.mem e.data e.events).Runs tr mem)
      (allowed : Kernel.env.run w.kernel tr = some kernel) : Step w ⟨mem, kernel, rest⟩

/-- The world when `run_loop` enters its loop: listener and timer registered,
no client yet. -/
def World.boot (serverSock epollFd timerFd : Fd) : World where
  mem := .boot
  kernel :=
    { fds := fun fd =>
        if fd = serverSock ∨ fd = epollFd ∨ fd = timerFd then some .proxy else none
      interest := fun fd =>
        if fd = serverSock then some ⟨⟨true, false⟩, some ⟨.listener, none⟩⟩
        else if fd = timerFd then some ⟨⟨true, false⟩, some ⟨.timer, none⟩⟩
        else none
      trace := [] }
  batch := []

/-- The descriptors `run_loop` sets up are real and distinct. -/
def World.Booted (w : World) : Prop :=
  ∃ serverSock epollFd timerFd : Fd, 0 ≤ serverSock ∧ 0 ≤ epollFd ∧ 0 ≤ timerFd ∧
    [serverSock, epollFd, timerFd].Nodup ∧ w = .boot serverSock epollFd timerFd

/-- The proxy. -/
def proxy : System World where
  init := World.Booted
  step := World.Step

/-! ## Running a script -/

/-- The slots outside of `slots` are empty. -/
def onlySlots (slots : List Nat) (clients : List (Option ClientId)) : Bool :=
  clients.zipIdx.all fun (entry, i) => entry.isNone || slots.contains i

/-- A step of the loop together with what the kernel answers. A `tick` is a
`handle` of a timer event that visits no empty slots. -/
inductive Cmd
  | wait (events : List EpollEvent)
  | handle (rounds : Nat) (tr : List (Exchange (ByParty Party Answer)))
  | tick (slots : List Nat) (tr : List (Exchange (ByParty Party Answer)))

/-- Perform a step; `none` if the program or the kernel does something else. -/
def World.exec (w : World) : Cmd → Option World
  | .wait events =>
    if w.batch = [] ∧ w.kernel.reportsAll events = true then some { w with batch := events }
    else none
  | .handle rounds tr =>
    match w.batch with
    | [] => none
    | e :: rest =>
      match (handleEvent rounds w.mem e.data e.events).replay tr, Kernel.env.run w.kernel tr with
      | some mem, some kernel => some ⟨mem, kernel, rest⟩
      | _, _ => none
  | .tick slots tr =>
    match w.batch with
    | ⟨_, _, some ⟨.timer, _⟩⟩ :: rest =>
      if slots.Sublist (List.range maxClients) ∧ onlySlots slots w.mem.clients = true then
        match (slots.foldlM sweepSlot w.mem).replay tr,
          Kernel.env.run w.kernel (⟨(.proxy, .readTimer), true⟩ :: tr) with
        | some mem, some kernel => some ⟨mem, kernel, rest⟩
        | _, _ => none
      else none
    | _ => none

section Ticks

variable {mem mem' : Memory} {slot : Nat} {tr : List (Exchange (ByParty Party Answer))}

/-- There is no client in this slot. -/
def Memory.EmptyAt (mem : Memory) (slot : Nat) : Prop := ∀ c, mem.clients[slot]? ≠ some (some c)

theorem sweepSlot_empty (h : mem.EmptyAt slot) : sweepSlot mem slot = .ret mem := by
  unfold sweepSlot
  split
  · rename_i c hc
    exact absurd hc (h c)
  · rfl

/-- A tick adds no client. -/
theorem emptyAt_sweepSlot {i : Nat} (run : (sweepSlot mem slot).Runs tr mem')
    (h : mem.EmptyAt i) : mem'.EmptyAt i := by
  unfold sweepSlot at run
  split at run
  · rename_i c _
    cases hlive : mem.heap c with
    | none =>
        simp only [hlive] at run
        exact run.elim
    | some st =>
        simp only [hlive] at run
        rw [Prog.runs_bind] at run
        obtain ⟨res, t₁, t₂, rfl, -, run⟩ := run
        cases res with
        | some st' =>
            obtain ⟨-, rfl⟩ := run
            exact h
        | none =>
            obtain ⟨-, rfl⟩ := run
            intro d hd
            have hd : (mem.clients.set st.slot none)[i]? = some (some d) := hd
            rw [List.getElem?_set] at hd
            split at hd
            · split at hd <;> cases hd
            · exact h d hd
  · obtain ⟨-, rfl⟩ := run
    exact h

/-- Passing over empty slots does nothing. -/
theorem sweepSlots_of_sublist {slots all : List Nat} (sub : slots.Sublist all) (nodup : all.Nodup)
    (empty : ∀ i ∈ all, i ∉ slots → mem.EmptyAt i)
    (run : (slots.foldlM sweepSlot mem).Runs tr mem') :
    (all.foldlM sweepSlot mem).Runs tr mem' := by
  induction sub generalizing mem tr with
  | slnil => exact run
  | @cons slots all slot sub ih =>
      obtain ⟨hnot, nodup⟩ := List.nodup_cons.mp nodup
      have here := empty slot List.mem_cons_self fun h => hnot (sub.subset h)
      rw [List.foldlM_cons, sweepSlot_empty here]
      exact ih nodup (fun i hi => empty i (List.mem_cons_of_mem _ hi)) run
  | @cons_cons slots all slot sub ih =>
      obtain ⟨hnot, nodup⟩ := List.nodup_cons.mp nodup
      rw [List.foldlM_cons, Prog.runs_bind] at run ⊢
      obtain ⟨mem₁, t₁, t₂, rfl, first, rest⟩ := run
      refine ⟨mem₁, t₁, t₂, rfl, first, ih nodup (fun i hi hslots => ?_) rest⟩
      refine emptyAt_sweepSlot first (empty i (List.mem_cons_of_mem _ hi) fun h => ?_)
      obtain rfl | h := List.mem_cons.mp h
      · exact hnot hi
      · exact hslots h

theorem handleTimerEvent_of_sweeps
    (run : ((List.range maxClients).foldlM sweepSlot mem).Runs tr mem') :
    (handleTimerEvent mem).Runs (⟨(.proxy, .readTimer), true⟩ :: tr) mem' := by
  unfold handleTimerEvent
  generalize List.range maxClients = slots at run ⊢
  exact ⟨true, tr, rfl, run⟩

theorem emptyAt_of_onlySlots {slots : List Nat} (h : onlySlots slots mem.clients = true) {i : Nat}
    (hi : i ∉ slots) : mem.EmptyAt i := by
  intro c hc
  have := List.all_eq_true.mp h (some c, i) (List.mem_zipIdx_iff_getElem?.mpr hc)
  simp [hi] at this

end Ticks

theorem World.step_of_exec {w w' : World} {cmd : Cmd} (h : w.exec cmd = some w') :
    World.Step w w' := by
  cases cmd with
  | wait events =>
      simp only [exec] at h
      split at h
      · rename_i hok
        cases h
        exact .wait hok.1 hok.2
      · cases h
  | handle rounds tr =>
      simp only [exec] at h
      split at h
      · cases h
      · rename_i e rest hbatch
        split at h
        · rename_i mem kernel hmem hkernel
          cases h
          exact .handle hbatch (Prog.runs_of_replay hmem) hkernel
        · cases h
  | tick slots tr =>
      simp only [exec] at h
      split at h
      · rename_i fd events client rest hbatch
        split at h
        · rename_i hslots
          split at h
          · rename_i mem kernel hmem hkernel
            cases h
            have sweeps := sweepSlots_of_sublist hslots.1 List.nodup_range
              (fun i _ hi => emptyAt_of_onlySlots hslots.2 hi) (Prog.runs_of_replay hmem)
            have run := handleTimerEvent_of_sweeps sweeps
            exact .handle hbatch (show (handleEvent 0 w.mem _ events).Runs _ mem from run) hkernel
          · cases h
        · cases h
      · cases h

/-- Perform a step that meets `C`. -/
def World.execIf (C : World → World → Bool) (w : World) (cmd : Cmd) : Option World :=
  (w.exec cmd).filter (C w)

/-- A successful script is a run whose steps meet `C`. -/
theorem World.limit_of_script {C : World → World → Bool} {w w' : World} {script : List Cmd}
    (h : (proxy.limit fun w w' => C w w' = true).Reachable w)
    (hscript : script.foldlM (World.execIf C) w = some w') :
    (proxy.limit fun w w' => C w w' = true).Reachable w' := by
  induction script generalizing w with
  | nil =>
      cases hscript
      exact h
  | cons cmd script ih =>
      rw [List.foldlM_cons] at hscript
      obtain ⟨w₁, hfirst, hrest⟩ := Option.bind_eq_some_iff.mp hscript
      obtain ⟨hexec, hC⟩ := Option.filter_eq_some_iff.mp hfirst
      exact ih (h.next ⟨step_of_exec hexec, hC⟩) hrest

/-- A successful script and one more command: a run and its last step. -/
theorem World.limit_step_of_script {C P : World → World → Bool} {w₀ : World} (script : List Cmd)
    (cmd : Cmd) (h : (proxy.limit fun w w' => C w w' = true).Reachable w₀)
    (hscript : ((script.foldlM (World.execIf C) w₀).bind fun w =>
      (World.execIf C w cmd).map (P w)) = some true) :
    ∃ w w', (proxy.limit fun w w' => C w w' = true).Reachable w ∧
      (proxy.limit fun w w' => C w w' = true).step w w' ∧ P w w' = true := by
  obtain ⟨w, hw, hrest⟩ := Option.bind_eq_some_iff.mp hscript
  obtain ⟨w', hlast, hP⟩ := Option.map_eq_some_iff.mp hrest
  obtain ⟨hexec, hC⟩ := Option.filter_eq_some_iff.mp hlast
  exact ⟨w, w', limit_of_script h hw, ⟨step_of_exec hexec, hC⟩, hP⟩

/-- A successful script is a run. -/
theorem World.reachable_of_script {w w' : World} {script : List Cmd} (h : proxy.Reachable w)
    (hscript : script.foldlM World.exec w = some w') : proxy.Reachable w' := by
  induction script generalizing w with
  | nil =>
      cases hscript
      exact h
  | cons cmd script ih =>
      rw [List.foldlM_cons] at hscript
      obtain ⟨w₁, hfirst, hrest⟩ := Option.bind_eq_some_iff.mp hscript
      exact ih (h.next (step_of_exec hfirst)) hrest

/-- The descriptors 3, 4 and 5 for the listener, epoll and the timer. -/
theorem World.booted : (World.boot 3 4 5).Booted :=
  ⟨3, 4, 5, by decide, by decide, by decide, by decide, rfl⟩

/-- A call for client `c` and its result. -/
def onBehalf (c : ClientId) (call : Call) (r : Answer call) : Exchange (ByParty Party Answer) :=
  ⟨(.client c, call), r⟩

/-- The listener accepts client `c` on descriptor `fd`. -/
def acceptScript (c : ClientId) (fd : Fd) : List Cmd :=
  [.wait [⟨3, ⟨true, false⟩, some ⟨.listener, none⟩⟩],
    .handle 2 [onBehalf c .accept (.conn fd), onBehalf c .malloc true, onBehalf c .time (0 : Int),
      onBehalf c .malloc true, onBehalf c .malloc true, onBehalf c .malloc true,
      onBehalf c (.epollAdd .client fd ⟨true, false⟩ (some .client)) true,
      onBehalf (c + 1) .accept .again]]

/-- The request of client `c` arrives in one piece and is accepted, and the
connection to its target is started. -/
def requestScript (c : ClientId) (fd target : Fd) (request host : Bytes) (port : Nat) : List Cmd :=
  [.wait [⟨fd, ⟨true, false⟩, some ⟨.client, some c⟩⟩],
    .handle 0 [onBehalf c (.recv .client fd maxBufferSize) (.data request),
      onBehalf c (.hasValidAuth request) true, onBehalf c (.gethostbyname host) (some 1),
      onBehalf c .socket (some target), onBehalf c (.connect target 1 port) .inProgress,
      onBehalf c .malloc true,
      onBehalf c (.epollAdd .target target ⟨false, true⟩ (some .target)) true]]

/-- An event of client `c` finds the connection to its target complete; `reply` is
what is sent to the client then. -/
def completeCmd (c : ClientId) (fd target : Fd) (reply : List (Exchange (ByParty Party Answer))) :
    Cmd :=
  .handle 0 ([onBehalf c (.getsockopt target) (.code 0)] ++ reply ++
    [onBehalf c .malloc true, onBehalf c (.epollMod .client fd ⟨true, true⟩ (some .client)) true,
      onBehalf c .malloc true,
      onBehalf c (.epollMod .target target ⟨true, true⟩ (some .target)) true])

/-- The 200 reply, accepted in full. -/
def establishedReply (c : ClientId) (fd : Fd) : Exchange (ByParty Party Answer) :=
  onBehalf c (.send .client fd connectionEstablished .plain) (.sent connectionEstablished.length)

end SimpleProxy
