import SimpleProxy.Logic.Wakeups

/-!
# No client is forgotten

Epoll is the only thing that makes a client act. In a run in which every registration succeeds,
`epoll_wait` may at any time report to every client what its state waits for. Nobody looks at
the result of `register_forwarding_fds`: when it fails, the client goes on to forward, and what
its target sends is not read.
-/

namespace SimpleProxy.Theorems.Wakeups

open Interact CString

/-- No target is refused by epoll in this step, no registration changes in vain, and no
allocation fails. -/
def RegistersAll (w w' : World) : Bool :=
  (w.newCalls w').all fun entry => !entry.io.registerFailed

theorem allRegistered_reachable {w : World}
    (h : (proxy.limit fun w w' => RegistersAll w w' = true).Reachable w) :
    AllRegistered w.kernel := by
  refine System.invariant (fun w => AllRegistered w.kernel) ?_ ?_ h
  · rintro _ ⟨serverSock, epollFd, timerFd, -, -, -, -, rfl⟩
    simp [AllRegistered, World.boot]
  · rintro w w' - fine ⟨hstep, hadds⟩ entry hentry
    rw [hstep.trace_eq] at hentry
    obtain hentry | hentry := List.mem_append.mp hentry
    · exact fine entry hentry
    · simpa using List.all_eq_true.mp hadds entry hentry

/-- The event that tells client `c` about a side. -/
def eventFor (c : ClientId) (st : ClientState) (side : Side) (events : EpollMask) : EpollEvent :=
  ⟨st.fd side, events, some ⟨side.fdType, some c⟩⟩

/-- `epoll_wait` may report these events for a side of client `c`, and the handler for its state
is what they lead to. -/
structure Told (w : World) (c : ClientId) (st : ClientState) (side : Side) (events : EpollMask) :
    Prop where
  reported : World.Step w { w with batch := [eventFor c st side events] }
  handled : ∀ w', World.Step { w with batch := [eventFor c st side events] } w' →
    ∃ t st₁ again, Move ⟨side.fdType, events⟩ st t st₁ again ∧
      w.kernel.history c ++ t <+: w'.kernel.history c

/-- Every client that is not expired has the descriptors its state needs, and once the batch is
done it can be told of what it waits for. -/
structure Hears (w : World) : Prop where
  client : ∀ c st, w.mem.heap c = some st → st.expired = false → st.clientFd ≠ -1
  target : ∀ c st, w.mem.heap c = some st → st.expired = false → Targeted st.state = true →
    st.targetFd ≠ -1
  told : ∀ c st side, w.mem.heap c = some st → st.expired = false → st.fd side ≠ -1 →
    ∃ events, Waits st.state side events ∧ (w.batch = [] → Told w c st side events)

/-- A registered event can be reported. -/
theorem step_reported {w : World} (e : EpollEvent)
    (registered : w.kernel.interest e.fd = some ⟨e.events, e.data⟩) (idle : w.batch = []) :
    World.Step w { w with batch := [e] } := by
  refine .wait idle ?_
  have reports : w.kernel.reports e = true := by
    unfold Kernel.reports
    rw [registered]
    simp
  simp [Kernel.reportsAll, reports, maxEvents]

/-- What an event makes a client do begins with the handler for its state. -/
theorem Moves.first {ev : ClientEvent} {st st' : ClientState} {tr : History}
    (h : Moves ev st tr st') (active : st.expired = false) (open' : st.state ≠ .closed) :
    ∃ t st₁ again, Move ev st t st₁ again ∧ t <+: tr := by
  cases h with
  | ignored done =>
      rcases done with expired | closed
      · exact absurd (active.symm.trans expired) (by decide)
      · exact absurd closed open'
  | last _ move => exact ⟨tr, st', false, move, List.prefix_rfl⟩
  | again _ move _ => exact ⟨_, _, true, move, List.prefix_append _ _⟩

/-- A reported event is handled by its client. -/
theorem step_handled {w w' : World} {c : ClientId} {st : ClientState} {side : Side}
    {events : EpollMask} (live : w.mem.heap c = some st) (active : st.expired = false)
    (open' : st.state ≠ .closed)
    (step : World.Step { w with batch := [eventFor c st side events] } w') :
    ∃ t st₁ again, Move ⟨side.fdType, events⟩ st t st₁ again ∧
      w.kernel.history c ++ t <+: w'.kernel.history c := by
  cases step with
  | wait idle => cases idle
  | handle next run allowed =>
      obtain ⟨rfl, rfl⟩ := List.cons.inj next
      obtain ⟨d, hdata, handled⟩ := handleEvent_acts run allowed
      obtain rfl := Option.some.inj hdata
      generalize kind : side.fdType = t at handled
      cases handled with
      | client _ live₀ moves ran =>
          obtain rfl := Option.some.inj (live.symm.trans live₀)
          obtain ⟨t, st₁, again, move, ⟨rest, rfl⟩⟩ := Moves.first moves active open'
          refine ⟨t, st₁, again, move, rest, ?_⟩
          rw [ran.history, List.append_assoc]
      | timerFailed => cases side <;> cases kind
      | timer => cases side <;> cases kind
      | ignored => cases side <;> cases kind

/-- **Wakeups.** In every run in which no registration fails, every client that is not expired
can be told of what its state waits for. -/
theorem never_forgotten {w : World}
    (h : (proxy.limit fun w w' => RegistersAll w w' = true).Reachable w) : Hears w := by
  have attended : ∀ c st, w.mem.heap c = some st → st.expired = false →
      Attended c st w.kernel := fun _ _ =>
    attended_reachable (System.limit_reachable h) (allRegistered_reachable h)
  refine ⟨fun c st live active => (attended c st live active).client,
    fun c st live active => (attended c st live active).targeted,
    fun c st side live active hfd => ?_⟩
  obtain ⟨events, registered, waits⟩ := (attended c st live active).registered side hfd
  exact ⟨events, waits, fun idle =>
    ⟨step_reported (eventFor c st side events) registered idle,
      fun _ => step_handled live active waits.not_closed⟩⟩

/-- A client asks for port 80 of `h`. -/
def plainRequest : Bytes := bytes "GET / HTTP/1.0\r\nHost: h:80\r\n\r\n"

/-- The target of client 0 is connected, and `register_forwarding_fds` makes these calls. -/
def connectedScript (registered : List (Exchange (ByParty Party Answer))) : List Cmd :=
  acceptScript 0 6 ++ requestScript 0 6 7 plainRequest [104] 80 ++
    [.wait [⟨7, ⟨false, true⟩, some ⟨.target, some 0⟩⟩],
      .handle 0 (onBehalf 0 (.getsockopt 7) (.code 0) :: registered)]

theorem never_forgotten_connected :
    ∃ w, (connectedScript [onBehalf 0 .malloc true,
        onBehalf 0 (.epollMod .client 6 ⟨true, true⟩ (some .client)) true,
        onBehalf 0 .malloc true,
        onBehalf 0 (.epollMod .target 7 ⟨true, true⟩ (some .target)) true]).foldlM
      (World.execIf RegistersAll) (World.boot 3 4 5) = some w ∧ Hears w := by
  obtain ⟨w, hw⟩ := Option.isSome_iff_exists.mp (show ((connectedScript [onBehalf 0 .malloc true,
      onBehalf 0 (.epollMod .client 6 ⟨true, true⟩ (some .client)) true,
      onBehalf 0 .malloc true,
      onBehalf 0 (.epollMod .target 7 ⟨true, true⟩ (some .target)) true]).foldlM
    (World.execIf RegistersAll) (World.boot 3 4 5)).isSome = true by decide +kernel)
  exact ⟨w, hw, never_forgotten (World.limit_of_script (.start World.booted) hw)⟩

/-- There is no memory for the data of `register_forwarding_fds`, and the target is still
registered as it was to connect. -/
theorem never_forgotten_fails : ¬ ∀ w, proxy.Reachable w → Hears w := by
  intro claim
  have facts : ((connectedScript [onBehalf 0 .malloc false]).foldlM World.exec
      (World.boot 3 4 5)).map (fun w => ((w.mem.heap 0).map fun st =>
        (st.state, st.expired, st.targetFd), w.kernel.interest 7, w.batch)) =
      some (some (.forwarding, false, 7), some ⟨⟨false, true⟩, some ⟨.target, some 0⟩⟩, []) := by
    decide +kernel
  obtain ⟨w, hw, hfacts⟩ := Option.map_eq_some_iff.mp facts
  obtain ⟨hstate, hrest⟩ := Prod.mk.inj hfacts
  obtain ⟨hinterest, idle⟩ := Prod.mk.inj hrest
  obtain ⟨st, live, hst⟩ := Option.map_eq_some_iff.mp hstate
  obtain ⟨forwarding, hst⟩ := Prod.mk.inj hst
  obtain ⟨active, target⟩ := Prod.mk.inj hst
  obtain ⟨events, waits, told⟩ := (claim w
    (World.reachable_of_script (.start World.booted) hw)).told 0 st .target live active
      (by simp [ClientState.fd, target])
  rw [forwarding] at waits
  obtain rfl : events = ⟨true, true⟩ := waits
  -- to read what the target sent, epoll would have to report it
  cases (told idle).reported with
  | wait _ reported =>
      simp [Kernel.reportsAll, Kernel.reports, eventFor, ClientState.fd, target, hinterest]
        at reported
  | handle next => simp [idle] at next

end SimpleProxy.Theorems.Wakeups
