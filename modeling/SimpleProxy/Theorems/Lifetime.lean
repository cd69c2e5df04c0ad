import SimpleProxy.Logic.Steps

/-!
# Events and released states

A client that was released is not watched any more, so a batch fetched later
holds none of its events. Within one batch it is different: the timer event
releases the clients that expired earlier, and an event fetched together with
it may still point to one of them. A client that expires with one descriptor
only is not even taken out of the interest set.
-/

namespace SimpleProxy.Theorems.Lifetime

open Interact CString

/-- Client and target events in the batch point to client states that exist. -/
def BatchLive (w : World) : Prop :=
  ∀ e ∈ w.batch, ∀ fdType c, e.data = some ⟨fdType, some c⟩ →
    fdType = .client ∨ fdType = .target → w.mem.heap c ≠ none

/-- The step does not read the timer in front of an event of an expired client. -/
def SweepSafe (w w' : World) : Bool :=
  !(w.newCalls w').any TraceEntry.readsTimer ||
    w'.batch.all fun e =>
      match e.data with
      | some ⟨_, some c⟩ => (w.mem.heap c).all fun st => !st.expired
      | _ => true

theorem batchLive_step {w w' : World} (reach : proxy.Reachable w) (h : BatchLive w)
    (hstep : World.Step w w') (safe : SweepSafe w w' = true) : BatchLive w' := by
  have reg := Registry.reachable reach
  intro e he fdType c data kind
  have step := hstep.client reg c
  cases hstep with
  | @wait events idle reported =>
      -- fetched now: its descriptor watches the client, so the client is live
      intro gone
      have gone : w.mem.heap c = none := gone
      exact (gone ▸ watched_reachable reach c).2 _ _ (reported_watches reported he data)
  | @handle e₀ rest rounds tr mem kernel next run allowed =>
      have before := h e (by rw [next]; exact List.mem_cons_of_mem _ he) fdType c data kind
      cases step with
      | rest heap => rwa [heap]
      | born unborn => exact absurd (reg.unborn c unborn) before
      | event _ _ _ _ _ heap =>
          rw [heap]
          exact Option.some_ne_none _
      | @tick st t live read ticked =>
          intro gone
          rw [gone] at ticked
          cases ticked with
          | released dead =>
              obtain ⟨entry, hentry, hread⟩ := read
              have hany := List.any_eq_true.mpr ⟨entry, hentry, hread⟩
              rw [SweepSafe, hany] at safe
              have := List.all_eq_true.mp safe e he
              simp [data, live, dead] at this

/-- **Released states.** In every run that never reads the timer in front of an
event of an expired client, no event is dispatched to a released state. -/
theorem dispatched_live {w : World}
    (h : (proxy.limit fun w w' => SweepSafe w w' = true).Reachable w) {e : EpollEvent}
    {rest : List EpollEvent} {fdType : EpollFdType} {c : ClientId} (next : w.batch = e :: rest)
    (data : e.data = some ⟨fdType, some c⟩) (kind : fdType = .client ∨ fdType = .target) :
    w.mem.heap c ≠ none := by
  refine System.invariant BatchLive ?_ ?_ h e (by rw [next]; exact List.mem_cons_self) fdType c
    data kind
  · rintro _ ⟨serverSock, epollFd, timerFd, -, -, -, -, rfl⟩ e he
    cases he
  · rintro w w' reach ih ⟨hstep, safe⟩
    exact batchLive_step (System.limit_reachable reach) ih hstep safe

/-- The timer fires at time `now`, together with `events`; the client on descriptor
`fd` has been idle since 0. -/
def idleScript (now : Int) (events : List EpollEvent)
    (calls : List (Exchange (ByParty Party Answer))) : List Cmd :=
  [.wait (⟨5, ⟨true, false⟩, some ⟨.timer, none⟩⟩ :: events),
    .tick [0] (onBehalf 0 .time now :: calls)]

/-- The client on descriptor 6 becomes readable. -/
def clientEvent : EpollEvent := ⟨6, ⟨true, false⟩, some ⟨.client, some 0⟩⟩

theorem dispatched_live_expired :
    ∃ w, (acceptScript 0 6 ++ idleScript 100 [clientEvent] []).foldlM (World.execIf SweepSafe)
      (World.boot 3 4 5) = some w ∧ w.mem.heap 0 ≠ none := by
  have facts : ((acceptScript 0 6 ++ idleScript 100 [clientEvent] []).foldlM
      (World.execIf SweepSafe) (World.boot 3 4 5)).map World.batch = some [clientEvent] := by
    decide +kernel
  obtain ⟨w, hw, hbatch⟩ := Option.map_eq_some_iff.mp facts
  exact ⟨w, hw,
    dispatched_live (World.limit_of_script (.start World.booted) hw) hbatch rfl (.inl rfl)⟩

/-- A client sends nothing for 100 seconds and expires; at the next tick its first
byte arrives, in the same batch. Its state is gone when the event's turn comes. -/
theorem dispatched_live_fails :
    ¬ ∀ w, proxy.Reachable w → ∀ e rest fdType c, w.batch = e :: rest →
      e.data = some ⟨fdType, some c⟩ → fdType = .client ∨ fdType = .target →
      w.mem.heap c ≠ none := by
  intro claim
  have facts : ((acceptScript 0 6 ++ idleScript 100 [] [] ++
      idleScript 101 [clientEvent] [onBehalf 0 (.close .client 6) ()]).foldlM World.exec
        (World.boot 3 4 5)).map (fun w => (w.batch, w.mem.heap 0)) = some ([clientEvent], none) := by
    decide +kernel
  obtain ⟨w, hw, hfacts⟩ := Option.map_eq_some_iff.mp facts
  obtain ⟨hbatch, hgone⟩ := Prod.mk.inj hfacts
  exact claim w (World.reachable_of_script (.start World.booted) hw) clientEvent [] .client 0 hbatch
    rfl (.inl rfl) hgone

end SimpleProxy.Theorems.Lifetime
