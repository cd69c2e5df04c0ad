import SimpleProxy.Logic.Progress
import SimpleProxy.Logic.Stages
import SimpleProxy.Theorems.Tunnel

/-!
# What a torn down session still held

`connection_forward` returns -1 as soon as both peers are marked closed, whatever
still waits in the two buffers. For sessions that only see orderly ends of
stream, this is exactly what is lost.
-/

namespace SimpleProxy.Theorems.Teardown

open Interact CString Tunnel

variable {st st' : ClientState} {ev : ClientEvent} {tr : History}

/-! ## The flags of a session -/

/-- No peer is marked closed before the relay starts, and at most one while it
runs. -/
structure FlagsOpen (st : ClientState) : Prop where
  early : st.state.value < 4 → ∀ side, st.closed side = false
  relay : st.state.value < 5 → ∃ side, st.closed side = false

/-- After a relay that returned 0 one peer is still open. -/
theorem FlagsOpen.relayed {result : Int}
    (run : (connectionForward ev.fdType ev.events st).Runs tr (result, st')) (ok : Admitted tr)
    (phase : st.state = .forwarding) (running : result = 0) : FlagsOpen st' := by
  obtain ⟨spec, hreturns, -⟩ := connectionForward_runs run ok
  refine ⟨fun hlt => ?_, fun _ => ?_⟩
  · rw [spec.state_eq, phase] at hlt
    exact absurd hlt (by decide)
  · have open' : ¬ (st'.clientClosed = true ∧ st'.targetClosed = true) :=
      fun both => hreturns.mpr both running
    cases hclient : st'.clientClosed with
    | false => exact ⟨.client, hclient⟩
    | true =>
        refine ⟨.target, Bool.eq_false_iff.mpr ?_⟩
        intro htarget
        exact open' ⟨hclient, htarget⟩

/-- Only the relay marks a peer closed. -/
theorem FlagsOpen.unrelayed {again : Bool} (flags : FlagsOpen st) (move : Move ev st tr st' again)
    (ok : Admitted tr) (phase : st.state ≠ .forwarding) : FlagsOpen st' := by
  have forward := move.value_le ok
  have same : ∀ side, st'.closed side = st.closed side := by
    intro side
    rw [move.frame phase]
    cases side <;> rfl
  have early : st'.state.value < 5 → st.state.value < 4 := by
    intro hlt
    have hne : st.state.value ≠ 4 := by
      intro hvalue
      apply phase
      cases hstate : st.state <;> rw [hstate] at hvalue <;> first | rfl | cases hvalue
    omega
  refine ⟨fun hlt side => ?_, fun hlt => ⟨.client, ?_⟩⟩
  · rw [same side]
    exact flags.early (by omega) side
  · rw [same .client]
    exact flags.early (early hlt) .client

theorem FlagsOpen.move {again : Bool} (flags : FlagsOpen st) (move : Move ev st tr st' again)
    (ok : Admitted tr) : FlagsOpen st' := by
  by_cases phase : st.state = .forwarding
  · obtain ⟨result, st₁, run, -, rfl⟩ := move.of_forwarding phase
    by_cases hresult : result = 0
    · rw [if_pos hresult]
      exact .relayed run ok phase hresult
    · rw [if_neg hresult]
      exact ⟨fun hlt => absurd hlt (by show ¬ 5 < 4; omega),
        fun hlt => absurd hlt (by show ¬ 5 < 5; omega)⟩
  · exact flags.unrelayed move ok phase

theorem flags_inv : SessionInv (fun st _ => FlagsOpen st) (fun _ => True) where
  weaken _ := trivial
  start := trivial
  refused _ := trivial
  born := by
    intro fd t res registered _
    cases registered with
    | created now =>
        exact ⟨fun _ side => by cases side <;> rfl, fun _ => ⟨.client, rfl⟩⟩
    | _ => trivial
  slot n flags := by
    refine ⟨fun hlt side => ?_, fun hlt => ?_⟩
    · rw [← flags.early hlt side]
      cases side <;> rfl
    · obtain ⟨side, hside⟩ := flags.relay hlt
      refine ⟨side, ?_⟩
      rw [← hside]
      cases side <;> rfl
  move flags _ move ok := flags.move move ok
  tick := by
    intro st t res h flags ticked _
    cases ticked with
    | active => exact flags
    | released => trivial
    | silenced => exact ⟨flags.early, flags.relay⟩
    | expired => exact ⟨flags.early, flags.relay⟩
  release _ _ _ := trivial

/-! ## The event that ends the relay -/

/-- A relaying client is moved to `CLOSING` by one event. -/
theorem moves_forwarding (h : Moves ev st tr st') (ok : Admitted tr)
    (forwarding : st.state = .forwarding) (closing : st'.state = .closing) :
    ∃ result st₁, (connectionForward ev.fdType ev.events st).Runs tr (result, st₁) ∧ result ≠ 0 ∧
      st' = { st₁ with state := .closing } := by
  cases h with
  | ignored =>
      rw [forwarding] at closing
      cases closing
  | last _ move =>
      obtain ⟨result, st₁, run, -, rfl⟩ := move.of_forwarding forwarding
      by_cases hresult : result = 0
      · have spec : TransferSpec st st₁ tr := (connectionForward_runs run ok).1
        rw [if_pos hresult, spec.state_eq, forwarding] at closing
        cases closing
      · exact ⟨result, st₁, run, hresult, if_neg hresult⟩
  | again _ move =>
      obtain ⟨_, _, _, hagain, _⟩ := move.of_forwarding forwarding
      cases hagain

/-- With one side closed, only the other one is open. -/
theorem open_unique {s side : Side} (closed : st.closed s.other = true)
    (open' : st.closed side = false) : s = side := by
  by_contra other
  rw [← Side.eq_other (Ne.symm other), open'] at closed
  cases closed

/-- In an orderly event that ends the relay, the side that was still open delivers
nothing, and only this side is sent to. -/
theorem ending_flows {fdType : EpollFdType} {events : EpollMask} {result : Int}
    (run : (connectionForward fdType events st).Runs tr (result, st')) (ended : result ≠ 0)
    (ok : Admitted tr) (orderly : Orderly tr) {side : Side} (open' : st.closed side = false) :
    st.closed side.other = true ∧ st'.inbox side = st.inbox side ∧
      accepted side tr ++ st'.inbox side.other = st.outbox side := by
  obtain ⟨spec, hreturns, -⟩ := connectionForward_runs run ok
  obtain ⟨hclient, htarget⟩ := hreturns.mp ended
  have both : ∀ s, st'.closed s = true := by
    intro s
    cases s <;> assumption
  obtain ⟨s, stages⟩ := connectionForward_stages run
  have one := stages.oneSided ok orderly
  have hother : st.closed s.other = true := by
    rw [← one.closedOther]
    exact both s.other
  -- so the event is for the side that was open
  obtain rfl := open_unique hother open'
  have silent : received s tr = [] := by
    rcases one.closed (both s) with before | silent
    · rw [open'] at before
      cases before
    · exact silent
  refine ⟨hother, ?_, ?_⟩
  · have flow := spec.flows s
    rw [one.accepted, silent, List.append_nil, List.nil_append] at flow
    exact flow
  · have flow := spec.flows s.other
    rw [Side.other_other, one.received, List.append_nil] at flow
    exact flow

/-- **Teardown.** When a relay that saw no errors is torn down, both buffers are
empty exactly if nothing was waiting from the side that was still open, and this
side accepted everything that waited for it in the event that closed it. -/
theorem drained_iff {w w' : World} (reach : proxy.Reachable w) (step : World.Step w w')
    {c : ClientId} (live : w.mem.heap c = some st) (forwarding : st.state = .forwarding)
    (live' : w'.mem.heap c = some st') (closing : st'.state = .closing)
    (orderly : Orderly (w'.kernel.history c)) :
    st'.requestBuffer = [] ∧ st'.responseBuffer = [] ↔
      ∀ side, st.closed side = false →
        st.inbox side = [] ∧ accepted side (w.newHistory w' c) = st.outbox side := by
  have reg := Registry.reachable reach
  have stays : st'.state = st.state → False := by
    intro same
    rw [closing, forwarding] at same
    cases same
  rcases step.ticks_or c with ticks | ⟨heap, -⟩ | unborn |
      ⟨e, fdType, st₀, _, tr, _, _, live₀, moves, ok, heap, history⟩
  -- neither a tick nor an event of another client ends the relay
  · obtain ⟨t, ticked, -⟩ := step.ticked reg ticks live
    rw [live'] at ticked
    exact (stays ticked.target.1).elim
  · rw [live', live] at heap
    cases heap
    exact (stays rfl).elim
  · exact absurd (reg.born live) (Nat.not_lt.mpr unborn)
  · obtain rfl := Option.some.inj (live.symm.trans live₀)
    obtain rfl := Option.some.inj (heap.symm.trans live')
    have calls := step.newHistory_eq history
    have orderly : Orderly tr := fun e he =>
      orderly e (history ▸ List.mem_append_right _ he)
    obtain ⟨result, st₁, run, ended, rfl⟩ := moves_forwarding moves ok forwarding closing
    have flags := (flags_inv.reachable reach c).2 st live
    -- the side that was open until now is the one that the event closed
    obtain ⟨side, open'⟩ := flags.relay (by rw [forwarding]; decide)
    obtain ⟨closed, hinbox, hflow⟩ := ending_flows run ended ok orderly open'
    have buffers : (st₁.requestBuffer = [] ∧ st₁.responseBuffer = []) ↔
        st₁.inbox side = [] ∧ st₁.inbox side.other = [] := by
      cases side
      · exact Iff.rfl
      · exact And.comm
    show st₁.requestBuffer = [] ∧ st₁.responseBuffer = [] ↔ _
    rw [buffers, hinbox, calls]
    constructor
    · rintro ⟨hnone, hdrained⟩ s hs
      obtain rfl := open_unique closed hs
      rw [hdrained, List.append_nil] at hflow
      exact ⟨hnone, hflow⟩
    · intro h
      obtain ⟨hnone, haccepted⟩ := h side open'
      rw [haccepted] at hflow
      exact ⟨hnone, List.append_right_eq_self.mp hflow⟩

/-- Client 0 was relaying, saw no errors and is closing now. -/
def endsRelay (w w' : World) : Bool :=
  (w.mem.heap 0).any (fun st => st.state = .forwarding) &&
    ((w'.mem.heap 0).any (fun st => st.state = .closing) &&
      (w'.kernel.history 0).all fun e => !e.fails)

theorem relay_of_endsRelay {w w' : World} (h : endsRelay w w' = true) :
    ∃ st st', w.mem.heap 0 = some st ∧ st.state = .forwarding ∧ w'.mem.heap 0 = some st' ∧
      st'.state = .closing ∧ Orderly (w'.kernel.history 0) := by
  obtain ⟨hbefore, h⟩ := Bool.and_eq_true_iff.mp h
  obtain ⟨hafter, horderly⟩ := Bool.and_eq_true_iff.mp h
  obtain ⟨st, live, forwarding⟩ := (Option.any_eq_true _ _).mp hbefore
  obtain ⟨st', live', closing⟩ := (Option.any_eq_true _ _).mp hafter
  refine ⟨st, st', live, of_decide_eq_true forwarding, live', of_decide_eq_true closing, ?_⟩
  intro e he
  simpa using List.all_eq_true.mp horderly e he

/-- An event of the client or of the target of a relay, and the calls made for it. -/
def relayScript (fd : Fd) (fdType : EpollFdType) (calls : List (Exchange (ByParty Party Answer))) :
    List Cmd :=
  [.wait [⟨fd, ⟨true, false⟩, some ⟨fdType, some 0⟩⟩], .handle 0 calls]

/-- The client sends a byte and ends its stream; the target takes the byte in the event that
ends its own. -/
theorem drained_iff_last :
    ∃ (w w' : World) (st st' : ClientState), w.mem.heap 0 = some st ∧ w'.mem.heap 0 = some st' ∧
      st.requestBuffer = [1] ∧
      (st'.requestBuffer = [] ∧ st'.responseBuffer = [] ↔
        ∀ side, st.closed side = false →
          st.inbox side = [] ∧ accepted side (w.newHistory w' 0) = st.outbox side) := by
  obtain ⟨w, w', reach, step, facts⟩ := World.limit_step_of_script (C := fun _ _ => true)
    (P := fun w w' => endsRelay w w' && (w.mem.heap 0).all fun st => st.requestBuffer = [1])
    (tunnelScript connectRequest ++
      relayScript 6 .client [onBehalf 0 (.recv .client 6 4096) (.data [1]),
        onBehalf 0 (.recv .client 6 4095) .again, onBehalf 0 .time (1 : Int)] ++
      relayScript 6 .client [onBehalf 0 (.recv .client 6 4095) .eof] ++
      [.wait [⟨7, ⟨true, true⟩, some ⟨.target, some 0⟩⟩]])
    (.handle 0 [onBehalf 0 (.send .target 7 [1] .noSignal) (.sent 1), onBehalf 0 .time (1 : Int),
      onBehalf 0 (.recv .target 7 4096) .eof]) (.start World.booted) (by decide +kernel)
  obtain ⟨ends, waits⟩ := Bool.and_eq_true_iff.mp facts
  obtain ⟨st, st', live, forwarding, live', closing, orderly⟩ := relay_of_endsRelay ends
  rw [live, Option.all_some] at waits
  exact ⟨w, w', st, st', live, live', of_decide_eq_true waits,
    drained_iff (System.limit_reachable reach) step.1 live forwarding live' closing orderly⟩

/-- The client ends its stream, a byte of the response arrives that the client does
not take, and the target ends its stream: the byte is dropped. -/
theorem drained_fails :
    ¬ ∀ w w', proxy.Reachable w → proxy.step w w' → ∀ c st st', w.mem.heap c = some st →
      st.state = .forwarding → w'.mem.heap c = some st' → st'.state = .closing →
      Orderly (w'.kernel.history c) → st'.requestBuffer = [] ∧ st'.responseBuffer = [] := by
  intro claim
  obtain ⟨w, w', reach, step, facts⟩ := World.limit_step_of_script (C := fun _ _ => true)
    (P := fun w w' => endsRelay w w' &&
      (w'.mem.heap 0).all fun st => st.responseBuffer ≠ [])
    (tunnelScript connectRequest ++
      relayScript 6 .client [onBehalf 0 (.recv .client 6 4096) .eof] ++
      relayScript 7 .target [onBehalf 0 (.recv .target 7 4096) (.data [1]),
        onBehalf 0 (.recv .target 7 4095) .again, onBehalf 0 .time (1 : Int)] ++
      [.wait [⟨7, ⟨true, false⟩, some ⟨.target, some 0⟩⟩]])
    (.handle 0 [onBehalf 0 (.recv .target 7 4095) .eof]) (.start World.booted) (by decide +kernel)
  obtain ⟨ends, pending⟩ := Bool.and_eq_true_iff.mp facts
  obtain ⟨st, st', live, forwarding, live', closing, orderly⟩ := relay_of_endsRelay ends
  have drained := claim w w' (System.limit_reachable reach) step.1 0 st st' live forwarding live'
    closing orderly
  rw [live', Option.all_some] at pending
  exact of_decide_eq_true pending drained.2

end SimpleProxy.Theorems.Teardown
