import SimpleProxy.Logic.Progress

/-!
# Phases only move forward

The handlers of a session call `handle_client` from inside `handle_client`, and
every one of them may jump to `CLOSING`. The order of the states is the measure
that keeps this in hand: over a run, within a dispatch, and for the calls that
may be made for a client only once.
-/

namespace SimpleProxy.Theorems.Phases

open Interact CString

/-- An accepted request is a call of `has_valid_auth`. -/
theorem grants_length_le (h : History) : (grants h).length ≤ callsOf .authenticating h := by
  unfold grants callsOf
  rw [List.length_filterMap_eq_countP]
  apply List.countP_mono_left
  intro ⟨c, r⟩ _ hgranted
  cases c <;> first | rfl | cases hgranted

/-- **Phases.** The state of a client never goes back, neither from one event to
the next nor within an event. `handle_client` satisfies its recursive
equation, a handler depends on the nested calls only in states after its own,
and every dispatch returns. A state between two events is not one of the two
transient ones, and `has_valid_auth`, `parse_host_port` (called after each
accepted check) and `connection_connect` (which starts with `gethostbyname`)
are called at most once for a client. -/
theorem phases_progress :
    (∀ w w', proxy.Reachable w → World.Step w w' → ∀ c st st', w.mem.heap c = some st →
      w'.mem.heap c = some st' → st.state.value ≤ st'.state.value) ∧
    (∀ st ev tr st', Admitted tr → (handleClient st ev).Runs tr st' →
      st.state.value ≤ st'.state.value) ∧
    (∀ st ev, handleClient st ev =
      if st.expired then return st else stateHandlers handleClient st.state st ev) ∧
    (∀ next next' : Handler, ∀ st ev,
      (∀ st₁, st.state.value < st₁.state.value → next st₁ ev = next' st₁ ev) →
      stateHandlers next st.state st ev = stateHandlers next' st.state st ev) ∧
    (∀ st ev h, (handleClient st ev).Total anyAnswers h) ∧
    (∀ w, proxy.Reachable w → ∀ c st, w.mem.heap c = some st →
      st.state ≠ .authenticating ∧ st.state ≠ .initializeConnection) ∧
    (∀ w, proxy.Reachable w → ∀ c, callsOf .authenticating (w.kernel.history c) ≤ 1 ∧
      (grants (w.kernel.history c)).length ≤ 1 ∧
      callsOf .initializeConnection (w.kernel.history c) ≤ 1) := by
  refine ⟨?_, ?_, handleClient_eq, ?_, handleClient_total, ?_, ?_⟩
  · intro w w' reach step c st st' live live'
    exact step.value_le reach live live'
  · intro st ev tr st' ok run
    exact (handleClient_moves run).value_le ok
  · intro next next' st ev same
    apply stateHandlers_congr
    intro st₁ hlt _
    exact same st₁ hlt
  · intro w reach c st live
    have lasts := settled_reachable reach live
    constructor
    · intro hstate
      rw [hstate] at lasts
      cases lasts
    · intro hstate
      rw [hstate] at lasts
      cases lasts
  · intro w reach c
    have once := (callsOnce_inv.reachable reach c).1
    have checks := once .authenticating rfl
    exact ⟨checks, Nat.le_trans (grants_length_le _) checks, once .initializeConnection rfl⟩

end SimpleProxy.Theorems.Phases
