import SimpleProxy.Logic.Steps

/-!
# Reclaiming clients

An idle client goes in two ticks: the first expires it, the next one releases it.
In between the loop handles whatever arrives, and nothing of it touches the
client.
-/

namespace SimpleProxy.Theorems.Reclaim

open Interact CString

variable {w w' : World} {c : ClientId} {st : ClientState}

/-- The client was expired, or released already. -/
def Leaving (c : ClientId) (w : World) : Prop :=
  c < w.mem.nextId ∧ ∀ st, w.mem.heap c = some st → st.expired = true

/-- The tick finds the client expired, or idle for 10 seconds. -/
def FindsIdle (w w' : World) (c : ClientId) (st : ClientState) : Prop :=
  st.expired = true ∨
    ∃ now : Int, (⟨.time, now⟩ : Io) ∈ w.newHistory w' c ∧ 10 ≤ now - st.lastActive

/-- A released client does not come back. -/
theorem released_step (reach : proxy.Reachable w) (step : World.Step w w')
    (born : c < w.mem.nextId) (gone : w.mem.heap c = none) : w'.mem.heap c = none := by
  cases step.client (Registry.reachable reach) c with
  | rest heap => exact heap.trans gone
  | born unborn => exact absurd born (Nat.not_lt.mpr unborn)
  | event _ _ live =>
      rw [gone] at live
      cases live
  | tick live =>
      rw [gone] at live
      cases live

theorem leaving_step (reach : proxy.Reachable w) (step : World.Step w w') (leaving : Leaving c w) :
    Leaving c w' := by
  obtain ⟨hborn, hexpired⟩ := leaving
  have reg := Registry.reachable reach
  refine ⟨(nextId_kept (c + 1)).step hborn step, ?_⟩
  intro st' live'
  cases hc : w.mem.heap c with
  | some st =>
      rcases step.of_expired reg hc (hexpired st hc) with ⟨heap, -⟩ | ⟨-, gone⟩
      · rw [live'] at heap
        cases heap
        exact hexpired st' hc
      · rw [live'] at gone
        cases gone
  | none =>
      rw [released_step reach step hborn hc] at live'
      cases live'

/-- After a tick that found the client idle it is on its way out. -/
theorem leaving_of_tick (reach : proxy.Reachable w) (step : World.Step w w') (ticks : w.Ticks w')
    (live : w.mem.heap c = some st) (idle : FindsIdle w w' c st) : Leaving c w' := by
  have reg := Registry.reachable reach
  refine ⟨(nextId_kept (c + 1)).step (reg.born live) step, ?_⟩
  intro st' live'
  obtain ⟨tr, ticked, history⟩ := step.ticked reg ticks live
  have calls := step.newHistory_eq history
  rw [live'] at ticked
  unfold FindsIdle at idle
  rw [calls] at idle
  cases ticked with
  | active recent notExpired =>
      rcases idle with expired | ⟨now, hnow, stale⟩
      · rw [notExpired] at expired
        cases expired
      · cases List.mem_singleton.mp hnow
        omega
  | silenced => rfl
  | expired => rfl

/-- **Reclaim.** If a successful tick finds a registered client expired or idle for
10 seconds, the client is released and out of the registry after the next
successful tick, whatever happens in between. From the step that expires it
until then no event changes its state or makes a call for it. -/
theorem reclaimed :
    (∀ w₀ w₁ w₂ w₃ c st, proxy.Reachable w₀ → World.Step w₀ w₁ → w₀.Ticks w₁ →
      w₀.mem.heap c = some st → FindsIdle w₀ w₁ c st → Relation.ReflTransGen World.Step w₁ w₂ →
      World.Step w₂ w₃ → w₂.Ticks w₃ → w₃.mem.heap c = none ∧ some c ∉ w₃.mem.clients) ∧
    (∀ w w' c st, proxy.Reachable w → World.Step w w' → w.mem.heap c = some st →
      st.expired = true →
      (w'.mem.heap c = some st ∧ w'.kernel.history c = w.kernel.history c) ∨
        (w.Ticks w' ∧ w'.mem.heap c = none)) := by
  refine ⟨?_, fun w w' c st reach step => step.of_expired (Registry.reachable reach)⟩
  intro w₀ w₁ w₂ w₃ c st reach step ticks live idle run step' ticks'
  have between : proxy.Reachable w₂ ∧ Leaving c w₂ := by
    clear step' ticks'
    induction run with
    | refl => exact ⟨reach.next step, leaving_of_tick reach step ticks live idle⟩
    | tail _ hlast ih =>
        obtain ⟨reach', leaving⟩ := ih
        exact ⟨reach'.next hlast, leaving_step reach' hlast leaving⟩
  obtain ⟨reach', leaving⟩ := between
  have gone : w₃.mem.heap c = none := by
    cases hc : w₂.mem.heap c with
    | some st' =>
        obtain ⟨tr, ticked, -⟩ := step'.ticked (Registry.reachable reach') ticks' hc
        exact ticked.of_expired (leaving.2 st' hc)
    | none => exact released_step reach' step' leaving.1 hc
  refine ⟨gone, ?_⟩
  intro hmem
  obtain ⟨slot, hslot⟩ := List.getElem?_of_mem hmem
  obtain ⟨st', live', -⟩ := (Registry.reachable (reach'.next step')).slots slot c hslot
  rw [gone] at live'
  cases live'

end SimpleProxy.Theorems.Reclaim
