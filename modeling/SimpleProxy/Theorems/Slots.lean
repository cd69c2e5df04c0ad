import SimpleProxy.Logic.Registry

/-!
# Slots

`clients[]` and the live client states are in bijection, between two events and
also between two callbacks of a timer event. A state is live from
`create_client_state` to `free_client_state`; one that found no slot, or could not
be registered with epoll, was freed before the event that made it ended. The
timer event stops nowhere: an entry whose state was released already, which
`sweepSlot` does not survive, is never met.
-/

namespace SimpleProxy.Theorems.Slots

open Interact CString

/-- An entry is a live state that knows its slot, and every live state has exactly
one entry. -/
structure InBijection (mem : Memory) : Prop where
  entry : ∀ i c, mem.clients[i]? = some (some c) → ∃ st, mem.heap c = some st ∧ st.slot = i
  unique : ∀ c st, mem.heap c = some st → ∃! i : Nat, mem.clients[i]? = some (some c)

theorem inBijection {mem : Memory} (reg : Registry mem) : InBijection mem := by
  refine ⟨reg.slots, fun c st live => ⟨st.slot, reg.entries c st live, fun i hi => ?_⟩⟩
  obtain ⟨s, hs, hslot⟩ := reg.slots i c hi
  rw [← hslot, Option.some.inj (hs.symm.trans live)]

variable {mem : Memory} {k k₁ : Kernel} {slots : List Nat}

theorem timeoutCallback_total {E : Env Answer Kernel} (st : ClientState) :
    (timeoutCallback st).Total E k := by
  have release : ∀ k, (freeClientState st).Total E k := by
    intro k
    unfold freeClientState
    split <;> split <;> simp [Prog.Total, bind, Prog.andThen, Prog.perform]
  rw [timeoutCallback, Prog.total_perform_bind]
  intro now k₁ _
  split
  · trivial
  · split
    · exact Prog.Total.bind (release k₁) fun _ _ => trivial
    · split
      · exact fun _ _ _ _ _ _ => trivial
      · trivial

/-- The callback of one slot does not meet a released state. -/
theorem sweepSlot_total (reg : Registry mem) (slot : Nat) :
    (sweepSlot mem slot).Total Kernel.env k := by
  unfold sweepSlot
  split
  · rename_i c hentry
    obtain ⟨st, live, -⟩ := reg.slots slot c hentry
    rw [live]
    refine (Prog.total_bind _ _).mpr
      ⟨Prog.total_by (timeoutCallback_total st), Prog.wp_of_runs fun _ res _ _ _ => ?_⟩
    cases res <;> trivial
  · trivial

theorem sweepSlots_total (reg : Registry mem) (slots : List Nat) :
    (slots.foldlM sweepSlot mem).Total Kernel.env k := by
  induction slots generalizing mem k with
  | nil => trivial
  | cons slot slots ih =>
      rw [List.foldlM_cons]
      refine (Prog.total_bind _ _).mpr
        ⟨sweepSlot_total reg slot, Prog.wp_of_runs fun _ _ _ run hk => ih ?_⟩
      exact reg.sweep (sweepSlot_acts run hk)

/-- **Slots.** In every reachable world the registry and the live states are in
bijection; a timer event meets no state that was released already; and the
bijection also holds between any two of its callbacks, so each callback clears
the entry of its own state. -/
theorem registry_in_bijection {w : World} (h : proxy.Reachable w) :
    InBijection w.mem ∧ (handleTimerEvent w.mem).Total Kernel.env w.kernel ∧
      ∀ (slots : List Nat) tr mem k, (slots.foldlM sweepSlot w.mem).Runs tr mem →
        Kernel.env.run w.kernel (⟨(.proxy, .readTimer), true⟩ :: tr) = some k →
        InBijection mem := by
  have reg := Registry.reachable h
  refine ⟨inBijection reg, ?_, fun slots tr mem k run hk => ?_⟩
  · unfold handleTimerEvent
    generalize List.range maxClients = slots
    intro ok k _
    cases ok with
    | true => exact sweepSlots_total reg slots
    | false => trivial
  · obtain ⟨k₁, -, hk⟩ := Option.bind_eq_some_iff.mp hk
    exact inBijection (Registry.kept.sweeps reg (sweepSlots_acts run hk))

theorem registry_in_bijection_accepted :
    ∃ w, (acceptScript 0 6).foldlM World.exec (World.boot 3 4 5) = some w ∧ InBijection w.mem := by
  obtain ⟨w, hw⟩ := Option.isSome_iff_exists.mp (show ((acceptScript 0 6).foldlM World.exec
    (World.boot 3 4 5)).isSome = true by decide +kernel)
  have reach := World.reachable_of_script (.start World.booted) hw
  exact ⟨w, hw, (registry_in_bijection reach).1⟩

end SimpleProxy.Theorems.Slots
