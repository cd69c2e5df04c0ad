import SimpleProxy.Logic.Kernel
import SimpleProxy.Logic.Lifecycle

/-!
# The loop, act by act

A step of `run_loop` handles one event, and handling it is a sequence of acts,
each on behalf of one client: a birth at the listener, a tick at the timer, the
moves of a session. `handle_acts` takes a step apart into acts; `Kept.reachable`
is the rule for what holds in every reachable world.
-/

namespace SimpleProxy

open Interact CString

/-- One round of the accept loop. -/
inductive Birth (mem : Memory) (k : Kernel) : Memory → Kernel → Prop
  | refused {r : AcceptResult} {k' : Kernel} (none' : r = .again ∨ r = .error)
      (ran : k.Ran (.client mem.nextId) [⟨.accept, r⟩] k') :
      Birth mem k { mem with nextId := mem.nextId + 1 } k'
  | unregistered {fd : Fd} {tr : History} {mem' : Memory} {k' : Kernel}
      (failed : Registered fd tr none)
      -- no state was made, or it was freed again
      (left : mem' = { mem with nextId := mem.nextId + 1 } ∨
        mem' = { mem with nextId := mem.nextId + 1 }.free mem.nextId)
      (ran : k.Ran (.client mem.nextId) (⟨.accept, .conn fd⟩ :: tr) k') : Birth mem k mem' k'
  | turnedAway {fd : Fd} {tr t : History} {st : ClientState} {k' : Kernel}
      (created : Registered fd tr (some st))
      (full : stateRegistryAdd mem.clients mem.nextId = none) (release : Released st t)
      (ran : k.Ran (.client mem.nextId) (⟨.accept, .conn fd⟩ :: tr ++ t) k') :
      Birth mem k ({ mem with nextId := mem.nextId + 1 }.free mem.nextId) k'
  | registered {fd : Fd} {tr : History} {st : ClientState} {k' : Kernel} {slot : Nat}
      {clients : List (Option ClientId)} (created : Registered fd tr (some st))
      (added : stateRegistryAdd mem.clients mem.nextId = some (slot, clients))
      (ran : k.Ran (.client mem.nextId) (⟨.accept, .conn fd⟩ :: tr) k') :
      Birth mem k
        ({ mem with nextId := mem.nextId + 1, clients := clients }.write mem.nextId
          { st with slot := slot }) k'

inductive Births : Memory → Kernel → Memory → Kernel → Prop
  | last {mem mem' : Memory} {k k' : Kernel} (birth : Birth mem k mem' k') : Births mem k mem' k'
  | more {mem mem₁ mem' : Memory} {k k₁ k' : Kernel} (birth : Birth mem k mem₁ k₁)
      (rest : Births mem₁ k₁ mem' k') : Births mem k mem' k'

/-- `timeout_callback` for one slot. -/
inductive Sweep (slot : Nat) (mem : Memory) (k : Kernel) : Memory → Kernel → Prop
  | empty (none' : ∀ c, mem.clients[slot]? ≠ some (some c)) : Sweep slot mem k mem k
  | kept {c : ClientId} {st st' : ClientState} {tr : History} {k' : Kernel}
      (entry : mem.clients[slot]? = some (some c)) (live : mem.heap c = some st)
      (ticked : Ticked st tr (some st')) (ran : k.Ran (.client c) tr k') :
      Sweep slot mem k (mem.write c st') k'
  | freed {c : ClientId} {st : ClientState} {tr : History} {k' : Kernel}
      (entry : mem.clients[slot]? = some (some c)) (live : mem.heap c = some st)
      (ticked : Ticked st tr none) (ran : k.Ran (.client c) tr k') :
      Sweep slot mem k
        ({ mem with clients := stateRegistryRemove mem.clients st.slot }.free c) k'

inductive Sweeps : List Nat → Memory → Kernel → Memory → Kernel → Prop
  | done {mem : Memory} {k : Kernel} : Sweeps [] mem k mem k
  | slot {slot : Nat} {slots : List Nat} {mem mem₁ mem' : Memory} {k k₁ k' : Kernel}
      (sweep : Sweep slot mem k mem₁ k₁) (rest : Sweeps slots mem₁ k₁ mem' k') :
      Sweeps (slot :: slots) mem k mem' k'

/-- Handling one event, by the kind of its data. -/
inductive Handled : EpollData → EpollMask → Memory → Kernel → Memory → Kernel → Prop
  | listener {events : EpollMask} {mem mem' : Memory} {k k' : Kernel}
      (births : Births mem k mem' k') : Handled ⟨.listener, none⟩ events mem k mem' k'
  | timerFailed {events : EpollMask} {client : Option ClientId} {mem : Memory} {k k' : Kernel}
      (read : k.Ran .proxy [⟨.readTimer, false⟩] k') : Handled ⟨.timer, client⟩ events mem k mem k'
  | timer {events : EpollMask} {client : Option ClientId} {mem mem' : Memory} {k k₁ k' : Kernel}
      (read : k.Ran .proxy [⟨.readTimer, true⟩] k₁)
      (sweeps : Sweeps (List.range maxClients) mem k₁ mem' k') :
      Handled ⟨.timer, client⟩ events mem k mem' k'
  | client {fdType : EpollFdType} {events : EpollMask} {c : ClientId} {mem : Memory} {k k' : Kernel}
      {st st' : ClientState} {tr : History} (kind : fdType = .client ∨ fdType = .target)
      (live : mem.heap c = some st) (moves : Moves ⟨fdType, events⟩ st tr st')
      (ran : k.Ran (.client c) tr k') : Handled ⟨fdType, some c⟩ events mem k (mem.write c st') k'
  | ignored {events : EpollMask} {c : ClientId} {mem : Memory} {k : Kernel} :
      Handled ⟨.listener, some c⟩ events mem k mem k

variable {mem mem' : Memory} {k k' : Kernel} {tr : List (Exchange (ByParty Party Answer))}

theorem Birth.nextId_eq (h : Birth mem k mem' k') : mem'.nextId = mem.nextId + 1 := by
  cases h with
  | unregistered _ left => rcases left with rfl | rfl <;> rfl
  | _ => rfl

/-- The run of a party, in the middle of a run of the system. -/
theorem ran_of_by {α : Type} {who : Party} {p : Proc α} {a : α}
    (h : (p.by who).Runs tr a) (hk : Kernel.env.run k tr = some k') :
    ∃ t, p.Runs t a ∧ k.Ran who t k' := by
  obtain ⟨t, rfl, hrun⟩ := Prog.runs_by.mp h
  exact ⟨t, hrun, hk⟩

theorem handleListenerEvent_acts {rounds : Nat} (h : (handleListenerEvent rounds mem).Runs tr mem')
    (hk : Kernel.env.run k tr = some k') : Births mem k mem' k' := by
  induction rounds generalizing mem k tr with
  | zero => exact h.elim
  | succ rounds ih =>
      rw [handleListenerEvent, Prog.runs_perform_bind] at h
      obtain ⟨r, rest, rfl, h⟩ := h
      obtain ⟨k₁, hstep, hrest⟩ := Option.bind_eq_some_iff.mp hk
      have accept : k.Ran (.client mem.nextId) [⟨.accept, r⟩] k₁ :=
        Kernel.ran_cons.mpr ⟨k₁, hstep, Kernel.ran_nil.mpr rfl⟩
      cases r with
      | again =>
          obtain ⟨rfl, rfl⟩ := h
          obtain rfl : k₁ = k' := Option.some.inj hrest
          exact .last (.refused (.inl rfl) accept)
      | error =>
          obtain ⟨rfl, rfl⟩ := h
          obtain rfl : k₁ = k' := Option.some.inj hrest
          exact .last (.refused (.inr rfl) accept)
      | conn fd =>
          dsimp only at h
          rw [Prog.runs_bind] at h
          obtain ⟨⟨res, mem₁⟩, t₁, t₂, rfl, hregister, h⟩ := h
          obtain ⟨t, rfl, registered, hmade, hnone⟩ := epollRegisterClient_runs hregister
          rw [Env.run_append, Option.bind_eq_some_iff] at hrest
          obtain ⟨k₂, hk₁, hk₂⟩ := hrest
          have both : k.Ran (.client mem.nextId) (⟨.accept, .conn fd⟩ :: t) k₂ :=
            Kernel.ran_append.mpr ⟨k₁, accept, hk₁⟩
          cases res with
          | none =>
              obtain ⟨rfl, rfl⟩ := h
              obtain rfl : k₂ = k' := Option.some.inj hk₂
              exact .last (.unregistered registered (hnone rfl) both)
          | some st =>
              obtain rfl := hmade st rfl
              dsimp only at h
              -- without a free slot the new client is freed again
              cases hadd : stateRegistryAdd mem.clients mem.nextId with
              | none =>
                  simp only [Memory.clients_write, hadd] at h
                  obtain ⟨_, t', _, rfl, hfree, rfl, rfl⟩ := runs_by_bind h
                  rw [List.append_nil] at hk₂
                  rw [Memory.free_write]
                  exact .last (.turnedAway registered hadd (freeClientState_runs hfree)
                    (Kernel.ran_append.mpr ⟨k₂, both, hk₂⟩))
              | some added =>
                  obtain ⟨slot, clients⟩ := added
                  simp only [Memory.clients_write, hadd] at h
                  have slotted := Memory.write_write
                    { mem with nextId := mem.nextId + 1, clients := clients } mem.nextId st
                    { st with slot := slot }
                  exact .more (.registered registered hadd both) (ih (slotted ▸ h) hk₂)

theorem sweepSlot_acts {slot : Nat} (h : (sweepSlot mem slot).Runs tr mem')
    (hk : Kernel.env.run k tr = some k') : Sweep slot mem k mem' k' := by
  unfold sweepSlot at h
  split at h
  · rename_i c hentry
    cases hlive : mem.heap c with
    | none =>
        simp only [hlive] at h
        exact h.elim
    | some st =>
        simp only [hlive] at h
        rw [Prog.runs_bind] at h
        obtain ⟨res, t₁, t₂, rfl, hrun, h⟩ := h
        cases res with
        | some st' =>
            obtain ⟨rfl, rfl⟩ := h
            rw [List.append_nil] at hk
            obtain ⟨t, hrun, hran⟩ := ran_of_by hrun hk
            exact .kept hentry hlive (timeoutCallback_runs hrun) hran
        | none =>
            obtain ⟨rfl, rfl⟩ := h
            rw [List.append_nil] at hk
            obtain ⟨t, hrun, hran⟩ := ran_of_by hrun hk
            exact .freed hentry hlive (timeoutCallback_runs hrun) hran
  · rename_i hnone
    obtain ⟨rfl, rfl⟩ := h
    cases hk
    exact .empty fun c hc => hnone c hc

theorem sweepSlots_acts {slots : List Nat} (h : (slots.foldlM sweepSlot mem).Runs tr mem')
    (hk : Kernel.env.run k tr = some k') : Sweeps slots mem k mem' k' := by
  induction slots generalizing mem k tr with
  | nil =>
      obtain ⟨rfl, rfl⟩ := h
      cases hk
      exact .done
  | cons slot slots ih =>
      rw [List.foldlM_cons, Prog.runs_bind] at h
      obtain ⟨mem₁, t₁, t₂, rfl, hfirst, hrest⟩ := h
      rw [Env.run_append, Option.bind_eq_some_iff] at hk
      obtain ⟨k₁, hk₁, hk₂⟩ := hk
      exact .slot (sweepSlot_acts hfirst hk₁) (ih hrest hk₂)

theorem handleTimerEvent_acts {events : EpollMask} {client : Option ClientId}
    (h : (handleTimerEvent mem).Runs tr mem') (hk : Kernel.env.run k tr = some k') :
    Handled ⟨.timer, client⟩ events mem k mem' k' := by
  unfold handleTimerEvent at h
  generalize hslots : List.range maxClients = slots at h
  obtain ⟨ok, rest, rfl, h⟩ := h
  obtain ⟨k₁, hstep, hrest⟩ := Option.bind_eq_some_iff.mp hk
  have read : k.Ran .proxy [⟨.readTimer, ok⟩] k₁ :=
    Kernel.ran_cons.mpr ⟨k₁, hstep, Kernel.ran_nil.mpr rfl⟩
  cases ok with
  | false =>
      obtain ⟨rfl, rfl⟩ := h
      cases hrest
      exact .timerFailed read
  | true => exact .timer read (hslots ▸ sweepSlots_acts h hrest)

theorem handleClientEvent_acts {fdType : EpollFdType} {client : Option ClientId}
    {events : EpollMask} (kind : fdType = .client ∨ fdType = .target)
    (h : (handleClientEvent mem ⟨fdType, client⟩ events).Runs tr mem')
    (hk : Kernel.env.run k tr = some k') : Handled ⟨fdType, client⟩ events mem k mem' k' := by
  rw [handleClientEvent, if_pos kind] at h
  cases client with
  | none => exact h.elim
  | some c =>
      cases hlive : mem.heap c with
      | none =>
          simp only [hlive] at h
          exact h.elim
      | some st =>
          simp only [hlive] at h
          rw [Prog.runs_bind] at h
          obtain ⟨st', t₁, t₂, rfl, hrun, rfl, rfl⟩ := h
          rw [List.append_nil] at hk
          obtain ⟨t, hrun, hran⟩ := ran_of_by hrun hk
          exact .client kind hlive (handleClient_moves hrun) hran

/-- Handling an event is a sequence of acts. -/
theorem handleEvent_acts {rounds : Nat} {data : Option EpollData} {events : EpollMask}
    (h : (handleEvent rounds mem data events).Runs tr mem') (hk : Kernel.env.run k tr = some k') :
    ∃ d, data = some d ∧ Handled d events mem k mem' k' := by
  cases data with
  | none => exact h.elim
  | some d =>
      obtain ⟨fdType, client⟩ := d
      refine ⟨_, rfl, ?_⟩
      cases fdType with
      | listener =>
          cases client with
          | none => exact .listener (handleListenerEvent_acts h hk)
          | some c =>
              obtain ⟨rfl, rfl⟩ := h
              cases hk
              exact .ignored
      | timer => exact handleTimerEvent_acts h hk
      | client => exact handleClientEvent_acts (.inl rfl) h hk
      | target => exact handleClientEvent_acts (.inr rfl) h hk

/-! ## What holds in every reachable world -/

/-- `J` is kept by every act. -/
structure Kept (J : Memory → Kernel → Prop) : Prop where
  birth : ∀ {mem k mem' k'}, J mem k → Birth mem k mem' k' → J mem' k'
  readTimer : ∀ {mem k ok k'}, J mem k → k.Ran .proxy [⟨.readTimer, ok⟩] k' → J mem k'
  sweep : ∀ {slot mem k mem' k'}, J mem k → Sweep slot mem k mem' k' → J mem' k'
  event : ∀ {mem k c st ev tr st' k'}, J mem k → mem.heap c = some st → Moves ev st tr st' →
    k.Ran (.client c) tr k' → J (mem.write c st') k'

namespace Kept

variable {J : Memory → Kernel → Prop}

theorem births (kept : Kept J) (hJ : J mem k) (h : Births mem k mem' k') : J mem' k' := by
  induction h with
  | last birth => exact kept.birth hJ birth
  | more birth _ ih => exact ih (kept.birth hJ birth)

theorem sweeps (kept : Kept J) {slots : List Nat} (hJ : J mem k) (h : Sweeps slots mem k mem' k') :
    J mem' k' := by
  induction h with
  | done => exact hJ
  | slot sweep _ ih => exact ih (kept.sweep hJ sweep)

theorem handled (kept : Kept J) {data : EpollData} {events : EpollMask} (hJ : J mem k)
    (h : Handled data events mem k mem' k') : J mem' k' := by
  cases h with
  | listener births => exact kept.births hJ births
  | timerFailed read => exact kept.readTimer hJ read
  | timer read sweeps => exact kept.sweeps (kept.readTimer hJ read) sweeps
  | client _ live moves ran => exact kept.event hJ live moves ran
  | ignored => exact hJ

theorem step (kept : Kept J) {w w' : World} (hJ : J w.mem w.kernel) (hstep : World.Step w w') :
    J w'.mem w'.kernel := by
  cases hstep with
  | wait _ _ => exact hJ
  | @handle _ _ _ _ _ _ _ run allowed =>
      obtain ⟨_, _, h⟩ := handleEvent_acts run allowed
      exact kept.handled hJ h

theorem reachable (kept : Kept J) (hinit : ∀ w : World, w.Booted → J w.mem w.kernel) {w : World}
    (h : proxy.Reachable w) : J w.mem w.kernel :=
  System.invariant (fun w => J w.mem w.kernel) hinit (fun _ _ _ => kept.step) h

end Kept

end SimpleProxy
