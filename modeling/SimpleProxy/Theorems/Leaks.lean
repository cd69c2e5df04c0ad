import SimpleProxy.Logic.Leaks

/-!
# No descriptor is leaked

In every run, whatever fails in it: an open descriptor is one of the three of the loop, or one
of the two in the state of a live client, so there are never more than two for each slot of the
registry besides those three.
-/

namespace SimpleProxy.Theorems.Leaks

open Interact CString

variable {w : World}

/-- The descriptors that the clients in the registry can have. -/
def clientFds (mem : Memory) : List Fd :=
  mem.clients.flatMap fun entry =>
    match entry.bind mem.heap with
    | none => []
    | some st => [st.clientFd, st.targetFd]

theorem length_clientFds (mem : Memory) :
    (clientFds mem).length ≤ 2 * mem.clients.length := by
  unfold clientFds
  induction mem.clients with
  | nil => exact Nat.le_refl 0
  | cons entry clients ih =>
      rw [List.flatMap_cons, List.length_append, List.length_cons]
      have one : (match entry.bind mem.heap with
          | none => []
          | some st => [st.clientFd, st.targetFd]).length ≤ 2 := by
        split <;> simp
      omega

/-- The fields of a live client are among them. -/
theorem mem_clientFds {mem : Memory} (reg : Registry mem) {c : ClientId} {st : ClientState}
    (live : mem.heap c = some st) (side : Side) : st.fd side ∈ clientFds mem := by
  refine List.mem_flatMap.mpr ⟨some c, List.mem_of_getElem? (reg.entries c st live), ?_⟩
  rw [Option.bind_some, live]
  cases side with
  | client => exact List.mem_cons_self
  | target => exact List.mem_cons_of_mem _ List.mem_cons_self

/-- The loop has these descriptors at most. -/
def LoopFds (fds : List Fd) (k : Kernel) : Prop := ∀ fd, k.fds fd = some .proxy → fd ∈ fds

/-- No client opens a descriptor for the loop. -/
theorem LoopFds.client {fds : List Fd} {k k' : Kernel} {c : ClientId} {tr : History}
    (h : LoopFds fds k) (ran : k.Ran (.client c) tr k') : LoopFds fds k' :=
  fun fd hopen => h fd (ran.open_other (by simp) hopen)

/-- Three descriptors were opened before the loop, and none in it. -/
theorem loopFds_kept : Kept fun _ k => ∃ fds, fds.length = 3 ∧ LoopFds fds k where
  birth := by
    rintro mem k mem' k' ⟨fds, three, before⟩ birth
    refine ⟨fds, three, ?_⟩
    cases birth with
    | refused _ ran => exact before.client ran
    | unregistered _ _ ran => exact before.client ran
    | turnedAway _ _ _ ran => exact before.client ran
    | registered _ _ ran => exact before.client ran
  readTimer := by
    rintro mem k ok k' ⟨fds, three, before⟩ ran
    exact ⟨fds, three, fun fd hopen => before fd (ran.open' hopen)⟩
  sweep := by
    rintro slot mem k mem' k' ⟨fds, three, before⟩ sweep
    refine ⟨fds, three, ?_⟩
    cases sweep with
    | empty => exact before
    | kept _ _ _ ran => exact before.client ran
    | freed _ _ _ ran => exact before.client ran
  event := by
    rintro mem k c st ev tr st' k' ⟨fds, three, before⟩ _ _ ran
    exact ⟨fds, three, before.client ran⟩

theorem loopFds_boot {w : World} (h : w.Booted) : ∃ fds, fds.length = 3 ∧ LoopFds fds w.kernel := by
  obtain ⟨serverSock, epollFd, timerFd, -, -, -, -, rfl⟩ := h
  refine ⟨[serverSock, epollFd, timerFd], rfl, fun fd hopen => ?_⟩
  simp only [World.boot] at hopen
  split at hopen
  · rename_i known
    simpa using known
  · cases hopen

/-- Nothing is open that nobody can close any more. -/
structure NoLeak (w : World) : Prop where
  owned : ∀ fd c, w.kernel.fds fd = some (.client c) →
    ∃ st side, w.mem.heap c = some st ∧ st.fd side = fd
  bounded : ∀ fds : List Fd, fds.Nodup → (∀ fd ∈ fds, w.kernel.fds fd ≠ none) →
    fds.length ≤ 3 + 2 * maxClients

/-- **Leaks.** In every reachable state, whatever failed on the way, every descriptor that was
opened for a client is in a field of its live state or closed, and of those of the loop and its
clients at most three and two for each slot are open; the standard streams and the connection to
the database are not among them. -/
theorem none_leaked (w : World) (h : proxy.Reachable w) : NoLeak w := by
  have owned : ∀ fd c, w.kernel.fds fd = some (.client c) →
      ∃ st side, w.mem.heap c = some st ∧ st.fd side = fd := by
    intro fd c hopen
    have held := held_reachable h c
    cases live : w.mem.heap c with
    | none =>
        rw [live] at held
        exact absurd hopen (held.2 fd)
    | some st =>
        rw [live] at held
        obtain ⟨side, hside⟩ := held.2.2 fd hopen
        exact ⟨st, side, rfl, hside⟩
  refine ⟨owned, fun fds nodup opened => ?_⟩
  have reg := Registry.reachable h
  obtain ⟨loop, three, known⟩ := loopFds_kept.reachable (fun _ => loopFds_boot) h
  -- every one of them is one of the loop's, or in the registry
  have sub : fds ⊆ loop ++ clientFds w.mem := by
    intro fd hfd
    cases hopen : w.kernel.fds fd with
    | none => exact absurd hopen (opened fd hfd)
    | some who =>
        cases who with
        | proxy => exact List.mem_append_left _ (known fd hopen)
        | client c =>
            obtain ⟨st, side, live, rfl⟩ := owned fd c hopen
            exact List.mem_append_right _ (mem_clientFds reg live side)
  have count := (nodup.subperm sub).length_le
  rw [List.length_append, three] at count
  have most := length_clientFds w.mem
  rw [reg.length] at most
  omega

/-- A client that was accepted, and the target it asked for. -/
theorem none_leaked_plain :
    ∃ w, (acceptScript 0 6 ++ requestScript 0 6 7 (bytes "GET / HTTP/1.0\r\nHost: h:80\r\n\r\n")
      [104] 80).foldlM World.exec (World.boot 3 4 5) = some w ∧ NoLeak w := by
  obtain ⟨w, hw⟩ := Option.isSome_iff_exists.mp (show ((acceptScript 0 6 ++ requestScript 0 6 7
    (bytes "GET / HTTP/1.0\r\nHost: h:80\r\n\r\n") [104] 80).foldlM World.exec
      (World.boot 3 4 5)).isSome = true by decide +kernel)
  exact ⟨w, hw, none_leaked w (World.reachable_of_script (.start World.booted) hw)⟩

end SimpleProxy.Theorems.Leaks
