import SimpleProxy.Logic.Interest
import SimpleProxy.Theorems.Lifetime
import SimpleProxy.Theorems.Tunnel

/-!
# Expired clients and the interest set

`timeout_callback` takes the descriptors of an idle client out of the interest
set only when it has both; `handle_closing` takes out whichever it has. A client
that expires while it has one descriptor stays registered, and epoll goes on
reporting it until the next tick.
-/

namespace SimpleProxy.Theorems.Silence

open Interact CString Lifetime Tunnel

variable {w w' : World} {c : ClientId} {st st' : ClientState} {ev : ClientEvent} {tr : History}

/-- `P` of every registered client. -/
def allClients (mem : Memory) (P : ClientId → ClientState → Bool) : Bool :=
  mem.clients.all fun entry => entry.all fun c => (mem.heap c).all (P c)

theorem allClients_live {P : ClientId → ClientState → Bool} (reg : Registry w.mem)
    (h : allClients w.mem P = true) (live : w.mem.heap c = some st) : P c st = true := by
  have entry := List.mem_of_getElem? (reg.entries c st live)
  have := List.all_eq_true.mp h _ entry
  simpa [live] using this

/-- Exactly one of the two descriptors is open. -/
def halfOpen (st : ClientState) : Bool := (st.clientFd == -1) != (st.targetFd == -1)

/-- The clock read for the client in this step is 10 seconds past its last
activity. -/
def readsStale (w w' : World) (c : ClientId) (st : ClientState) : Bool :=
  (w.newHistory w' c).any fun
    | ⟨.time, now⟩ => 10 ≤ (now : Int) - st.lastActive
    | _ => false

/-- No tick finds a client idle that has one descriptor only. -/
def ExpiresWhole (w w' : World) : Bool :=
  !(w.newCalls w').any TraceEntry.readsTimer ||
    allClients w.mem fun c st => st.expired || !halfOpen st || !readsStale w w' c st

/-- No number the kernel hands out stands in a field of an expired client. -/
def NumbersFree (w w' : World) : Bool :=
  (w.newCalls w').all fun entry =>
    match entry.io.fdEffect with
    | .opens fd => allClients w.mem fun _ st =>
        !st.expired || (st.clientFd ≠ fd && st.targetFd ≠ fd)
    | _ => true

/-- `EPOLL_CTL_DEL` succeeds on registered descriptors. -/
def DelsSucceed (w w' : World) : Bool := w.kernel.delsSucceed (w.newCalls w')

def ExpiresSilently (w w' : World) : Bool :=
  DelsSucceed w w' && (ExpiresWhole w w' && NumbersFree w w')

/-- What an expired client holds stays out of the interest set. -/
theorem stays_silent (reach : proxy.Reachable w) (step : World.Step w w')
    (free : NumbersFree w w' = true) (live : w.mem.heap c = some st) (expired : st.expired = true)
    {side : Side} (silent : w.kernel.interest (st.fd side) = none) :
    w'.kernel.interest (st.fd side) = none := by
  apply Classical.byContradiction
  intro watched
  rcases step.interest watched with before | ⟨entry, hmem, heff⟩
  · exact before silent
  · have free := List.all_eq_true.mp free entry hmem
    rw [heff] at free
    have := allClients_live (Registry.reachable reach) free live
    cases side <;> simp [expired, ClientState.fd] at this

/-- -1 is not a descriptor. -/
theorem unregistered_of_negative (reach : proxy.Reachable w) : w.kernel.interest (-1) = none := by
  apply Classical.byContradiction
  intro watched
  have wf : w.kernel.Wf := by
    have watched := watched_reachable reach 0
    cases hc : w.mem.heap 0 with
    | none =>
        rw [hc] at watched
        exact watched.1
    | some st =>
        rw [hc] at watched
        exact watched.1
  exact absurd (wf.nonneg (-1) (wf.watched (-1) watched)) (by decide)

/-- A descriptor that a tick takes out of the interest set is out after it: a tick
adds nothing. -/
theorem deleted_silent (step : World.Step w w') (ticks : w.Ticks w')
    (works : DelsSucceed w w' = true) {side : Side} {fd : Fd} {ok : Bool}
    (deleted : (⟨.epollDel side fd, ok⟩ : Io) ∈ w.newHistory w' c) :
    w'.kernel.interest fd = none := by
  obtain ⟨k₁, read, sweeps⟩ := step.sweeps ticks
  have adds : w.kernel.Adds (fun entry => entry.io.adds? = none) w'.kernel := by
    refine Kernel.Adds.trans (read.adds.mono ?_) sweeps.adds
    intro entry h
    rw [List.mem_singleton.mp h.2]
    rfl
  obtain ⟨entry, hentry, hio⟩ := List.mem_filterMap.mp deleted
  have del : entry.io = ⟨.epollDel side fd, ok⟩ := by
    split at hio
    · exact Option.some.inj hio
    · cases hio
  refine Kernel.run_unregistered step.replay works ?_ ⟨entry, hentry, del⟩
  intro entry' hentry'
  rw [adds.newCalls entry' hentry']
  simp

/-- A client that a tick finds idle with one descriptor missing has none at all. -/
theorem bare_of_whole (reg : Registry w.mem) (ticks : w.Ticks w')
    (whole : ExpiresWhole w w' = true) (live : w.mem.heap c = some st)
    (notExpired : st.expired = false) (half : st.clientFd = -1 ∨ st.targetFd = -1)
    (stale : readsStale w w' c st = true) (side : Side) : st.fd side = -1 := by
  obtain ⟨entry, hentry, -, hread⟩ := ticks
  unfold ExpiresWhole at whole
  rw [List.any_eq_true.mpr ⟨entry, hentry, hread⟩] at whole
  have hwhole := allClients_live reg whole live
  rw [notExpired, stale, Bool.not_true, Bool.or_false, Bool.false_or] at hwhole
  unfold halfOpen at hwhole
  rcases half with hfd | hfd <;> cases side <;> simp_all [ClientState.fd]

/-- A tick that expires a client leaves none of its descriptors registered. -/
theorem ticked_silent (reach : proxy.Reachable w) (step : World.Step w w') (ticks : w.Ticks w')
    (works : DelsSucceed w w' = true) (whole : ExpiresWhole w w' = true)
    (live : w.mem.heap c = some st) (notExpired : st.expired = false)
    (live' : w'.mem.heap c = some st') (expired : st'.expired = true) (side : Side) :
    w'.kernel.interest (st'.fd side) = none := by
  have reg := Registry.reachable reach
  obtain ⟨tr, ticked, history⟩ := step.ticked reg ticks live
  have calls := step.newHistory_eq history
  rw [live'] at ticked
  cases ticked with
  | active =>
      rw [notExpired] at expired
      cases expired
  | @silenced now stale _ _ _ ok₁ ok₂ =>
      have out := @deleted_silent _ _ c step ticks works
      rw [calls] at out
      cases side with
      | client => exact out (List.mem_cons_of_mem _ List.mem_cons_self)
      | target => exact out (List.mem_cons_of_mem _ (List.mem_cons_of_mem _ List.mem_cons_self))
  | @expired now stale _ half =>
      have stale' : readsStale w w' c st = true := by
        unfold readsStale
        rw [calls]
        simpa using stale
      have absent := bare_of_whole reg ticks whole live notExpired half stale' side
      have absent' : ClientState.fd { st with expired := true } side = -1 := by
        rw [← absent]
        cases side <;> rfl
      rw [absent']
      exact unregistered_of_negative (reach.next step)

/-- **Silence.** Assume that `EPOLL_CTL_DEL` succeeds on registered descriptors. In
every run in which no tick finds a client idle while it has one descriptor only,
and the kernel hands out no number that stands in a field of an expired client,
no descriptor of an expired client is in the interest set. -/
theorem expired_silent
    (reach : (proxy.limit fun w w' => ExpiresSilently w w' = true).Reachable w)
    (live : w.mem.heap c = some st) (expired : st.expired = true) (side : Side) :
    w.kernel.interest (st.fd side) = none := by
  revert live expired side
  refine System.invariant (fun w => ∀ {c st}, w.mem.heap c = some st → st.expired = true →
    ∀ side, w.kernel.interest (st.fd side) = none) ?_ ?_ reach
  · intro w ⟨serverSock, epollFd, timerFd, _, _, _, _, hw⟩ c st live
    rw [hw] at live
    cases live
  · intro w w' reach silent ⟨step, safe⟩ c st' live' expired side
    have reach := System.limit_reachable reach
    have reg := Registry.reachable reach
    obtain ⟨works, safe⟩ := Bool.and_eq_true_iff.mp safe
    obtain ⟨whole, free⟩ := Bool.and_eq_true_iff.mp safe
    have stays : w.mem.heap c = some st' → w'.kernel.interest (st'.fd side) = none :=
      fun live => stays_silent reach step free live expired (silent live expired side)
    cases hc : w.mem.heap c with
    | none =>
        -- a new client is not expired
        obtain ⟨fd, now, slot, rfl⟩ := step.fresh reg hc live'
        cases expired
    | some st =>
        cases hexpired : st.expired with
        | true =>
            -- an expired client stays as it is until it is freed
            rcases step.of_expired reg hc hexpired with ⟨heap, -⟩ | ⟨-, gone⟩
            · exact stays (by rw [hc, ← heap, live'])
            · rw [gone] at live'
              cases live'
        | false =>
            rcases step.ticks_or c with ticks | ⟨heap, -⟩ | unborn |
                ⟨_, _, _, _, _, _, _, live₀, moves, ok, heap, -⟩
            -- only a tick expires a client; the other cases leave it as it was
            · exact ticked_silent reach step ticks works whole hc hexpired live' expired side
            · exact stays (heap.symm.trans live')
            · exact absurd (reg.born hc) (Nat.not_lt.mpr unborn)
            · obtain rfl := Option.some.inj (hc.symm.trans live₀)
              obtain rfl := Option.some.inj (heap.symm.trans live')
              rw [moves.expires ok hexpired expired side]
              exact unregistered_of_negative (reach.next step)

/-- A client waits for its connection to complete for 100 seconds: both of its
descriptors are taken out. -/
def silenceScript : List Cmd :=
  acceptScript 0 6 ++ requestScript 0 6 7 connectRequest [104] 443 ++
    idleScript 100 [] [onBehalf 0 (.epollDel .client 6) true, onBehalf 0 (.epollDel .target 7) true]

theorem expired_silent_connecting :
    ∃ w st, silenceScript.foldlM (World.execIf ExpiresSilently) (World.boot 3 4 5) = some w ∧
      w.mem.heap 0 = some st ∧ st.expired = true ∧
      w.kernel.interest (st.fd .client) = none := by
  have facts : ((silenceScript.foldlM (World.execIf ExpiresSilently) (World.boot 3 4 5)).map
      fun w => (w.mem.heap 0).any ClientState.expired) = some true := by decide +kernel
  obtain ⟨w, hw, hfacts⟩ := Option.map_eq_some_iff.mp facts
  obtain ⟨st, hst, hexpired⟩ := (Option.any_eq_true _ _).mp hfacts
  exact ⟨w, st, hw, hst, hexpired,
    expired_silent (World.limit_of_script (.start World.booted) hw) hst hexpired .client⟩

/-- A client sends nothing for 100 seconds after it was accepted: it expires, and
stays registered. -/
theorem expired_silent_fails :
    ¬ ∀ w, (proxy.limit fun w w' => DelsSucceed w w' = true).Reachable w → ∀ c st,
      w.mem.heap c = some st → st.expired = true → ∀ side,
      w.kernel.interest (st.fd side) = none := by
  intro claim
  have facts : (((acceptScript 0 6 ++ idleScript 100 [] []).foldlM (World.execIf DelsSucceed)
      (World.boot 3 4 5)).map fun w => (w.mem.heap 0).any fun st =>
        st.expired && (w.kernel.interest (st.fd .client)).isSome) = some true := by decide +kernel
  obtain ⟨w, hw, hfacts⟩ := Option.map_eq_some_iff.mp facts
  obtain ⟨st, hst, hstate⟩ := (Option.any_eq_true _ _).mp hfacts
  obtain ⟨hexpired, hwatched⟩ := Bool.and_eq_true_iff.mp hstate
  rw [claim w (World.limit_of_script (.start World.booted) hw) 0 st hst hexpired .client]
    at hwatched
  cases hwatched

end SimpleProxy.Theorems.Silence
