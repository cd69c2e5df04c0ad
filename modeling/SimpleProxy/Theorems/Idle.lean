import SimpleProxy.Logic.Activity
import SimpleProxy.Theorems.Lifetime
import SimpleProxy.Theorems.Tunnel

/-!
# Idle clients

`timeout_callback` expires a client whose `last_active` is 10 seconds old. Only
the transfers of the relay refresh it, so a client can expire right after it sent
a part of its request, or was sent a reply.
-/

namespace SimpleProxy.Theorems.Idle

open Interact CString Lifetime Tunnel

variable {c : ClientId} {st st' : ClientState} {tr : History}

/-- The clock was read. -/
def readsClock : Io → Option Int
  | ⟨.time, now⟩ => some now
  | _ => none

/-- A clock that never goes back; call number `n` of the record is made when it
shows `clock n`, and a call that reads it is told so. -/
structure Clocked (clock : Nat → Int) (trace : List TraceEntry) : Prop where
  forward : ∀ m n, m ≤ n → clock m ≤ clock n
  read : trace.zipIdx.all (fun (entry, n) => (readsClock entry.io).all (· = clock n)) = true

/-- The calls in a part of the record made for client `c`. -/
def callsFor (c : ClientId) (trace : List TraceEntry) : History :=
  trace.filterMap fun entry => if entry.who = .client c then some entry.io else none

/-- In call `io`, for client `c`, bytes moved; what stands before and after it in
the record. -/
structure Moved (trace : List TraceEntry) (c : ClientId) (before : List TraceEntry) (io : Io)
    (after : List TraceEntry) : Prop where
  entry : ∃ owner, trace = before ++ ⟨.client c, owner, io⟩ :: after
  moves : io.movesBytes = true

theorem Clocked.time {clock : Nat → Int} {trace before after : List TraceEntry} {who : Party}
    {owner : Option Party} {now : Int} (clocked : Clocked clock trace)
    (heq : trace = before ++ ⟨who, owner, ⟨.time, now⟩⟩ :: after) : clock before.length = now := by
  have hmem : ((⟨who, owner, ⟨.time, now⟩⟩ : TraceEntry), before.length) ∈ trace.zipIdx := by
    rw [List.mem_zipIdx_iff_getElem?, heq]
    simp
  have := List.all_eq_true.mp clocked.read _ hmem
  simpa [readsClock, eq_comm] using this

/-- A call of the history in the record. -/
theorem callsFor_split {trace : List TraceEntry} {h₁ h₂ : History} {io : Io}
    (heq : callsFor c trace = h₁ ++ io :: h₂) :
    ∃ before owner after, trace = before ++ ⟨.client c, owner, io⟩ :: after ∧
      callsFor c before = h₁ ∧ callsFor c after = h₂ := by
  obtain ⟨first, second, rfl, hfirst, hsecond⟩ := List.filterMap_eq_append_iff.mp heq
  obtain ⟨others, ⟨who, owner, io'⟩, after, rfl, hothers, hio, hafter⟩ :=
    List.filterMap_eq_cons_iff.mp hsecond
  split at hio
  · rename_i hwho
    cases hwho
    cases hio
    refine ⟨first ++ others, owner, after, by simp, ?_, hafter⟩
    rw [callsFor, List.filterMap_append, hfirst, List.filterMap_eq_nil_iff.mpr hothers,
      List.append_nil]
  · cases hio

/-- What the tick read, and what it found. -/
theorem stale_of_ticked {res : Option ClientState} {now : Int} (ticked : Ticked st tr res)
    (notExpired : st.expired = false) (live' : res = some st') (expired : st'.expired = true)
    (read : (⟨.time, now⟩ : Io) ∈ tr) :
    st'.lastActive ≤ now - 10 := by
  subst live'
  cases ticked with
  | active =>
      rw [notExpired] at expired
      cases expired
  | @silenced now' stale =>
      obtain rfl : now = now' := by simpa using read
      show st.lastActive ≤ now - 10
      omega
  | @expired now' stale =>
      obtain rfl : now = now' := by simpa using read
      show st.lastActive ≤ now - 10
      omega

/-- **Idle clients.** When a tick at time `now` expires a client, all the bytes of
its connections moved 10 seconds ago or earlier exactly if those did that are not
noted: bytes of the request, of a reply, or of a transfer that failed. -/
theorem idle_iff {w w' : World} (reach : proxy.Reachable w) (step : World.Step w w')
    (ticks : w.Ticks w') (live : w.mem.heap c = some st) (notExpired : st.expired = false)
    (live' : w'.mem.heap c = some st') (expired : st'.expired = true) {clock : Nat → Int}
    (clocked : Clocked clock w'.kernel.trace) {now : Int}
    (read : (⟨.time, now⟩ : Io) ∈ w.newHistory w' c) :
    (∀ before io after, Moved w'.kernel.trace c before io after →
      clock before.length ≤ now - 10) ↔
    ∀ before io after, Moved w'.kernel.trace c before io after →
      Unnoted (callsFor c before) io (callsFor c after) → clock before.length ≤ now - 10 := by
  constructor
  · intro idle before io after moved _
    exact idle before io after moved
  · intro idle before io after moved
    obtain ⟨t, ticked, history⟩ := step.ticked (Registry.reachable reach) ticks live
    have calls := step.newHistory_eq history
    have stale := stale_of_ticked ticked notExpired live' expired (calls ▸ read)
    -- the last reading of the clock that was noted
    obtain ⟨⟨h₁, h₂, heq, unnoted⟩, -⟩ := (activity_inv.reachable (reach.next step) c).2 st' live'
    obtain ⟨first, owner, second, htrace, rfl, rfl⟩ := callsFor_split heq
    have noted : clock first.length = st'.lastActive := clocked.time htrace
    obtain ⟨owner', hmoved⟩ := moved.entry
    -- the bytes moved after that reading, or not later than it
    rcases List.append_eq_append_iff.mp (htrace.symm.trans hmoved) with
      ⟨more, hbefore, hmore⟩ | ⟨more, hfirst, -⟩
    · cases more with
      | nil =>
          -- a reading of the clock moves nothing
          cases hmore
          cases moved.moves
      | cons entry more =>
          obtain ⟨rfl, rfl⟩ := List.cons.inj hmore
          apply idle before io after moved
          have hpast : callsFor c before =
              callsFor c first ++ [⟨.time, st'.lastActive⟩] ++ callsFor c more := by
            rw [hbefore]
            simp [callsFor]
          rw [hpast]
          refine unnoted _ io _ ?_ moved.moves
          simp [callsFor]
    · have hle : before.length ≤ first.length := by
        rw [hfirst, List.length_append]
        omega
      have := clocked.forward _ _ hle
      omega

/-- A tick expires client 0 at time `now`, and the record is in step with `clock`. -/
def expiresAt (clock : Nat → Int) (now : Int) (w w' : World) : Bool :=
  (w.newCalls w').any (fun entry => entry.who = .proxy && entry.readsTimer) &&
    (w.newHistory w' 0).any (fun io => readsClock io = some now) &&
    (w'.kernel.trace.zipIdx.all fun (entry, n) => (readsClock entry.io).all (· = clock n)) &&
    (w.mem.heap 0).any (fun st => !st.expired) && (w'.mem.heap 0).any ClientState.expired

/-- What `expiresAt` checks. -/
structure ExpiresAt (clock : Nat → Int) (now : Int) (w w' : World) (st st' : ClientState) :
    Prop where
  ticks : w.Ticks w'
  live : w.mem.heap 0 = some st
  notExpired : st.expired = false
  live' : w'.mem.heap 0 = some st'
  expired : st'.expired = true
  read : (⟨.time, now⟩ : Io) ∈ w.newHistory w' 0
  agrees : (w'.kernel.trace.zipIdx.all fun (entry, n) =>
    (readsClock entry.io).all (· = clock n)) = true

theorem of_expiresAt {clock : Nat → Int} {now : Int} {w w' : World}
    (h : expiresAt clock now w w' = true) : ∃ st st', ExpiresAt clock now w w' st st' := by
  obtain ⟨h, hexpired⟩ := Bool.and_eq_true_iff.mp h
  obtain ⟨h, hlive⟩ := Bool.and_eq_true_iff.mp h
  obtain ⟨h, agrees⟩ := Bool.and_eq_true_iff.mp h
  obtain ⟨hticks, hread⟩ := Bool.and_eq_true_iff.mp h
  obtain ⟨entry, hentry, hkind⟩ := List.any_eq_true.mp hticks
  obtain ⟨hproxy, hreads⟩ := Bool.and_eq_true_iff.mp hkind
  obtain ⟨⟨call, answer⟩, hio, htime⟩ := List.any_eq_true.mp hread
  obtain ⟨st, live, notExpired⟩ := (Option.any_eq_true _ _).mp hlive
  obtain ⟨st', live', expired⟩ := (Option.any_eq_true _ _).mp hexpired
  refine ⟨st, st', ⟨entry, hentry, of_decide_eq_true hproxy, hreads⟩, live,
    by simpa using notExpired, live', expired, ?_, agrees⟩
  have htime := of_decide_eq_true htime
  cases call <;> first | cases htime
  exact hio

/-- The clock shows `before` until call `n`, and `after` from then on. -/
def twoTimes (n : Nat) (before after : Int) : Nat → Int := fun i => if i < n then before else after

theorem twoTimes_forward {n : Nat} {before after : Int} (h : before ≤ after) (i j : Nat)
    (hij : i ≤ j) : twoTimes n before after i ≤ twoTimes n before after j := by
  unfold twoTimes
  split <;> split <;> omega

/-- A tunnel that relays a byte at time 0 is expired at time 100. -/
theorem idle_iff_relayed :
    ∃ w w' : World, w.Ticks w' ∧ received .client (w'.kernel.history 0) = connectRequest ++ [1] ∧
      ((∀ before io after, Moved w'.kernel.trace 0 before io after →
        twoTimes 24 0 100 before.length ≤ 100 - 10) ↔
      ∀ before io after, Moved w'.kernel.trace 0 before io after →
        Unnoted (callsFor 0 before) io (callsFor 0 after) →
        twoTimes 24 0 100 before.length ≤ 100 - 10) := by
  obtain ⟨w, w', reach, step, facts⟩ := World.limit_step_of_script (C := fun _ _ => true)
    (P := fun w w' => expiresAt (twoTimes 24 0 100) 100 w w' &&
      received .client (w'.kernel.history 0) = connectRequest ++ [1])
    (tunnelScript connectRequest ++ [.wait [clientEvent],
      .handle 0 [onBehalf 0 (.recv .client 6 4096) (.data [1]),
        onBehalf 0 (.recv .client 6 4095) .again, onBehalf 0 .time (0 : Int)],
      .wait [⟨5, ⟨true, false⟩, some ⟨.timer, none⟩⟩]])
    (.tick [0] [onBehalf 0 .time (100 : Int), onBehalf 0 (.epollDel .client 6) true,
      onBehalf 0 (.epollDel .target 7) true]) (.start World.booted) (by decide +kernel)
  obtain ⟨expires, moved⟩ := Bool.and_eq_true_iff.mp facts
  obtain ⟨st, st', h⟩ := of_expiresAt expires
  exact ⟨w, w', h.ticks, of_decide_eq_true moved, idle_iff (System.limit_reachable reach) step.1
    h.ticks h.live h.notExpired h.live' h.expired ⟨twoTimes_forward (by decide), h.agrees⟩ h.read⟩

/-- A client is accepted at time 0, sends the first byte of its request at time 10,
and is expired in the same second. -/
theorem idle_fails :
    ¬ ∀ w w', proxy.Reachable w → proxy.step w w' → w.Ticks w' → ∀ c st st',
      w.mem.heap c = some st → st.expired = false → w'.mem.heap c = some st' →
      st'.expired = true → ∀ clock, Clocked clock w'.kernel.trace → ∀ now : Int,
      (⟨.time, now⟩ : Io) ∈ w.newHistory w' c → ∀ before io after,
      Moved w'.kernel.trace c before io after → clock before.length ≤ now - 10 := by
  intro claim
  -- call 8 receives the byte
  obtain ⟨w, w', reach, step, facts⟩ := World.limit_step_of_script (C := fun _ _ => true)
    (P := fun w w' => expiresAt (twoTimes 8 0 10) 10 w w' && (w'.kernel.trace[8]?.any fun entry =>
      entry.who = .client 0 && entry.io.movesBytes))
    (acceptScript 0 6 ++ [.wait [clientEvent],
      .handle 0 [onBehalf 0 (.recv .client 6 4096) (.data [71])],
      .wait [⟨5, ⟨true, false⟩, some ⟨.timer, none⟩⟩]])
    (.tick [0] [onBehalf 0 .time (10 : Int)]) (.start World.booted) (by decide +kernel)
  obtain ⟨expires, hentry⟩ := Bool.and_eq_true_iff.mp facts
  obtain ⟨st, st', h⟩ := of_expiresAt expires
  obtain ⟨⟨who, owner, io⟩, hio, hmoved⟩ := (Option.any_eq_true _ _).mp hentry
  obtain ⟨hwho, hmoves⟩ := Bool.and_eq_true_iff.mp hmoved
  obtain ⟨hlength, hget⟩ := List.getElem?_eq_some_iff.mp hio
  have moved : Moved w'.kernel.trace 0 (w'.kernel.trace.take 8) io (w'.kernel.trace.drop 9) := by
    refine ⟨⟨owner, ?_⟩, hmoves⟩
    rw [← of_decide_eq_true hwho, ← hget, ← List.drop_eq_getElem_cons hlength,
      List.take_append_drop]
  have late := claim w w' (System.limit_reachable reach) step.1 h.ticks 0 st st' h.live h.notExpired
    h.live' h.expired _ ⟨twoTimes_forward (by decide), h.agrees⟩ 10 h.read _ io _ moved
  rw [List.length_take_of_le (Nat.le_of_lt hlength)] at late
  exact absurd late (by decide)

end SimpleProxy.Theorems.Idle
