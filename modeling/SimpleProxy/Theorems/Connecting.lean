import SimpleProxy.Logic.Steps
import SimpleProxy.Logic.Request

/-!
# Completing a connect

A client in `CONNECTING` waits for its target to become writable, but its own
descriptor stays registered for `EPOLLIN` and `handle_client` looks only at the
state. So an event of the client runs `handle_connecting` too, and `SO_ERROR`
is 0 as long as the connect has not failed.
-/

namespace SimpleProxy.Theorems.Connecting

open Interact CString

/-- The 200 reply of a `CONNECT` request. -/
def establishes : Io → Bool
  | ⟨.send .client _ data .plain, _⟩ => data = connectionEstablished
  | _ => false

/-- `SO_ERROR` was 0. -/
def noError : Io → Bool
  | ⟨.getsockopt _, .code err⟩ => err = 0
  | _ => false

/-- Client `c`, in `CONNECTING` before the step, is relaying after it, or was told
that its tunnel is established. -/
def Completes (w w' : World) (c : ClientId) (st : ClientState) : Prop :=
  w.mem.heap c = some st ∧ st.state = .connecting ∧
    ((∃ st', w'.mem.heap c = some st' ∧ st'.state = .forwarding) ∨
      ∃ e ∈ w.newHistory w' c, establishes e = true)

/-- The step handled an event that reports the target of client `c` writable, and
found `SO_ERROR` to be 0. -/
def TargetReady (w w' : World) (c : ClientId) (st : ClientState) : Prop :=
  (∃ e, w.batch = e :: w'.batch ∧ e.data = some ⟨.target, some c⟩ ∧ e.fd = st.targetFd ∧
    e.events.epollout = true) ∧ (⟨.getsockopt st.targetFd, .code 0⟩ : Io) ∈ w.newHistory w' c

/-- No other event than a writable target finds a connect in progress without an
error. -/
def TargetWritable (w w' : World) : Bool :=
  match w.batch with
  | ⟨_, events, some ⟨fdType, some c⟩⟩ :: _ =>
    (fdType = .target && events.epollout) ||
      (w.mem.heap c).all (fun st => st.expired || st.state ≠ .connecting) ||
      (w.newHistory w' c).all fun e => !noError e
  | _ => true

variable {ev : ClientEvent} {st st' : ClientState} {tr : History}

theorem quiet_not_establishes (quiet : Quiet tr) {e : Io} (he : e ∈ tr) :
    establishes e = false := by
  have := quiet e he
  obtain ⟨c, r⟩ := e
  cases c <;> first | rfl | cases this

/-- Closing a client tells it nothing. -/
theorem moves_closing (h : Moves ev st tr st') (phase : st.state = .closing) :
    st'.state = .closing ∧ Quiet tr := by
  cases live : st.expired with
  | true =>
      obtain ⟨rfl, rfl⟩ := h.of_expired live
      exact ⟨phase, by simp [Quiet]⟩
  | false =>
      obtain ⟨t₁, t₂, rfl, client, target, rfl⟩ := h.of_closing live phase
      exact ⟨phase, client.upkeep.quiet.append target.upkeep.quiet⟩

/-- An event that finds a connect in progress completes it if `SO_ERROR` is 0 and
closes the client otherwise. -/
theorem moves_connecting (h : Moves ev st tr st') (live : st.expired = false)
    (phase : st.state = .connecting) :
    (⟨.getsockopt st.targetFd, .code 0⟩ : Io) ∈ tr ∨ st'.state = .closing ∧ Quiet tr := by
  cases h with
  | ignored dead => simp_all
  | last _ move =>
      cases move with
      | connected => exact .inl List.mem_cons_self
      | _ => simp_all
  | again _ move rest =>
      cases move with
      | connectFailed =>
          obtain ⟨closing, quiet⟩ := moves_closing rest rfl
          exact .inr ⟨closing, .append (by simp [Quiet, Housekeeping]) quiet⟩
      | _ => simp_all

/-- A step that tells nobody anything and leaves the client in another state
completes nothing. -/
theorem not_completes {w w' : World} {c : ClientId} (quiet : Quiet (w.newHistory w' c))
    (state : ∀ st', w'.mem.heap c = some st' → st'.state ≠ .forwarding) :
    ¬ Completes w w' c st := by
  rintro ⟨-, -, ⟨st', live, forwarding⟩ | ⟨e, he, reply⟩⟩
  · exact state st' live forwarding
  · rw [quiet_not_establishes quiet he] at reply
    cases reply

/-- What `TargetWritable` says about a step that finds `SO_ERROR` to be 0. -/
theorem writable_of_noError {w w' : World} {c : ClientId} {e : EpollEvent} {rest : List EpollEvent}
    {fdType : EpollFdType} (cond : TargetWritable w w' = true) (next : w.batch = e :: rest)
    (data : e.data = some ⟨fdType, some c⟩) (live : w.mem.heap c = some st)
    (notExpired : st.expired = false) (phase : st.state = .connecting)
    (found : (⟨.getsockopt st.targetFd, .code 0⟩ : Io) ∈ w.newHistory w' c) :
    fdType = .target ∧ e.events.epollout = true := by
  have hfound : (w.newHistory w' c).all (fun e => !noError e) = false :=
    List.all_eq_false.mpr ⟨_, found, by simp [noError]⟩
  obtain ⟨fd, events, _⟩ := e
  cases data
  simpa [TargetWritable, next, live, hfound, notExpired, phase] using cond

/-- **Completing a connect.** In every run in which no event other than that of a
writable target finds a connect in progress without an error, a connect is
completed only by its own target. -/
theorem completed_by_target {w w' : World}
    (h : (proxy.limit fun w w' => TargetWritable w w' = true).Reachable w)
    (hstep : (proxy.limit fun w w' => TargetWritable w w' = true).step w w') (c : ClientId)
    (st : ClientState) (done : Completes w w' c st) : TargetReady w w' c st := by
  obtain ⟨step, writable⟩ := hstep
  have live := done.1
  have phase := done.2.1
  have reach := System.limit_reachable h
  have reg := Registry.reachable reach
  have history := step.history_eq c
  cases step.client reg c with
  | rest heap same =>
      -- nothing was done for the client
      have calls : w.newHistory w' c = [] := List.self_eq_append_right.mp (same.symm.trans history)
      refine absurd done (not_completes (by simp [calls, Quiet]) fun st' live' => ?_)
      obtain rfl : st = st' := Option.some.inj (live.symm.trans (heap.symm.trans live'))
      simp [phase]
  | born unborn => exact absurd (reg.born live) (Nat.not_lt.mpr unborn)
  | @tick st₁ tr live₁ read ticked more =>
      obtain rfl : st = st₁ := Option.some.inj (live.symm.trans live₁)
      have calls := step.newHistory_eq more
      refine absurd done (not_completes (calls ▸ ticked.upkeep.quiet) fun st' live' => ?_)
      -- a tick completes nothing
      obtain ⟨same, -⟩ := (live' ▸ ticked : Ticked st tr (some st')).target
      simp [same, phase]
  | @event e fdType st₁ st' tr next data live₁ moves ok heap more =>
      obtain rfl : st = st₁ := Option.some.inj (live.symm.trans live₁)
      have calls := step.newHistory_eq more
      cases notExpired : st.expired with
      | true =>
          -- an expired client ignores its events
          obtain ⟨rfl, rfl⟩ := moves.of_expired notExpired
          refine absurd done (not_completes (by simp [calls, Quiet]) fun st₂ live₂ => ?_)
          simp [← Option.some.inj (heap.symm.trans live₂), phase]
      | false =>
          obtain found | ⟨closing, quiet⟩ := moves_connecting moves notExpired phase
          · rw [← calls] at found
            obtain ⟨rfl, out⟩ := writable_of_noError writable next data live notExpired phase found
            -- a target event that was reported is about the descriptor that connects
            obtain ⟨-, fields⟩ :=
              targetEvents_reachable reach e (by rw [next]; exact List.mem_cons_self) c data
            obtain ⟨-, same⟩ := fields st live
            exact ⟨⟨e, next, data, (same (by rw [phase]; rfl)).symm, out⟩, found⟩
          · refine absurd done (not_completes (calls ▸ quiet) fun st₂ live₂ => ?_)
            simp [← Option.some.inj (heap.symm.trans live₂), closing]

/-- A client asks for a tunnel to port 443 of `h`, and `event` is reported while
the connect is in progress. -/
def connectScript (event : EpollEvent) : List Cmd :=
  acceptScript 0 6 ++
    requestScript 0 6 7 (bytes "CONNECT h:443 HTTP/1.1\r\nHost: h:443\r\n\r\n") [104] 443 ++
    [.wait [event]]

/-- Client 0 was connecting and is relaying now. -/
def startsRelay (w w' : World) : Bool :=
  (w.mem.heap 0).any (fun st => st.state = .connecting) &&
    (w'.mem.heap 0).any (fun st => st.state = .forwarding)

theorem completes_of_startsRelay {w w' : World} (h : startsRelay w w' = true) :
    ∃ st, Completes w w' 0 st := by
  obtain ⟨hbefore, hafter⟩ := Bool.and_eq_true_iff.mp h
  obtain ⟨st, live, phase⟩ := (Option.any_eq_true _ _).mp hbefore
  obtain ⟨st', live', phase'⟩ := (Option.any_eq_true _ _).mp hafter
  exact ⟨st, live, of_decide_eq_true phase, .inl ⟨st', live', of_decide_eq_true phase'⟩⟩

theorem completed_by_target_writable :
    ∃ w w' st, Completes w w' 0 st ∧ TargetReady w w' 0 st := by
  obtain ⟨w, w', reach, step, relay⟩ := World.limit_step_of_script (C := TargetWritable)
    (P := startsRelay) (connectScript ⟨7, ⟨false, true⟩, some ⟨.target, some 0⟩⟩)
    (completeCmd 0 6 7 [establishedReply 0 6]) (.start World.booted) (by decide +kernel)
  obtain ⟨st, done⟩ := completes_of_startsRelay relay
  exact ⟨w, w', st, done, completed_by_target reach step 0 st done⟩

/-- The client sends a byte while the connect is still in progress: it is told
that the tunnel is established, and relayed. -/
theorem completed_by_target_fails :
    ¬ ∀ w w', proxy.Reachable w → proxy.step w w' → ∀ c st, Completes w w' c st →
      TargetReady w w' c st := by
  intro claim
  obtain ⟨w, w', reach, step, facts⟩ := World.limit_step_of_script (C := fun _ _ => true)
    (P := fun w w' => startsRelay w w' &&
      (w.batch.head?.any fun e => e.data = some ⟨.client, some 0⟩))
    (connectScript ⟨6, ⟨true, false⟩, some ⟨.client, some 0⟩⟩)
    (completeCmd 0 6 7 [establishedReply 0 6]) (.start World.booted) (by decide +kernel)
  obtain ⟨relay, hhead⟩ := Bool.and_eq_true_iff.mp facts
  obtain ⟨st, done⟩ := completes_of_startsRelay relay
  obtain ⟨⟨e, next, data, -⟩, -⟩ := claim w w' (System.limit_reachable reach) step.1 0 st done
  simp [next, data] at hhead

end SimpleProxy.Theorems.Connecting
