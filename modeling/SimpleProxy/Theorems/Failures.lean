import SimpleProxy.Logic.Registry
import SimpleProxy.Theorems.Tunnel

/-!
# Failures in the handlers

A handler that fails moves its client to `CLOSING`. Some of them then call `handle_client`
again, which closes the client; the others return and leave it to a later event, and
`register_forwarding_fds` has nobody who looks at its result.
-/

namespace SimpleProxy.Theorems.Failures

open Interact CString Tunnel

variable {st st₁ st' : ClientState} {ev : ClientEvent} {tr t₁ t₂ : History} {k k' : Kernel}
  {who : Party} {fd : Fd} {e : Io}

/-- What can fail in a handler. -/
inductive Failure
  | recv
  | memory
  | auth
  | hostPort
  | connect
  | epollCtl
  | epollDel
  | soError
  deriving DecidableEq, Repr

/-- The failure a call shows. That of `parse_host_port` is decided by the request that was
accepted; `memory` is `realloc` for the request buffer or `epoll_create_data`. -/
def failure? : Io → Option Failure
  | ⟨.recv .., .error⟩ => some .recv
  | ⟨.malloc, false⟩ => some .memory
  | ⟨.hasValidAuth _, false⟩ => some .auth
  | ⟨.hasValidAuth request, true⟩ =>
    if (parseHostPort (cstr request)).isNone then some .hostPort else none
  | ⟨.gethostbyname _, none⟩ => some .connect
  | ⟨.socket, none⟩ => some .connect
  | ⟨.connect .., .error⟩ => some .connect
  | ⟨.epollAdd .., false⟩ => some .epollCtl
  | ⟨.epollMod .., false⟩ => some .epollCtl
  | ⟨.epollDel .., false⟩ => some .epollDel
  | ⟨.getsockopt _, err⟩ => if err = .code 0 then none else some .soError
  | _ => none

def failures (tr : History) : List Failure := tr.filterMap failure?

/-- The event showed this failure, outside of the relay. -/
def Fails (st : ClientState) (tr : History) (f : Failure) : Prop :=
  st.state ≠ .forwarding ∧ f ∈ failures tr

/-- The descriptors the client had before the event, or got in it. -/
def Had (st : ClientState) (tr : History) (fd : Fd) : Prop :=
  (fd ≠ -1 ∧ ∃ side, st.fd side = fd) ∨ (⟨.socket, some fd⟩ : Io) ∈ tr

/-- Closed, and out of the interest set. -/
def Gone (k : Kernel) (fd : Fd) : Prop := k.fds fd = none ∧ k.interest fd = none

/-- The client is torn down. -/
structure TornDown (st : ClientState) (tr : History) (st' : ClientState) (k' : Kernel) : Prop where
  expired : st'.expired = true
  clientFd : st'.clientFd = -1
  targetFd : st'.targetFd = -1
  gone : ∀ fd, Had st tr fd → Gone k' fd

/-- The failures whose handler closes the client before it returns. Memory is among them
only where it was for the request buffer, which is the first call of its event. -/
def ClosesAtOnce (tr : History) : Failure → Prop
  | .recv | .auth | .soError | .epollDel => True
  | .memory => tr.head? = some ⟨.malloc, false⟩
  | .hostPort | .connect | .epollCtl => False

/-! ## What is closed stays closed -/

/-- Neither opens a descriptor nor registers one. -/
def Sheds (tr : History) : Prop :=
  ∀ e ∈ tr, ∀ fd, e.fdEffect ≠ .opens fd ∧ ∀ events data, e.fdEffect ≠ .registers fd events data

theorem Gone.ran (h : Gone k fd) (ran : k.Ran who tr k') (sheds : Sheds tr) : Gone k' fd := by
  refine ran.induct (J := (Gone · fd)) h fun he hk step => ?_
  obtain ⟨k₁, effect, hfds, hinterest⟩ := Kernel.step_effect step
  rw [Gone, hfds, hinterest]
  cases effect with
  | opened eff => exact absurd eff (sheds _ he _).1
  | registered eff => exact absurd eff ((sheds _ he _).2 _ _)
  | @closed f _ =>
      by_cases hf : fd = f
      · simp [Kernel.closeFd, hf]
      · simpa [Gone, Kernel.closeFd, hf] using hk
  | @unregistered f _ _ =>
      by_cases hf : fd = f
      · exact ⟨hk.1, by simp [Kernel.register, hf]⟩
      · simpa [Gone, Kernel.register, hf] using hk
  | nothing => exact hk

theorem gone_of_close {side : Side} (ran : k.Ran who [⟨.close side fd, ()⟩] k') : Gone k' fd := by
  obtain ⟨k₁, step, rest⟩ := Kernel.ran_cons.mp ran
  obtain rfl := Kernel.ran_nil.mp rest
  obtain ⟨-, k₂, effect, rfl⟩ := Kernel.step_eq_some step
  obtain rfl := Option.some.inj effect
  simp [Gone, Kernel.closeFd, Kernel.record]

theorem SideClosed.sheds {side : Side} (h : SideClosed side fd tr) : Sheds tr := by
  cases h with
  | absent => simp [Sheds]
  | closed _ ok => cases ok <;> simp [Sheds, Io.fdEffect]

theorem SideClosed.gone {side : Side} (h : SideClosed side fd tr) (ran : k.Ran who tr k')
    (some : fd ≠ -1) : Gone k' fd := by
  cases h with
  | absent none => exact absurd none some
  | closed =>
      obtain ⟨k₁, -, close⟩ := Kernel.ran_cons_iff.mp ran
      exact gone_of_close close

/-! ## An expired client has been torn down -/

/-- An event in `CLOSING` tears its client down. -/
theorem closing_tornDown (h : Moves ev st tr st') (live : st.expired = false)
    (phase : st.state = .closing) (ran : k.Ran who tr k') :
    TornDown st tr st' k' ∧ Sheds tr := by
  obtain ⟨t₁, t₂, rfl, client, target, rfl⟩ := h.of_closing live phase
  obtain ⟨k₁, first, second⟩ := Kernel.ran_append.mp ran
  have sheds : Sheds (t₁ ++ t₂) := fun e he =>
    (List.mem_append.mp he).elim (SideClosed.sheds client e) (SideClosed.sheds target e)
  refine ⟨⟨rfl, rfl, rfl, fun fd had => ?_⟩, sheds⟩
  rcases had with ⟨some, side, rfl⟩ | opened
  · cases side with
    | client => exact (SideClosed.gone client first some).ran second (SideClosed.sheds target)
    | target => exact SideClosed.gone target second some
  · exact absurd rfl (sheds _ opened fd).1

/-- The descriptors are as before when a handler calls `handle_client` again, or the target
was closed. -/
theorem Move.had (h : Move ev st t₁ st₁ true) (had : Had st (t₁ ++ t₂) fd) :
    Had st₁ t₂ fd ∨ st₁.state = .closing ∧ ∃ t, t₁ = t ++ [⟨.close .target fd, ()⟩] := by
  have kept : st₁.clientFd = st.clientFd → st₁.targetFd = st.targetFd →
      (⟨.socket, some fd⟩ : Io) ∉ t₁ → Had st₁ t₂ fd := by
    intro client target none
    rcases had with ⟨some, side, same⟩ | opened
    · exact .inl ⟨some, side, by cases side <;> simp_all [ClientState.fd]⟩
    · exact .inr ((List.mem_append.mp opened).resolve_left none)
  cases h with
  | growFailed => exact .inl (kept rfl rfl (by simp))
  | readFailed _ room => cases room <;> exact .inl (kept rfl rfl (by simp [readCall]))
  | readHeader _ _ room => cases room <;> exact .inl (kept rfl rfl (by simp [readCall]))
  | rejected => exact .inl (kept rfl rfl (by simp))
  | accepted => exact .inl (kept rfl rfl (by simp))
  | connectFailed =>
      rcases had with ⟨some, side, same⟩ | opened
      · cases side with
        | client => exact .inl (.inl ⟨some, .client, same⟩)
        | target => exact .inr ⟨rfl, [_], by rw [← same]; rfl⟩
      · exact .inl (.inr (by simpa using opened))

/-- An event that expires its client tears it down. -/
theorem expired_tornDown (h : Moves ev st tr st') (live : st.expired = false)
    (ran : k.Ran who tr k') (expired : st'.expired = true) : TornDown st tr st' k' := by
  induction h generalizing k with
  | ignored dead =>
      rw [live] at expired
      cases expired
  | last _ move =>
      rcases move.expires ran.admitted with same | ⟨-, phase, -⟩
      · rw [same, live] at expired
        cases expired
      · exact (closing_tornDown (.last live move) live phase ran).1
  | again _ move rest ih =>
      obtain ⟨k₁, first, second⟩ := Kernel.ran_append.mp ran
      rcases move.expires first.admitted with same | ⟨last, -⟩
      · have live₁ := same.trans live
        have torn := ih live₁ second expired
        refine ⟨torn.expired, torn.clientFd, torn.targetFd, fun fd had => ?_⟩
        rcases Move.had move had with had | ⟨phase, t, rfl⟩
        · exact torn.gone fd had
        · obtain ⟨k₂, -, close⟩ := Kernel.ran_append.mp first
          exact (gone_of_close close).ran second (closing_tornDown rest live₁ phase second).2
      · cases last

/-! ## Which failures expire a client -/

theorem failures_append : failures (t₁ ++ t₂) = failures t₁ ++ failures t₂ :=
  List.filterMap_append

/-- Nothing but `EPOLL_CTL_DEL` fails where a side is closed. -/
theorem SideClosed.failures {side : Side} {f : Failure} (h : SideClosed side fd tr)
    (hf : f ∈ failures tr) : f = .epollDel := by
  cases h with
  | absent => cases hf
  | closed _ ok =>
      cases ok with
      | true => cases hf
      | false => exact List.mem_singleton.mp hf

/-- An event in `CLOSING` expires its client, whatever fails in it. -/
theorem closing_expires (h : Moves ev st tr st') (live : st.expired = false)
    (phase : st.state = .closing) :
    st'.expired = true ∧ ∀ f ∈ failures tr, f = .epollDel := by
  obtain ⟨t₁, t₂, rfl, client, target, rfl⟩ := h.of_closing live phase
  refine ⟨rfl, fun f hf => ?_⟩
  rw [failures_append] at hf
  exact (List.mem_append.mp hf).elim (SideClosed.failures client) (SideClosed.failures target)

theorem MadeRoom.failures (h : MadeRoom st tr st₁) : Failures.failures tr = [] := by
  cases h <;> rfl

theorem Replied.failures (h : Replied st tr st₁) : Failures.failures tr = [] := by
  cases h <;> rfl

theorem Opened.failures (h : Opened st tr st₁) :
    Failures.failures tr = [] ∧ ∃ addr t, tr = ⟨.gethostbyname st.host, some addr⟩ :: t := by
  cases h with
  | inProgress fd addr => exact ⟨rfl, addr, _, rfl⟩
  | atOnce fd addr reply =>
      refine ⟨?_, addr, _, rfl⟩
      rw [failures_append, Replied.failures reply]
      rfl

/-- Only `read_request_nonblocking` starts with memory that it does not get. -/
theorem Move.head {again : Bool} (h : Move ev st tr st' again) (relay : st.state ≠ .forwarding)
    (memory : tr.head? = some ⟨.malloc, false⟩) : again = true ∧ st.state = .readingRequest := by
  have read : ∀ {g : History} {st₁ : ClientState} {r : RecvResult}, MadeRoom st g st₁ →
      (g ++ [(⟨readCall st₁, r⟩ : Io)]).head? = some ⟨.malloc, false⟩ → False := by
    intro g st₁ r room head
    cases room <;> cases head
  cases h with
  | growFailed phase => exact ⟨rfl, phase⟩
  | readFailed _ room => exact (read room memory).elim
  | readNothing _ room => exact (read room memory).elim
  | readPart _ _ room => exact (read room memory).elim
  | readHeader _ _ room => exact (read room memory).elim
  | started _ _ opened =>
      obtain ⟨-, addr, t, rfl⟩ := Opened.failures opened
      cases memory
  | addFailed _ _ opened =>
      obtain ⟨-, addr, t, rfl⟩ := Opened.failures opened
      cases memory
  | relayed forwarding => exact absurd forwarding relay
  | relayEnded forwarding => exact absurd forwarding relay
  | closed _ client target => cases client <;> cases target <;> cases memory
  | _ => cases memory

/-- A handler that calls `handle_client` again has made a call. -/
theorem Move.ne_nil (h : Move ev st tr st' true) : tr ≠ [] := by
  cases h <;> simp

theorem Moves.head (h : Moves ev st tr st') (relay : st.state ≠ .forwarding)
    (phase : st.state ≠ .readingRequest) : tr.head? ≠ some ⟨.malloc, false⟩ := by
  intro memory
  cases h with
  | ignored => cases memory
  | last _ move => exact phase (Move.head move relay memory).2
  | again _ move =>
      rw [List.head?_append_of_ne_nil _ (Move.ne_nil move)] at memory
      exact phase (Move.head move relay memory).2

/-- The failures after which a handler returns. -/
def late : Failure → Bool
  | .hostPort | .connect | .epollCtl | .memory => true
  | _ => false

theorem Registering.late {clientFd targetFd : Fd} (h : Registering clientFd targetFd tr) :
    ∀ f ∈ failures tr, Failures.late f = true := by
  cases h with
  | both ok => cases ok <;> simp [failures, failure?, Failures.late]
  | _ => simp [failures, failure?, Failures.late]

/-- Outside of `CLOSING`, a handler that does not call `handle_client` again leaves its
failures to a later event. -/
theorem Move.late (h : Move ev st tr st' false) (relay : st.state ≠ .forwarding)
    (phase : st.state ≠ .closing) : ∀ f ∈ failures tr, Failures.late f = true := by
  cases h with
  | readNothing _ room nothing =>
      rw [failures_append, MadeRoom.failures room]
      rcases nothing with rfl | ⟨rfl, -⟩ <;> simp [failures, failure?, readCall]
  | readPart _ _ room =>
      rw [failures_append, MadeRoom.failures room]
      simp [failures, failure?, readCall]
  | noHost _ missing => simp [failures, failure?, missing, Failures.late]
  | unresolved => simp [failures, failure?, Failures.late]
  | noSocket => simp [failures, failure?, Failures.late]
  | refused => simp [failures, failure?, Failures.late]
  | started room _ opened =>
      rw [failures_append, (Opened.failures opened).1]
      cases room <;> simp [failures, failure?, Failures.late]
  | addFailed room _ opened =>
      rw [failures_append, (Opened.failures opened).1]
      cases room <;> simp [failures, failure?, Failures.late]
  | @connected g t _ _ reply register =>
      have none : failures (⟨.getsockopt st.targetFd, .code 0⟩ :: g) = [] := by
        rw [failures, List.filterMap_cons_none (by simp [failure?])]
        exact Replied.failures reply
      rw [failures_append, none]
      exact Registering.late register
  | relayed forwarding => exact absurd forwarding relay
  | relayEnded forwarding => exact absurd forwarding relay
  | closed closing => exact absurd closing phase

theorem not_closesAtOnce {f : Failure} (kind : late f = true)
    (head : tr.head? ≠ some ⟨.malloc, false⟩) : ¬ ClosesAtOnce tr f := by
  cases f with
  | memory => exact head
  | hostPort => exact id
  | connect => exact id
  | epollCtl => exact id
  | _ => cases kind

/-- A handler that calls `handle_client` again has failed in a way that closes at once and
asks for that, or has not failed. -/
theorem Move.again_cases (h : Move ev st tr st' true) :
    (st'.state = .closing ∧ ∀ f ∈ failures tr, ClosesAtOnce tr f) ∨
      ((st'.state = .authenticating ∨ st'.state = .initializeConnection) ∧ failures tr = []) := by
  cases h with
  | growFailed => exact .inl ⟨rfl, by simp [failures, failure?, ClosesAtOnce]⟩
  | readFailed _ room failed =>
      refine .inl ⟨rfl, ?_⟩
      rw [failures_append, MadeRoom.failures room]
      rcases failed with rfl | ⟨rfl, -⟩ <;> simp [failures, failure?, readCall, ClosesAtOnce]
  | readHeader _ _ room =>
      refine .inr ⟨.inl rfl, ?_⟩
      rw [failures_append, MadeRoom.failures room]
      rfl
  | rejected => exact .inl ⟨rfl, by simp [failures, failure?, ClosesAtOnce]⟩
  | accepted _ parsed => exact .inr ⟨.inr rfl, by simp [failures, failure?, parsed]⟩
  | connectFailed _ failed => exact .inl ⟨rfl, by simp [failures, failure?, failed, ClosesAtOnce]⟩

theorem closesAtOnce_congr {f : Failure} (head₁ : t₁.head? ≠ some ⟨.malloc, false⟩)
    (head₂ : t₂.head? ≠ some ⟨.malloc, false⟩) : ClosesAtOnce t₁ f ↔ ClosesAtOnce t₂ f := by
  cases f with
  | memory => exact iff_of_false head₁ head₂
  | _ => exact Iff.rfl

theorem closesAtOnce_append {f : Failure} (some : t₁ ≠ []) :
    ClosesAtOnce (t₁ ++ t₂) f ↔ ClosesAtOnce t₁ f := by
  cases f with
  | memory =>
      show (t₁ ++ t₂).head? = _ ↔ t₁.head? = _
      rw [List.head?_append_of_ne_nil _ some]
  | _ => exact Iff.rfl

/-- An event in which something fails expires its client if the failure is one that closes
at once. -/
theorem expires_iff (h : Moves ev st tr st') (live : st.expired = false) (ok : Admitted tr)
    (relay : st.state ≠ .forwarding) :
    ∀ f ∈ failures tr, (st'.expired = true ↔ ClosesAtOnce tr f) := by
  induction h with
  | ignored => simp [failures]
  | @last st st' tr _ move =>
      intro f hf
      by_cases phase : st.state = .closing
      · obtain ⟨expired, del⟩ := closing_expires (.last live move) live phase
        rw [del f hf, iff_true_right (show ClosesAtOnce tr .epollDel from trivial)]
        exact expired
      · have same : st'.expired = st.expired :=
          (move.expires ok).resolve_right fun closed => phase closed.2.1
        have head : tr.head? ≠ some ⟨.malloc, false⟩ := fun memory =>
          Bool.false_ne_true (Move.head move relay memory).1
        rw [same, live]
        exact iff_of_false Bool.false_ne_true
          (not_closesAtOnce (Move.late move relay phase f hf) head)
  | @again st st₁ st' t₁ t₂ _ move rest ih =>
      intro f hf
      have live₁ : st₁.expired = false := by
        rcases move.expires ok.append.1 with same | ⟨last, -⟩
        · exact same.trans live
        · cases last
      rw [failures_append] at hf
      rcases Move.again_cases move with ⟨phase, closes⟩ | ⟨phase, none⟩
      · obtain ⟨expired, del⟩ := closing_expires rest live₁ phase
        refine iff_of_true expired ((closesAtOnce_append (Move.ne_nil move)).mpr ?_)
        rcases List.mem_append.mp hf with first | second
        · exact closes f first
        · rw [del f second]
          trivial
      · -- a header was read or a request accepted, and the failure comes later
        rw [none, List.nil_append] at hf
        have head₁ : t₁.head? ≠ some ⟨.malloc, false⟩ := by
          intro memory
          have := List.mem_of_mem_head? memory
          have : Failure.memory ∈ failures t₁ := List.mem_filterMap.mpr ⟨_, this, rfl⟩
          rw [none] at this
          cases this
        have relay₁ : st₁.state ≠ .forwarding := by rcases phase with h | h <;> simp [h]
        have head₂ := Moves.head rest relay₁ (by rcases phase with h | h <;> simp [h])
        rw [closesAtOnce_append (Move.ne_nil move), closesAtOnce_congr head₁ head₂]
        exact ih live₁ ok.append.2 relay₁ f hf

/-! ## The theorem -/

/-- **Failures.** When an event in which something failed is over, the client is torn down if and
only if what failed is one of: `recv` or `realloc` for the request, the authentication,
`SO_ERROR`, and `EPOLL_CTL_DEL` while closing. -/
theorem torn_down_iff {f : Failure} (live : st.expired = false)
    (run : (handleClient st ev).Runs tr st') (ran : k.Ran who tr k') (failed : Fails st tr f) :
    TornDown st tr st' k' ↔ ClosesAtOnce tr f := by
  have moves := handleClient_moves run
  rw [← expires_iff moves live ran.admitted failed.1 f failed.2]
  exact ⟨fun torn => torn.expired, expired_tornDown moves live ran⟩

/-- A client on descriptor 7 whose `recv` fails. -/
def resetIo : History :=
  [⟨.recv .client 7 maxBufferSize, .error⟩, ⟨.epollDel .client 7, true⟩, ⟨.close .client 7, ()⟩]

/-- The kernel with this client in it. -/
def oneClient : Kernel :=
  ((World.boot 3 4 5).kernel.openFd 7 (.client 0)).register 7
    (some ⟨⟨true, false⟩, some ⟨.client, some 0⟩⟩)

theorem torn_down_iff_reset :
    ∃ k', oneClient.Ran (.client 0) resetIo k' ∧ TornDown (ClientState.create 7 0) resetIo
      { ClientState.create 7 0 with state := .closing, expired := true, clientFd := -1 } k' := by
  obtain ⟨k', ran⟩ : ∃ k', oneClient.Ran (.client 0) resetIo k' := ⟨_, rfl⟩
  have run : (handleClient (ClientState.create 7 0) ⟨.client, ⟨true, false⟩⟩).Runs resetIo
      { ClientState.create 7 0 with state := .closing, expired := true, clientFd := -1 } :=
    Prog.runs_of_replay (by decide)
  have failed : Fails (ClientState.create 7 0) resetIo .recv := ⟨by decide, by decide⟩
  exact ⟨k', ran, (torn_down_iff rfl run ran failed).mpr trivial⟩

/-- A request is accepted, and its host has no address. -/
def unresolvedIo : History :=
  [⟨.recv .client 6 maxBufferSize, .data connectRequest⟩, ⟨.hasValidAuth connectRequest, true⟩,
    ⟨.gethostbyname [104], none⟩]

/-- A client that was just accepted sends this request. It is left in `CLOSING`, with its
descriptor open. -/
theorem torn_down_fails :
    ¬ ∀ w, proxy.Reachable w → ∀ c st, w.mem.heap c = some st → st.expired = false →
      ∀ ev tr st' k' f, (handleClient st ev).Runs tr st' → w.kernel.Ran (.client c) tr k' →
      Fails st tr f → TornDown st tr st' k' := by
  intro claim
  have facts : (((acceptScript 0 6).foldlM World.exec (World.boot 3 4 5)).map fun w =>
      w.mem.heap 0) = some (some (ClientState.create 6 0)) := by decide +kernel
  obtain ⟨w, hw, live⟩ := Option.map_eq_some_iff.mp facts
  obtain ⟨k', ran⟩ : ∃ k', w.kernel.Ran (.client 0) unresolvedIo k' := ⟨_, rfl⟩
  have run : (handleClient (ClientState.create 6 0) ⟨.client, ⟨true, false⟩⟩).Runs unresolvedIo
      { ClientState.create 6 0 with
        requestBuffer := connectRequest
        isHttps := true
        host := [104]
        port := 443
        state := .closing } := Prog.runs_of_replay (by decide +kernel)
  have torn := claim w (World.reachable_of_script (.start World.booted) hw) 0 _ live rfl _ _ _ k'
    .connect run ran ⟨by decide, by decide +kernel⟩
  cases torn.expired

end SimpleProxy.Theorems.Failures
