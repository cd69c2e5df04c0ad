import SimpleProxy.Logic.Descriptors

/-!
# What epoll tells a client

A client acts when epoll reports one of its descriptors, so it stands still for
good if a descriptor is not registered for what its state waits for. `Waits`
lists these events for each state. As long as no registration fails, nobody
changes the registrations of descriptors of others (`Ran.registrations`), and
every move of a client registers what the next state waits for (`Move.attended`).
-/

namespace SimpleProxy

open Interact CString

/-! ## Registrations through a run -/

/-- How descriptor `fd` is registered after a call of `who`. -/
def Io.registration (who : Party) (fd : Fd) (before : Option Registration) (e : Io) :
    Option Registration :=
  match e.fdEffect with
  | .registers f events data =>
      if f = fd then some ⟨events, data.map fun t => ⟨t, who.clientState⟩⟩ else before
  | .closes f => if f = fd then none else before
  | .unregisters f => if f = fd then none else before
  | _ => before

/-- The same for a list of calls. -/
def registrationAfter (who : Party) (fd : Fd) (before : Option Registration) (tr : History) :
    Option Registration :=
  tr.foldl (Io.registration who fd) before

/-- The descriptor a call registers. -/
def Io.registers? (e : Io) : Option Fd :=
  match e.fdEffect with
  | .registers fd _ _ => some fd
  | _ => none

theorem Io.releases_of_unregisters {e : Io} {fd : Fd} (h : e.fdEffect = .unregisters fd) :
    e.call.releases? = some fd := by
  obtain ⟨call, r⟩ := e
  cases call <;> cases r <;> cases h
  rfl

/-- From the descriptors `held`, the calls register no others. -/
abbrev RegistersOwn : List Fd → History → Prop := KeepsTo Io.registers?

variable {held held' : List Fd} {who : Party} {fd : Fd} {before : Option Registration} {e : Io}
  {tr t₁ t₂ : History} {k k₁ k' : Kernel}

@[simp] theorem registrationAfter_nil : registrationAfter who fd before [] = before := rfl

@[simp] theorem registrationAfter_cons : registrationAfter who fd before (e :: tr) =
    registrationAfter who fd (e.registration who fd before) tr := rfl

@[simp] theorem registrationAfter_append : registrationAfter who fd before (t₁ ++ t₂) =
    registrationAfter who fd (registrationAfter who fd before t₁) t₂ := List.foldl_append

theorem Still.registrationAfter (h : Still tr) :
    SimpleProxy.registrationAfter who fd before tr = before := by
  induction tr with
  | nil => rfl
  | cons e tr ih =>
      have first : e.registration who fd before = before := by
        obtain heff | ⟨f, heff⟩ := h e List.mem_cons_self <;> simp [Io.registration, heff]
      rw [registrationAfter_cons, first]
      exact ih fun e' he => h e' (List.mem_cons_of_mem _ he)

namespace Kernel

theorem Effect.registration (h : Effect k who e k₁) :
    k₁.interest fd = e.registration who fd (k.interest fd) := by
  cases h with
  | opened eff => simp [Io.registration, eff, openFd]
  | @closed f eff =>
      by_cases hf : f = fd
      · simp [Io.registration, eff, closeFd, hf]
      · simp [Io.registration, eff, closeFd, hf, Ne.symm hf]
  | @registered f events data eff =>
      by_cases hf : f = fd
      · simp [Io.registration, eff, register, hf]
      · simp [Io.registration, eff, register, hf, Ne.symm hf]
  | @unregistered f eff =>
      by_cases hf : f = fd
      · simp [Io.registration, eff, register, hf]
      · simp [Io.registration, eff, register, hf, Ne.symm hf]
  | nothing eff => simp [Io.registration, eff]

/-- The calls of a run say how a descriptor is registered after it. -/
theorem Ran.registration (h : k.Ran who tr k') :
    k'.interest fd = registrationAfter who fd (k.interest fd) tr := by
  induction tr generalizing k with
  | nil => rw [ran_nil.mp h, registrationAfter_nil]
  | cons e tr ih =>
      obtain ⟨k₁, hstep, hrest⟩ := ran_cons.mp h
      obtain ⟨k₂, heff, -, hinterest⟩ := step_effect hstep
      rw [ih hrest, hinterest, heff.registration]
      rfl

/-- What `who` does to the registrations of others: nothing. -/
def Undisturbed (who : Party) (k k' : Kernel) : Prop :=
  ∀ fd p, p ≠ who → k.fds fd = some p → k'.interest fd = k.interest fd

theorem Effect.undisturbed (h : Effect k who e k₁) (owns : k.Owns who held)
    (hold : e.holding held = some held') (own : ∀ fd ∈ e.registers?, fd ∈ held) :
    Undisturbed who k k₁ := by
  intro fd p hp hfd
  have mine : ∀ f ∈ held, f ≠ fd := by
    rintro f hf rfl
    exact hp (Option.some.inj (hfd.symm.trans (owns.open' f hf)))
  have released : ∀ f, e.call.releases? = some f → f ≠ fd := by
    intro f hf
    have := (Option.ite_none_right_eq_some.mp hold).1
    exact mine f (by simpa [hf] using this)
  rw [h.registration]
  cases h with
  | opened eff => simp [Io.registration, eff]
  | @closed f eff => simp [Io.registration, eff, released f (Io.releases_of_closes eff)]
  | @registered f events data eff =>
      have registers : f ∈ held := own f (by simp [Io.registers?, eff])
      simp [Io.registration, eff, mine f registers]
  | @unregistered f eff => simp [Io.registration, eff, released f (Io.releases_of_unregisters eff)]
  | nothing eff => simp [Io.registration, eff]

/-- Calls within what `who` holds leave the registrations of others alone. -/
theorem Ran.undisturbed (h : k.Ran who tr k') (owns : k.Owns who held)
    (hold : holding held tr = some held') (own : RegistersOwn held tr) :
    Undisturbed who k k' := by
  induction tr generalizing k held with
  | nil =>
      obtain rfl := ran_nil.mp h
      exact fun _ _ _ _ => rfl
  | cons e tr ih =>
      obtain ⟨k₁, hstep, hrest⟩ := ran_cons.mp h
      obtain ⟨held₁, hfirst, hold⟩ := Option.bind_eq_some_iff.mp hold
      obtain ⟨k₂, heff, hfds, hinterest⟩ := step_effect hstep
      obtain ⟨owns₁, apart₁⟩ := heff.owns owns hfirst
      have owns₁ : k₁.Owns who held₁ := ⟨owns₁.nodup, fun f hf => hfds ▸ owns₁.open' f hf⟩
      have rest := ih hrest owns₁ hold (own.2 held₁ hfirst)
      intro fd p hp hfd
      rw [rest fd p hp (hfds ▸ apart₁ fd p hp hfd), hinterest]
      exact heff.undisturbed owns hfirst own.1 fd p hp hfd

end Kernel

/-! ## What a state waits for -/

/-- What a descriptor of a client in this state is registered for. No client gets to `CLOSED`. -/
def Waits : ClientStateEnum → Side → EpollMask → Prop
  | .closed, _, _ => False
  | .connecting, .target, events => events = ⟨false, true⟩
  | .forwarding, _, events => events = ⟨true, true⟩
  | .closing, _, events => events.epollin = true
  | _, _, events => events = ⟨true, false⟩

theorem Waits.not_closed {state : ClientStateEnum} {side : Side} {events : EpollMask}
    (h : Waits state side events) : state ≠ .closed := by
  rintro rfl
  exact h

/-- Epoll tells client `c` of what its state waits for. -/
structure Attended (c : ClientId) (st : ClientState) (k : Kernel) : Prop where
  client : st.clientFd ≠ -1
  early : Untargeted st.state = true → st.targetFd = -1
  targeted : Targeted st.state = true → st.targetFd ≠ -1
  registered : ∀ side : Side, st.fd side ≠ -1 → ∃ events,
    k.interest (st.fd side) = some ⟨events, some ⟨side.fdType, some c⟩⟩ ∧
      Waits st.state side events

/-- A target was not added, a registration not changed, or an allocation failed, which may be
the one for the data of a registration. -/
def Io.registerFailed : Io → Bool
  | ⟨.epollAdd .target _ _ _, ok⟩ => !ok
  | ⟨.epollMod .., ok⟩ => !ok
  | ⟨.malloc, ok⟩ => !ok
  | _ => false

variable {c : ClientId} {st st' : ClientState} {ev : ClientEvent} {again : Bool}

namespace Attended

/-- Calls that leave the descriptors of a client as they are. -/
theorem keep (h : Attended c st k) (ran : k.Ran (.client c) tr k') (still : Still tr)
    (same : st'.clientFd = st.clientFd ∧ st'.targetFd = st.targetFd)
    (waits : ∀ side events, Waits st.state side events → Waits st'.state side events)
    (early : Untargeted st'.state = true → Untargeted st.state = true)
    (targeted : Targeted st'.state = true → Targeted st.state = true) : Attended c st' k' := by
  have fds : ∀ side : Side, st'.fd side = st.fd side := by
    intro side
    cases side with
    | client => exact same.1
    | target => exact same.2
  refine ⟨same.1 ▸ h.client, fun e => same.2 ▸ h.early (early e),
    fun t => same.2 ▸ h.targeted (targeted t), fun side hfd => ?_⟩
  rw [fds side] at hfd ⊢
  obtain ⟨events, hevents, hwaits⟩ := h.registered side hfd
  exact ⟨events, by rw [ran.registration, still.registrationAfter, hevents],
    waits side events hwaits⟩

/-- The client side, when the target changes. -/
theorem keepClient {state : ClientStateEnum} (h : Attended c st k) (ran : k.Ran (.client c) tr k')
    (kept : ∀ before, registrationAfter (.client c) st.clientFd before tr = before)
    (waits : ∀ events, Waits st.state .client events → Waits state .client events) :
    ∃ events, k'.interest st.clientFd = some ⟨events, some ⟨.client, some c⟩⟩ ∧
      Waits state .client events := by
  obtain ⟨events, hevents, hwaits⟩ := h.registered .client h.client
  exact ⟨events, by rw [ran.registration, kept]; exact hevents, waits events hwaits⟩

/-- A client without a target that is closing. -/
theorem closing (client : st.clientFd ≠ -1) (target : st.targetFd = -1)
    (state : st.state = .closing)
    (registered : ∃ events, k.interest st.clientFd = some ⟨events, some ⟨.client, some c⟩⟩ ∧
      Waits .closing .client events) : Attended c st k := by
  refine ⟨client, fun _ => target, fun h => by simp [state, Targeted] at h, fun side hfd => ?_⟩
  rw [state]
  cases side with
  | client => exact registered
  | target => exact absurd target hfd

end Attended

/-- `register_forwarding_fds` without a failure. -/
theorem Registering.eq_both {clientFd targetFd : Fd} (h : Registering clientFd targetFd tr)
    (fine : ∀ e ∈ tr, e.registerFailed = false) :
    tr = [⟨.malloc, true⟩, ⟨.epollMod .client clientFd ⟨true, true⟩ (some .client), true⟩,
      ⟨.malloc, true⟩, ⟨.epollMod .target targetFd ⟨true, true⟩ (some .target), true⟩] := by
  cases h with
  | both ok =>
      cases ok with
      | true => rfl
      | false => simp [Io.registerFailed] at fine
  | _ => simp [Io.registerFailed] at fine

/-- The two descriptors of a client differ. -/
theorem clientFd_ne_targetFd (nodup : st.fds.Nodup) (client : st.clientFd ≠ -1)
    (target : st.targetFd ≠ -1) : st.clientFd ≠ st.targetFd := by
  simpa [ClientState.fds, client, target] using nodup

/-- A descriptor that was opened just now is not the one of the client. -/
theorem opened_ne_clientFd (owns : k.Owns (.client c) st.fds) (client : st.clientFd ≠ -1)
    (ran : k.Ran (.client c) tr k') (hold : holding st.fds tr = some (fd :: st.fds)) :
    fd ≠ st.clientFd := by
  rintro rfl
  obtain ⟨owns', -⟩ := ran.owns owns hold
  exact (List.nodup_cons.mp owns'.nodup).1 (client_mem client)

theorem Move.attended (move : Move ev st tr st' again) (h : Attended c st k)
    (owned : Owned c (some st) k) (owned' : Owned c (some st') k')
    (ran : k.Ran (.client c) tr k') (fine : ∀ e ∈ tr, e.registerFailed = false)
    (live : st'.expired = false) : Attended c st' k' := by
  have quiet : ∀ {e : Io}, e.fdEffect = .nothing → Still [e] := fun he => by simp [Still, he]
  have owns := owned.fields st rfl
  cases move with
  | growFailed phase =>
      exact h.keep ran (quiet rfl) ⟨rfl, rfl⟩ (by simp [phase, Waits]) (by simp [Untargeted])
        (by simp [Targeted])
  | readFailed phase room =>
      exact h.keep ran (room.still.append (quiet rfl)) room.fds_eq (by simp [phase, Waits])
        (by simp [Untargeted]) (by simp [Targeted])
  | readNothing phase room =>
      have state := (show st'.state = st.state by cases room <;> rfl)
      exact h.keep ran (room.still.append (quiet rfl)) room.fds_eq (by simp [state])
        (by simp [state]) (by simp [state])
  | readPart bs phase room =>
      exact h.keep ran (room.still.append (quiet rfl)) room.fds_eq (by cases room <;> simp)
        (by cases room <;> simp) (by cases room <;> simp)
  | readHeader bs phase room =>
      exact h.keep ran (room.still.append (quiet rfl)) room.fds_eq (by simp [phase, Waits])
        (by simp [phase, Untargeted]) (by simp [Targeted])
  | rejected r phase =>
      exact h.keep ran (by simp [Still, Io.fdEffect]) ⟨rfl, rfl⟩ (by simp [phase, Waits])
        (by simp [Untargeted]) (by simp [Targeted])
  | noHost phase =>
      exact h.keep ran (quiet rfl) ⟨rfl, rfl⟩ (by simp [phase, Waits]) (by simp [Untargeted])
        (by simp [Targeted])
  | accepted phase =>
      exact h.keep ran (quiet rfl) ⟨rfl, rfl⟩ (by simp [phase, Waits])
        (by simp [phase, Untargeted]) (by simp [Targeted])
  | unresolved phase =>
      exact h.keep ran (quiet rfl) ⟨rfl, rfl⟩ (by simp [phase, Waits]) (by simp [Untargeted])
        (by simp [Targeted])
  | noSocket addr phase =>
      -- there is no target to lose yet
      have early : st.targetFd = -1 := h.early (by rw [phase]; rfl)
      exact h.keep ran (by simp [Still, Io.fdEffect]) ⟨rfl, early.symm⟩ (by simp [phase, Waits])
        (by simp [Untargeted]) (by simp [Targeted])
  | refused fd addr phase =>
      obtain ⟨k₁, ran₁, -⟩ := Kernel.ran_append.mp (show k.Ran (.client c)
        ([⟨.gethostbyname st.host, some addr⟩, ⟨.socket, some fd⟩] ++
          [⟨.connect fd addr (htons st.port), .error⟩, ⟨.close .target fd, ()⟩]) k' from ran)
      have other : fd ≠ st.clientFd := opened_ne_clientFd owns h.client ran₁
        (by simp [Io.holding, Call.releases?, Io.fdEffect])
      refine .closing h.client rfl rfl
        (h.keepClient ran (fun before => ?_) (by simp [phase, Waits]))
      simp [Io.registration, Io.fdEffect, other]
  | @started o st₁ room phase opened =>
      obtain ⟨k₁, ran₁, -⟩ := Kernel.ran_append.mp ran
      have other := opened_ne_clientFd owns h.client ran₁ opened.holding_eq
      have memory : room = true := by simpa [Io.registerFailed] using fine ⟨.malloc, room⟩ (by simp)
      refine ⟨opened.clientFd_eq ▸ h.client, by simp [Untargeted],
        fun _ => owned'.connecting _ rfl rfl, fun side _ => ?_⟩
      cases side with
      | client =>
          show ∃ events, k'.interest st₁.clientFd = _ ∧ _
          rw [opened.clientFd_eq]
          refine h.keepClient ran (fun before => ?_) (by simp [phase, Waits])
          rw [registrationAfter_append, opened.still.registrationAfter]
          simp [Io.registration, Io.fdEffect, other]
      | target =>
          refine ⟨⟨false, true⟩, ?_, rfl⟩
          show k'.interest st₁.targetFd = _
          rw [ran.registration, registrationAfter_append]
          simp [Io.registration, Io.fdEffect, memory, Side.fdType, Party.clientState]
  | @addFailed o st₁ room phase opened =>
      have := fine ⟨.epollAdd .target st₁.targetFd ⟨false, true⟩
        (if room then some .target else none), false⟩ (by simp)
      simp [Io.registerFailed] at this
  | connectFailed phase failed =>
      have other := clientFd_ne_targetFd owns.nodup h.client (h.targeted (by rw [phase]; rfl))
      refine .closing h.client rfl rfl
        (h.keepClient ran (fun before => ?_) (by simp [phase, Waits]))
      simp [Io.registration, Io.fdEffect, other.symm]
  | @connected g t st₁ phase reply register =>
      have target := h.targeted (by rw [phase]; rfl)
      have other := clientFd_ne_targetFd owns.nodup h.client target
      obtain ⟨client₁, target₁⟩ := reply.fds_eq
      have both := register.eq_both fun e he => fine e (List.mem_append_right _ he)
      refine ⟨client₁ ▸ h.client, by simp [Untargeted], fun _ => target₁ ▸ target,
        fun side _ => ⟨⟨true, true⟩, ?_, rfl⟩⟩
      rw [ran.registration, registrationAfter_append, both]
      cases side with
      | client =>
          simp [Io.registration, Io.fdEffect, ClientState.fd, Side.fdType, Party.clientState,
            client₁, target₁, other.symm]
      | target =>
          simp [Io.registration, Io.fdEffect, ClientState.fd, Side.fdType, Party.clientState]
  | relayed phase run =>
      have spec : TransferSpec st st' tr := (connectionForward_runs run ran.admitted).1
      have state : st'.state = st.state := by rw [spec.frame]
      exact h.keep ran spec.still spec.fds_eq (by simp [state]) (by simp [state]) (by simp [state])
  | relayEnded phase ended run =>
      have spec := (connectionForward_runs run ran.admitted).1
      exact h.keep ran spec.still spec.fds_eq (by simp [phase, Waits]) (by simp [Untargeted])
        (by simp [Targeted])
  | closed => simp at live

theorem Ticked.live (h : Ticked st tr (some st')) : st.expired = false := by
  cases h <;> assumption

theorem Ticked.attended (ticked : Ticked st tr (some st')) (h : Attended c st k)
    (ran : k.Ran (.client c) tr k') (live : st'.expired = false) : Attended c st' k' := by
  cases ticked with
  | active => exact h.keep ran (by simp [Still, Io.fdEffect]) ⟨rfl, rfl⟩ (fun _ _ => id) id id
  | silenced => simp at live
  | expired => simp at live

theorem Registered.attended (registered : Registered fd tr (some st)) (real : fd ≠ -1)
    (ran : k.Ran (.client c) (⟨.accept, .conn fd⟩ :: tr) k') : Attended c st k' := by
  cases registered with
  | created now =>
      refine ⟨real, fun _ => rfl, by simp [Targeted, ClientState.create], fun side hfd => ?_⟩
      cases side with
      | client =>
          refine ⟨⟨true, false⟩, ?_, rfl⟩
          rw [ran.registration]
          simp [Io.registration, Io.fdEffect, ClientState.fd, ClientState.create, Side.fdType,
            Party.clientState]
      | target => exact absurd rfl hfd

/-! ## Who registers what -/

theorem Still.registersNone (h : Still tr) : ∀ e ∈ tr, e.registers? = none := by
  intro e he
  obtain heff | ⟨f, heff⟩ := h e he <;> simp [Io.registers?, heff]

theorem SideClosed.registersNone {side : Side} (h : SideClosed side fd tr) :
    ∀ e ∈ tr, e.registers? = none := by
  cases h with
  | absent => simp
  | closed _ ok => cases ok <;> simp [Io.registers?, Io.fdEffect]

theorem Released.registersNone (h : Released st tr) : ∀ e ∈ tr, e.registers? = none := by
  obtain ⟨client, target⟩ := h
  refine List.forall_mem_append.mpr ⟨?_, target.registersNone⟩
  cases client <;> simp [Io.registers?, Io.fdEffect]

theorem Ticked.registersNone {s : Option ClientState} (h : Ticked st tr s) :
    ∀ e ∈ tr, e.registers? = none := by
  cases h with
  | active => simp [Io.registers?, Io.fdEffect]
  | released _ release =>
      exact List.forall_mem_cons.mpr ⟨rfl, release.registersNone⟩
  | silenced _ _ _ _ ok₁ ok₂ =>
      cases ok₁ <;> cases ok₂ <;> simp [Io.registers?, Io.fdEffect]
  | expired => simp [Io.registers?, Io.fdEffect]

theorem Registering.registersOwn {clientFd targetFd : Fd} (h : Registering clientFd targetFd tr)
    (client : clientFd ∈ held) (target : targetFd ∈ held) : RegistersOwn held tr := by
  cases h with
  | both ok =>
      cases ok <;> simp [KeepsTo, Io.registers?, Io.fdEffect, Io.holding, Call.releases?,
        client, target]
  | _ => simp [KeepsTo, Io.registers?, Io.fdEffect, Io.holding, Call.releases?, client]

/-- The new descriptor is the one that is registered. -/
theorem Opened.registersOwn {ok : Bool} {data : Option EpollFdType} {room : Bool}
    (opened : Opened st tr st') {t : History} (later : ∀ e ∈ t, e.registers? = none) :
    RegistersOwn held
      (tr ++ ⟨.malloc, room⟩ :: ⟨.epollAdd .target st'.targetFd ⟨false, true⟩ data, ok⟩ :: t) := by
  refine keepsTo_append (keepsTo_of_none opened.still.registersNone) fun held' hold => ?_
  obtain rfl := Option.some.inj (opened.holding_eq.symm.trans hold)
  refine ⟨by simp [Io.registers?, Io.fdEffect], fun held₁ hold₁ => ⟨?_, fun _ _ =>
    keepsTo_of_none later⟩⟩
  obtain rfl : st'.targetFd :: held = held₁ := by
    simpa [Io.holding, Call.releases?, Io.fdEffect] using hold₁
  cases ok <;> simp [Io.registers?, Io.fdEffect]

theorem Move.registersOwn (move : Move ev st tr st' again) (client : st.clientFd ≠ -1)
    (connecting : st.state = .connecting → st.targetFd ≠ -1) (ok : Admitted tr) :
    RegistersOwn st.fds tr := by
  have read : ∀ {g : History} {st₁ : ClientState} {r : RecvResult}, MadeRoom st g st₁ →
      RegistersOwn st.fds (g ++ [⟨readCall st₁, r⟩]) := by
    intro g st₁ r room
    refine keepsTo_of_none (List.forall_mem_append.mpr ⟨room.still.registersNone, ?_⟩)
    simp [Io.registers?, Io.fdEffect, readCall]
  cases move with
  | growFailed => exact keepsTo_of_none (by simp [Io.registers?, Io.fdEffect])
  | readFailed _ room => exact read room
  | readNothing _ room => exact read room
  | readPart _ _ room => exact read room
  | readHeader _ _ room => exact read room
  | rejected => exact keepsTo_of_none (by simp [Io.registers?, Io.fdEffect])
  | noHost => exact keepsTo_of_none (by simp [Io.registers?, Io.fdEffect])
  | accepted => exact keepsTo_of_none (by simp [Io.registers?, Io.fdEffect])
  | unresolved => exact keepsTo_of_none (by simp [Io.registers?, Io.fdEffect])
  | noSocket => exact keepsTo_of_none (by simp [Io.registers?, Io.fdEffect])
  | refused => exact keepsTo_of_none (by simp [Io.registers?, Io.fdEffect])
  | started room _ opened => exact opened.registersOwn (by simp)
  | addFailed room _ opened =>
      exact opened.registersOwn (by simp [Io.registers?, Io.fdEffect])
  | connectFailed => exact keepsTo_of_none (by simp [Io.registers?, Io.fdEffect])
  | @connected g t st₁ phase reply register =>
      have asked : Still [⟨.getsockopt st.targetFd, .code 0⟩] := by simp [Still, Io.fdEffect]
      have askedIdle : Idle [⟨.getsockopt st.targetFd, .code 0⟩] := by
        simp [Idle, Io.holding, Call.releases?, Io.fdEffect]
      have still := asked.append reply.still
      have idle := askedIdle.append reply.idle
      refine keepsTo_append (keepsTo_of_none still.registersNone) fun held' hold => ?_
      obtain rfl := Option.some.inj (idle.holding_eq.symm.trans hold)
      rw [reply.fds_eq.1, reply.fds_eq.2] at register
      exact register.registersOwn (client_mem client)
        (by simp [ClientState.fds, connecting phase])
  | relayed _ run =>
      have spec : TransferSpec st st' tr := (connectionForward_runs run ok).1
      exact keepsTo_of_none spec.still.registersNone
  | relayEnded _ _ run =>
      have spec := (connectionForward_runs run ok).1
      exact keepsTo_of_none spec.still.registersNone
  | closed _ client target =>
      exact keepsTo_of_none
        (List.forall_mem_append.mpr ⟨client.registersNone, target.registersNone⟩)

theorem Registered.registersOwn {s : Option ClientState} (h : Registered fd tr s) :
    RegistersOwn [] (⟨.accept, .conn fd⟩ :: tr) := by
  cases h with
  | noState => exact keepsTo_of_none (by simp [Io.registers?, Io.fdEffect])
  | noBuffers => exact keepsTo_of_none (by simp [Io.registers?, Io.fdEffect])
  | noData now release =>
      refine keepsTo_of_none (List.forall_mem_cons.mpr ⟨rfl, ?_⟩)
      refine List.forall_mem_append.mpr ⟨?_, release.registersNone⟩
      simp [Io.registers?, Io.fdEffect]
  | addFailed now release =>
      refine keepsTo_of_none (List.forall_mem_cons.mpr ⟨rfl, ?_⟩)
      refine List.forall_mem_append.mpr ⟨?_, release.registersNone⟩
      simp [Io.registers?, Io.fdEffect]
  | created now =>
      simp [KeepsTo, Io.registers?, Io.fdEffect, Io.holding, Call.releases?]

/-! ## All clients -/

/-- No registration failed so far. -/
def AllRegistered (k : Kernel) : Prop := ∀ entry ∈ k.trace, entry.io.registerFailed = false

theorem Io.addFailed_of_registered (h : e.registerFailed = false) : e.addFailed = false := by
  obtain ⟨call, r⟩ := e
  cases call with
  | epollAdd side fd events data =>
      cases side with
      | client => rfl
      | target => exact h
  | _ => rfl

theorem AllRegistered.noAddFailed (h : AllRegistered k) : NoAddFailed k := fun entry hentry =>
  Io.addFailed_of_registered (h entry hentry)

namespace Attended

/-- A client owns its descriptors, and is attended to while it is not expired. -/
structure Served (c : ClientId) (s : Option ClientState) (k : Kernel) : Prop where
  owned : NoAddFailed k → Owned c s k
  attended : AllRegistered k → ∀ st ∈ s, st.expired = false → Attended c st k

/-- The rest of the world keeps its descriptors, and they stay registered. -/
structure Guarantee (who : Party) (k k' : Kernel) : Prop where
  owned : Owned.Guarantee who k k'
  undisturbed : AllRegistered k' → Kernel.Undisturbed who k k'

theorem Guarantee.allRegistered (h : Guarantee who k k') (fine : AllRegistered k') :
    AllRegistered k := fun entry hentry => fine entry (h.owned.grows.subset hentry)

variable {s s₀ : Option ClientState}

/-- One party registers what it holds. -/
theorem Served.act (h : Served c s₀ k) (ran : k.Ran (.client c) tr k')
    (old : (NoAddFailed k' → Owned c s k') ∧ Owned.Guarantee (.client c) k k')
    (own : AllRegistered k → Owned c s₀ k → (∀ e ∈ tr, e.addFailed = false) →
      ∃ held, k.Owns (.client c) held ∧ Leaves held tr s ∧ RegistersOwn held tr)
    (attended : AllRegistered k → Owned c s₀ k → Owned c s k' →
      (∀ e ∈ tr, e.registerFailed = false) → ∀ st ∈ s, st.expired = false → Attended c st k') :
    Served c s k' ∧ Guarantee (.client c) k k' := by
  have before : AllRegistered k' → AllRegistered k := fun fine entry hentry =>
    fine entry (ran.trace_grows.subset hentry)
  refine ⟨⟨old.1, fun fine => ?_⟩, old.2, fun fine => ?_⟩
  · exact attended (before fine) (h.owned (before fine).noAddFailed) (old.1 fine.noAddFailed)
      (ran.forall_calls fine)
  · obtain ⟨held, owns, ⟨all, hold, -⟩, own⟩ := own (before fine)
      (h.owned (before fine).noAddFailed) (ran.forall_calls fine.noAddFailed)
    exact ran.undisturbed owns hold own

theorem Served.unborn (h : NoAddFailed k → Owned c none k) : Served c none k := ⟨h, by simp⟩

theorem relyGuarantee : RelyGuarantee (fun c k => NoAddFailed k → Owned c none k) Served
    Guarantee where
  refl := ⟨Owned.relyGuarantee.refl, fun _ _ _ _ _ => rfl⟩
  trans h₁ h₂ := by
    refine ⟨Owned.relyGuarantee.trans h₁.owned h₂.owned, fun fine fd p hp hfd => ?_⟩
    have fine₁ := h₂.allRegistered fine
    have stays := (h₁.owned.apart fine₁.noAddFailed).1 fd p hp hfd
    rw [h₂.undisturbed fine fd p hp stays, h₁.undisturbed fine₁ fd p hp hfd]
  apart := by
    intro who c s k k' hF hwho h
    refine ⟨Owned.relyGuarantee.apart hF.owned hwho h.owned, fun fine st hst live => ?_⟩
    have fine₀ := hF.allRegistered fine
    have attended := h.attended fine₀ st hst live
    -- its descriptors are its own, so nobody else registers them
    refine ⟨attended.client, attended.early, attended.targeted, fun side hfd => ?_⟩
    have mine := ((h.owned fine₀.noAddFailed).fields st hst).open' _ (mem_fds hfd)
    rw [hF.undisturbed fine _ _ hwho.symm mine]
    exact attended.registered side hfd
  unborn hF hwho h := Owned.relyGuarantee.unborn hF.owned hwho h
  readTimer := by
    intro k ok k' ran
    refine ⟨Owned.relyGuarantee.readTimer ran, fun _ => ?_⟩
    have own : RegistersOwn [] [(⟨.readTimer, ok⟩ : Io)] :=
      keepsTo_of_none (by simp [Io.registers?, Io.fdEffect])
    exact ran.undisturbed Owned.owns_nil rfl own
  refused := by
    intro c k r k' h ran
    refine (Served.unborn h).act ran (Owned.relyGuarantee.refused h ran)
      (fun _ _ _ => ⟨[], Owned.owns_nil, ?_, ?_⟩) (by simp)
    · cases r <;> exact ⟨_, rfl, by simp⟩
    · cases r <;> exact keepsTo_of_none (by simp [Io.registers?, Io.fdEffect])
  born := by
    intro c k fd tr s k' h registered ran
    have real := ran.accepted_real
    refine (Served.unborn h).act ran (Owned.relyGuarantee.born h registered ran)
      (fun _ _ _ => ⟨[], Owned.owns_nil, registered.leaves real, registered.registersOwn⟩)
      fun _ _ _ _ st hst _ => ?_
    rw [Option.mem_def] at hst
    subst hst
    exact registered.attended real ran
  slot := by
    intro c st k n h
    refine ⟨Owned.relyGuarantee.slot n h.owned, fun fine st' hst live => ?_⟩
    obtain rfl := Option.some.inj hst
    have attended := h.attended fine st rfl live
    exact ⟨attended.client, attended.early, attended.targeted, attended.registered⟩
  move := by
    intro c st k ev tr st' again k' h live move ran
    refine h.act ran (Owned.relyGuarantee.move h.owned live move ran)
      (fun fine owned added => ⟨_, owned.fields _ rfl, ?_, ?_⟩)
      fun fine owned owned' calls st₁ hst live' => ?_
    · exact move.leaves (owned.fields _ rfl).nodup (owned.connecting _ rfl) ran.admitted added
    · exact move.registersOwn (h.attended fine st rfl live).client (owned.connecting _ rfl)
        ran.admitted
    · obtain rfl := Option.some.inj hst
      exact move.attended (h.attended fine st rfl live) owned owned' ran calls live'
  tick := by
    intro c st k tr s k' h ticked ran
    refine h.act ran (Owned.relyGuarantee.tick h.owned ticked ran)
      (fun _ owned _ => ⟨_, owned.fields _ rfl, ?_, keepsTo_of_none ticked.registersNone⟩)
      fun fine _ _ _ st₁ hst live' => ?_
    · exact ticked.leaves (owned.fields _ rfl).nodup (owned.connecting _ rfl)
    · rw [Option.mem_def] at hst
      subst hst
      exact ticked.attended (h.attended fine st rfl ticked.live) ran live'
  release h released ran :=
    h.act ran (Owned.relyGuarantee.release h.owned released ran)
      (fun _ owned _ => ⟨_, owned.fields _ rfl, released.leaves (owned.fields _ rfl).nodup,
        keepsTo_of_none released.registersNone⟩) (by simp)

end Attended

/-- In every reachable world in which no registration failed, every client that is not expired
is attended to. -/
theorem attended_reachable {w : World} (h : proxy.Reachable w) (fine : AllRegistered w.kernel)
    (live : w.mem.heap c = some st) (active : st.expired = false) : Attended c st w.kernel := by
  have holds := Attended.relyGuarantee.reachable (fun _ hw _ _ => Owned.boot hw) h
  exact (holds.live live).attended fine st rfl active

end SimpleProxy
