import SimpleProxy.Logic.Steps

/-!
# The interest set over a step

A descriptor enters the interest set through `EPOLL_CTL_ADD` only, and the proxy
adds a descriptor only right after `accept` or `socket` returned it
(`interest_step`). The calls of a step are enough to follow the kernel through
it: `World.Step.replay` runs them again, which is how `DelsSucceed` can speak
about the moment of each call.
-/

namespace SimpleProxy

open Interact CString

/-- The descriptor a call adds to the interest set. -/
def Io.adds? : Io → Option Fd
  | ⟨.epollAdd _ fd _ _, true⟩ => some fd
  | _ => none

variable {k k' : Kernel} {fd : Fd} {tr t t₁ t₂ : History} {st st' : ClientState}

/-! ## Replaying the record -/

/-- The exchange an entry records. -/
def TraceEntry.exchange (entry : TraceEntry) : Exchange (ByParty Party Answer) :=
  entry.io.by entry.who

theorem Kernel.run_trace {tr : List (Exchange (ByParty Party Answer))}
    (h : Kernel.env.run k tr = some k') :
    ∃ new, k'.trace = k.trace ++ new ∧ new.map TraceEntry.exchange = tr := by
  induction tr generalizing k with
  | nil =>
      obtain rfl := Option.some.inj h
      exact ⟨[], by simp, rfl⟩
  | cons e tr ih =>
      obtain ⟨k₁, hstep, hrest⟩ := Option.bind_eq_some_iff.mp h
      obtain ⟨new, heq, hmap⟩ := ih hrest
      rw [Kernel.step_trace hstep, List.append_assoc] at heq
      refine ⟨_, heq, ?_⟩
      rw [List.singleton_append, List.map_cons, hmap]
      rfl

/-- The new calls of a step lead from its first kernel to its last one. -/
theorem World.Step.replay {w w' : World} (h : World.Step w w') :
    Kernel.env.run w.kernel ((w.newCalls w').map TraceEntry.exchange) = some w'.kernel := by
  cases h with
  | @wait events =>
      show Kernel.env.run w.kernel ((w.newCalls w).map TraceEntry.exchange) = some w.kernel
      unfold World.newCalls
      rw [List.drop_length]
      rfl
  | handle next run allowed =>
      obtain ⟨new, heq, hmap⟩ := Kernel.run_trace allowed
      unfold World.newCalls
      rw [heq, List.drop_left, hmap]
      exact allowed

/-- `EPOLL_CTL_DEL` fails only for descriptors that are not registered, in these
calls from kernel `k`. -/
def Kernel.delsSucceed (k : Kernel) : List TraceEntry → Bool
  | [] => true
  | entry :: rest =>
    (match entry.io with
      | ⟨.epollDel _ fd, false⟩ => (k.interest fd).isNone
      | _ => true) &&
    match Kernel.env.step k entry.exchange.call entry.exchange.answer with
    | some k' => k'.delsSucceed rest
    | none => true

/-! ## Entering and leaving the interest set -/

theorem Kernel.step_interest {c : Party × Call} {r : Answer c.2}
    (h : Kernel.env.step k c r = some k') (watched : k'.interest fd ≠ none) :
    k.interest fd ≠ none ∨ Io.adds? ⟨c.2, r⟩ = some fd := by
  obtain ⟨-, k₁, heff, rfl⟩ := Kernel.step_eq_some h
  replace watched : k₁.interest fd ≠ none := watched
  obtain ⟨who, call⟩ := c
  cases call with
  -- a call that fails changes nothing, one that succeeds only its own descriptor
  | epollAdd side f events data =>
      cases r with
      | false =>
          obtain rfl := Option.some.inj heff
          exact .inl watched
      | true =>
          obtain ⟨known, ⟨⟩⟩ := Option.ite_none_right_eq_some.mp heff
          by_cases hf : f = fd
          · exact .inr (congrArg some hf)
          · exact .inl (by simpa [Kernel.register, Ne.symm hf] using watched)
  | epollMod side f events data =>
      cases r with
      | false =>
          obtain rfl := Option.some.inj heff
          exact .inl watched
      | true =>
          obtain ⟨known, ⟨⟩⟩ := Option.ite_none_right_eq_some.mp heff
          by_cases hf : f = fd
          · exact .inl (hf ▸ known)
          · exact .inl (by simpa [Kernel.register, Ne.symm hf] using watched)
  | epollDel side f =>
      cases r with
      | false =>
          obtain rfl := Option.some.inj heff
          exact .inl watched
      | true =>
          obtain ⟨known, ⟨⟩⟩ := Option.ite_none_right_eq_some.mp heff
          by_cases hf : f = fd
          · simp [Kernel.register, hf] at watched
          · exact .inl (by simpa [Kernel.register, Ne.symm hf] using watched)
  | close side f =>
      obtain rfl := Option.some.inj heff
      -- a closed descriptor leaves the set
      by_cases hf : f = fd
      · simp [Kernel.closeFd, hf] at watched
      · exact .inl (by simpa [Kernel.closeFd, Ne.symm hf] using watched)
  | socket =>
      cases r with
      | none =>
          obtain rfl := Option.some.inj heff
          exact .inl watched
      | some f =>
          obtain ⟨free, ⟨⟩⟩ := Option.ite_none_right_eq_some.mp heff
          exact .inl watched
  | accept =>
      cases r with
      | conn f =>
          obtain ⟨free, ⟨⟩⟩ := Option.ite_none_right_eq_some.mp heff
          exact .inl watched
      | again =>
          obtain rfl := Option.some.inj heff
          exact .inl watched
      | error =>
          obtain rfl := Option.some.inj heff
          exact .inl watched
  | _ =>
      obtain rfl := Option.some.inj heff
      exact .inl watched

/-- What is registered after some calls was so before, or was added by them. -/
theorem Kernel.run_interest {entries : List TraceEntry}
    (h : Kernel.env.run k (entries.map TraceEntry.exchange) = some k')
    (watched : k'.interest fd ≠ none) :
    k.interest fd ≠ none ∨ ∃ entry ∈ entries, entry.io.adds? = some fd := by
  induction entries generalizing k with
  | nil =>
      obtain rfl := Option.some.inj h
      exact .inl watched
  | cons entry entries ih =>
      obtain ⟨k₁, hstep, hrest⟩ := Option.bind_eq_some_iff.mp h
      rcases ih hrest with before | ⟨entry', hmem, hadds⟩
      · rcases Kernel.step_interest hstep before with before | hadds
        · exact .inl before
        · exact .inr ⟨entry, List.mem_cons_self, hadds⟩
      · exact .inr ⟨entry', List.mem_cons_of_mem _ hmem, hadds⟩

/-- What `EPOLL_CTL_DEL` took out stays out until it is added again. -/
theorem Kernel.run_unregistered {entries : List TraceEntry} {side : Side} {ok : Bool}
    (h : Kernel.env.run k (entries.map TraceEntry.exchange) = some k')
    (works : k.delsSucceed entries = true)
    (noAdd : ∀ entry ∈ entries, entry.io.adds? ≠ some fd)
    (del : ∃ entry ∈ entries, entry.io = ⟨.epollDel side fd, ok⟩) : k'.interest fd = none := by
  induction entries generalizing k with
  | nil =>
      obtain ⟨entry, hmem, -⟩ := del
      cases hmem
  | cons entry entries ih =>
      obtain ⟨k₁, hstep, hrest⟩ := Option.bind_eq_some_iff.mp h
      unfold Kernel.delsSucceed at works
      obtain ⟨hworks, hworks'⟩ := Bool.and_eq_true_iff.mp works
      rw [show Kernel.env.step k entry.exchange.call entry.exchange.answer = some k₁ from hstep]
        at hworks'
      have later : ∀ entry' ∈ entries, entry'.io.adds? ≠ some fd :=
        fun entry' hmem => noAdd entry' (List.mem_cons_of_mem _ hmem)
      obtain ⟨entry', hmem, hio⟩ := del
      rcases List.mem_cons.mp hmem with rfl | hmem
      · -- the call itself: out of the set at that moment
        obtain ⟨who, owner, io⟩ := entry'
        obtain rfl : io = _ := hio
        obtain ⟨-, k₂, heff, rfl⟩ := Kernel.step_eq_some hstep
        have out : k₂.interest fd = none := by
          cases ok with
          | true =>
              obtain ⟨known, ⟨⟩⟩ := Option.ite_none_right_eq_some.mp heff
              simp [Kernel.register]
          | false =>
              obtain rfl := Option.some.inj heff
              exact Option.isNone_iff_eq_none.mp hworks
        apply Classical.byContradiction
        intro watched
        rcases Kernel.run_interest hrest watched with before | ⟨entry, hmem, hadds⟩
        · exact before out
        · exact later entry hmem hadds
      · exact ih hrest hworks' later ⟨entry', hmem, hio⟩

/-! ## Descriptors are added when they are new -/

/-- Whatever is added to the interest set was opened among the same calls. -/
def AddsOpened (t : History) : Prop :=
  ∀ e ∈ t, ∀ fd, e.adds? = some fd → ∃ e' ∈ t, e'.fdEffect = .opens fd

def AddsNothing (t : History) : Prop := ∀ e ∈ t, e.adds? = none

theorem AddsNothing.append (h₁ : AddsNothing t₁) (h₂ : AddsNothing t₂) : AddsNothing (t₁ ++ t₂) :=
  fun e he => (List.mem_append.mp he).elim (h₁ e) (h₂ e)

theorem AddsNothing.opened (h : AddsNothing t) : AddsOpened t := by
  intro e he fd hadds
  rw [h e he] at hadds
  cases hadds

theorem AddsOpened.append (h₁ : AddsOpened t₁) (h₂ : AddsOpened t₂) : AddsOpened (t₁ ++ t₂) := by
  intro e he fd hadds
  rcases List.mem_append.mp he with hmem | hmem
  · obtain ⟨e', he', heff⟩ := h₁ e hmem fd hadds
    exact ⟨e', List.mem_append_left _ he', heff⟩
  · obtain ⟨e', he', heff⟩ := h₂ e hmem fd hadds
    exact ⟨e', List.mem_append_right _ he', heff⟩

theorem Still.addsNothing (h : Still t) : AddsNothing t := by
  intro e he
  unfold Io.adds?
  split
  · rcases h _ he with heff | ⟨f, heff⟩
    · cases heff
    · cases heff
  · rfl

theorem Registering.addsNothing {clientFd targetFd : Fd} (h : Registering clientFd targetFd t) :
    AddsNothing t := by
  cases h <;> simp [AddsNothing, Io.adds?]

theorem SideClosed.addsNothing {side : Side} (h : SideClosed side fd t) : AddsNothing t := by
  cases h <;> simp [AddsNothing, Io.adds?]

theorem Released.addsNothing (h : Released st t) : AddsNothing t := by
  cases h with
  | both client target =>
      refine .append ?_ target.addsNothing
      cases client <;> simp [AddsNothing, Io.adds?]

theorem Ticked.addsNothing {res : Option ClientState} (h : Ticked st t res) : AddsNothing t := by
  cases h with
  | released _ release => simpa [AddsNothing, Io.adds?] using release.addsNothing
  | _ => simp [AddsNothing, Io.adds?]

/-- A new client is added under the number `accept` returned. -/
theorem Registered.addsOpened {res : Option ClientState} (h : Registered fd t res) :
    AddsOpened (⟨.accept, .conn fd⟩ :: t) := by
  cases h with
  | noState => exact AddsNothing.opened (by simp [AddsNothing, Io.adds?])
  | noBuffers => exact AddsNothing.opened (by simp [AddsNothing, Io.adds?])
  | noData _ release =>
      rw [← List.cons_append]
      exact (AddsNothing.append (by simp [AddsNothing, Io.adds?]) release.addsNothing).opened
  | addFailed _ release =>
      rw [← List.cons_append]
      exact (AddsNothing.append (by simp [AddsNothing, Io.adds?]) release.addsNothing).opened
  | created => simp [AddsOpened, Io.adds?, Io.fdEffect]

/-- A target is opened before it is added. -/
theorem Opened.opens (h : Opened st t st') : ∃ e ∈ t, e.fdEffect = .opens st'.targetFd := by
  cases h with
  | inProgress fd addr => exact ⟨⟨.socket, some fd⟩, by simp, rfl⟩
  | atOnce fd addr reply =>
      refine ⟨⟨.socket, some fd⟩, by simp, ?_⟩
      rw [reply.fds_eq.2]
      rfl

theorem Move.addsOpened {ev : ClientEvent} {again : Bool} (h : Move ev st t st' again)
    (ok : Admitted t) : AddsOpened t := by
  have read : ∀ {g st₁ r}, MadeRoom st g st₁ → AddsOpened (g ++ [⟨readCall st₁, r⟩]) := by
    intro g st₁ r room
    exact (room.still.addsNothing.append (by simp [AddsNothing, Io.adds?, readCall])).opened
  cases h with
  | growFailed => exact AddsNothing.opened (by simp [AddsNothing, Io.adds?])
  | readFailed _ room => exact read room
  | readNothing _ room => exact read room
  | readPart _ _ room => exact read room
  | readHeader _ _ room => exact read room
  | rejected => exact AddsNothing.opened (by simp [AddsNothing, Io.adds?])
  | noHost => exact AddsNothing.opened (by simp [AddsNothing, Io.adds?])
  | accepted => exact AddsNothing.opened (by simp [AddsNothing, Io.adds?])
  | unresolved => exact AddsNothing.opened (by simp [AddsNothing, Io.adds?])
  | noSocket => exact AddsNothing.opened (by simp [AddsNothing, Io.adds?])
  | refused => exact AddsNothing.opened (by simp [AddsNothing, Io.adds?])
  | started room _ opened =>
      obtain ⟨e, he, heff⟩ := opened.opens
      intro e' he' fd hadds
      rcases List.mem_append.mp he' with hmem | hmem
      · rw [opened.still.addsNothing e' hmem] at hadds
        cases hadds
      · refine ⟨e, List.mem_append_left _ he, ?_⟩
        rcases List.mem_cons.mp hmem with rfl | hmem
        · cases hadds
        · rw [List.mem_singleton.mp hmem] at hadds
          cases hadds
          exact heff
  | addFailed room _ opened =>
      exact (opened.still.addsNothing.append (by simp [AddsNothing, Io.adds?])).opened
  | connectFailed => exact AddsNothing.opened (by simp [AddsNothing, Io.adds?])
  | connected _ reply register =>
      rw [← List.singleton_append]
      refine AddsNothing.opened (.append (.append ?_ reply.still.addsNothing) register.addsNothing)
      simp [AddsNothing, Io.adds?]
  | relayed _ run => exact (connectionForward_runs run ok).1.still.addsNothing.opened
  | relayEnded _ _ run => exact (connectionForward_runs run ok).1.still.addsNothing.opened
  | closed _ client target => exact (client.addsNothing.append target.addsNothing).opened

theorem Moves.addsOpened {ev : ClientEvent} (h : Moves ev st t st') (ok : Admitted t) :
    AddsOpened t := by
  induction h with
  | ignored => exact AddsNothing.opened (by simp [AddsNothing])
  | last _ move => exact move.addsOpened ok
  | again _ move _ ih => exact (move.addsOpened ok.append.1).append (ih ok.append.2)

/-- The same for the calls recorded between two kernels. -/
def Kernel.AddsOpened (k k' : Kernel) : Prop :=
  ∃ new, k'.trace = k.trace ++ new ∧ SimpleProxy.AddsOpened (new.map TraceEntry.io)

theorem Kernel.AddsOpened.refl : k.AddsOpened k :=
  ⟨[], by simp, AddsNothing.opened (by simp [AddsNothing])⟩

theorem Kernel.AddsOpened.trans {k₁ : Kernel} (h₁ : k.AddsOpened k₁) (h₂ : k₁.AddsOpened k') :
    k.AddsOpened k' := by
  obtain ⟨t₁, heq₁, hadds₁⟩ := h₁
  obtain ⟨t₂, heq₂, hadds₂⟩ := h₂
  refine ⟨t₁ ++ t₂, by rw [heq₂, heq₁, List.append_assoc], ?_⟩
  rw [List.map_append]
  exact hadds₁.append hadds₂

theorem Kernel.Ran.addsOpened {who : Party} (h : k.Ran who t k') (adds : SimpleProxy.AddsOpened t) :
    k.AddsOpened k' := by
  obtain ⟨new, heq, hmap⟩ := Kernel.run_trace h
  refine ⟨new, heq, ?_⟩
  have same : new.map TraceEntry.io = t := by
    have := congrArg
      (List.map fun e : Exchange (ByParty Party Answer) => (⟨e.call.2, e.answer⟩ : Io)) hmap
    simpa [Function.comp_def, TraceEntry.exchange, Exchange.by] using this
  rw [same]
  exact adds

theorem Births.addsOpened {mem mem' : Memory} (h : Births mem k mem' k') : k.AddsOpened k' := by
  have one : ∀ {mem k mem' k'}, Birth mem k mem' k' → Kernel.AddsOpened k k' := by
    intro mem k mem' k' birth
    cases birth with
    | refused _ ran => exact ran.addsOpened (AddsNothing.opened (by simp [AddsNothing, Io.adds?]))
    | unregistered failed _ ran => exact ran.addsOpened failed.addsOpened
    | turnedAway created _ release ran =>
        exact ran.addsOpened (created.addsOpened.append release.addsNothing.opened)
    | registered created _ ran => exact ran.addsOpened created.addsOpened
  induction h with
  | last birth => exact one birth
  | more birth _ ih => exact (one birth).trans ih

/-- A pass of the timer adds nothing. -/
theorem Sweeps.adds {slots : List Nat} {mem mem' : Memory} (h : Sweeps slots mem k mem' k') :
    k.Adds (fun entry => entry.io.adds? = none) k' := by
  induction h with
  | done => exact .refl
  | slot sweep _ ih =>
      refine Kernel.Adds.trans ?_ ih
      cases sweep with
      | empty => exact .refl
      | kept _ _ ticked ran => exact ran.adds.mono fun _ h => ticked.addsNothing _ h.2
      | freed _ _ ticked ran => exact ran.adds.mono fun _ h => ticked.addsNothing _ h.2

theorem Kernel.Adds.addsOpened (h : k.Adds (fun entry => entry.io.adds? = none) k') :
    k.AddsOpened k' := by
  obtain ⟨new, heq, hall⟩ := h
  refine ⟨new, heq, AddsNothing.opened ?_⟩
  intro e he
  obtain ⟨entry, hentry, rfl⟩ := List.mem_map.mp he
  exact hall entry hentry

theorem World.Step.addsOpened {w w' : World} (h : World.Step w w') :
    w.kernel.AddsOpened w'.kernel := by
  have timer : ∀ {ok k₁}, w.kernel.Ran .proxy [⟨.readTimer, ok⟩] k₁ → w.kernel.AddsOpened k₁ :=
    fun read => read.addsOpened (AddsNothing.opened (by simp [AddsNothing, Io.adds?]))
  cases h with
  | wait => exact .refl
  | handle next run allowed =>
      obtain ⟨d, hdata, handled⟩ := handleEvent_acts run allowed
      cases handled with
      | listener births => exact births.addsOpened
      | timerFailed read => exact timer read
      | timer read sweeps => exact (timer read).trans sweeps.adds.addsOpened
      | client _ _ moves ran => exact ran.addsOpened (moves.addsOpened ran.admitted)
      | ignored => exact .refl

/-- **The interest set over a step.** What is registered after a step was so
before, or it is a number the kernel handed out in this step. -/
theorem World.Step.interest {w w' : World} (h : World.Step w w')
    (watched : w'.kernel.interest fd ≠ none) :
    w.kernel.interest fd ≠ none ∨ ∃ entry ∈ w.newCalls w', entry.io.fdEffect = .opens fd := by
  rcases Kernel.run_interest h.replay watched with before | ⟨entry, hmem, hadds⟩
  · exact .inl before
  · obtain ⟨new, heq, opened⟩ := h.addsOpened
    have same : w.newCalls w' = new := by rw [World.newCalls, heq, List.drop_left]
    rw [same] at hmem ⊢
    obtain ⟨e, he, heff⟩ := opened entry.io (List.mem_map_of_mem hmem) fd hadds
    obtain ⟨entry', hmem', rfl⟩ := List.mem_map.mp he
    exact .inr ⟨entry', hmem', heff⟩

end SimpleProxy
