import SimpleProxy.Logic.Registry
import SimpleProxy.Logic.Watches

/-!
# One step of the loop, seen from one client

`World.Step.client` says what a step of `run_loop` can do to a given client:
nothing, its birth, one event, or one tick of the timer. A step also leaves the
rest of the batch as it was fetched, so events can be stale when their turn
comes; `targetEvents_reachable` says how stale an event of a target can be.
-/

namespace SimpleProxy

open Interact CString

/-- The calls a step added to the record. -/
def World.newCalls (w w' : World) : List TraceEntry :=
  w'.kernel.trace.drop w.kernel.trace.length

/-- The timer was read. -/
def TraceEntry.readsTimer : TraceEntry → Bool
  | ⟨_, _, .readTimer, true⟩ => true
  | _ => false

/-- What one step of the loop can do to client `c`. -/
inductive ClientStep (c : ClientId) (w w' : World) : Prop
  | rest (heap : w'.mem.heap c = w.mem.heap c) (history : w'.kernel.history c = w.kernel.history c)
  | born (unborn : w.mem.nextId ≤ c)
  | event {e : EpollEvent} {fdType : EpollFdType} {st st' : ClientState} {tr : History}
      (next : w.batch = e :: w'.batch) (data : e.data = some ⟨fdType, some c⟩)
      (live : w.mem.heap c = some st) (moves : Moves ⟨fdType, e.events⟩ st tr st')
      (admitted : Admitted tr) (heap : w'.mem.heap c = some st')
      (history : w'.kernel.history c = w.kernel.history c ++ tr)
  | tick {st : ClientState} {tr : History} (live : w.mem.heap c = some st)
      (read : ∃ entry ∈ w.newCalls w', entry.readsTimer = true)
      (ticked : Ticked st tr (w'.mem.heap c))
      (history : w'.kernel.history c = w.kernel.history c ++ tr)

variable {mem mem' : Memory} {k k' : Kernel} {c : ClientId}

/-- A client that exists already has no part in the accept loop. -/
theorem Birth.client (h : Birth mem k mem' k') (hc : c < mem.nextId) :
    mem'.heap c = mem.heap c ∧ k'.history c = k.history c := by
  have hne : c ≠ mem.nextId := Nat.ne_of_lt hc
  have hwho : Party.client mem.nextId ≠ .client c := by simpa using hne.symm
  cases h with
  | refused _ ran => exact ⟨rfl, ran.history_other hwho⟩
  | unregistered _ left ran =>
      rcases left with rfl | rfl
      · exact ⟨rfl, ran.history_other hwho⟩
      · exact ⟨by simp [Memory.free, hne], ran.history_other hwho⟩
  | turnedAway _ _ _ ran => exact ⟨by simp [Memory.free, hne], ran.history_other hwho⟩
  | registered _ _ ran => exact ⟨by simp [Memory.write, hne], ran.history_other hwho⟩

theorem Births.client (h : Births mem k mem' k') (hc : c < mem.nextId) :
    mem'.heap c = mem.heap c ∧ k'.history c = k.history c := by
  induction h with
  | last birth => exact birth.client hc
  | more birth _ ih =>
      obtain ⟨hheap, hhistory⟩ := birth.client hc
      obtain ⟨hheap', hhistory'⟩ := ih (birth.nextId_eq ▸ Nat.lt_succ_of_lt hc)
      exact ⟨hheap'.trans hheap, hhistory'.trans hhistory⟩

/-! ## The record only grows -/

/-- From `k` to `k'` the record grew by calls that satisfy `P`. -/
def Kernel.Adds (P : TraceEntry → Prop) (k k' : Kernel) : Prop :=
  ∃ new, k'.trace = k.trace ++ new ∧ ∀ entry ∈ new, P entry

theorem Kernel.Adds.refl {P : TraceEntry → Prop} : k.Adds P k := ⟨[], by simp, by simp⟩

theorem Kernel.Adds.trans {P : TraceEntry → Prop} {k₁ : Kernel} (h₁ : k.Adds P k₁)
    (h₂ : k₁.Adds P k') : k.Adds P k' := by
  obtain ⟨t₁, heq₁, hall₁⟩ := h₁
  obtain ⟨t₂, heq₂, hall₂⟩ := h₂
  refine ⟨t₁ ++ t₂, by rw [heq₂, heq₁, List.append_assoc], ?_⟩
  intro entry hentry
  rcases List.mem_append.mp hentry with hmem | hmem
  · exact hall₁ entry hmem
  · exact hall₂ entry hmem

theorem Kernel.Adds.mono {P Q : TraceEntry → Prop} (h : k.Adds P k')
    (hPQ : ∀ entry, P entry → Q entry) : k.Adds Q k' := by
  obtain ⟨new, heq, hall⟩ := h
  exact ⟨new, heq, fun entry hentry => hPQ entry (hall entry hentry)⟩

theorem Kernel.Ran.adds {who : Party} {tr : History} (h : k.Ran who tr k') :
    k.Adds (fun entry => entry.who = who ∧ entry.io ∈ tr) k' :=
  h.induct (J := fun k' => k.Adds (fun entry => entry.who = who ∧ entry.io ∈ tr) k') .refl
    fun he hk hstep =>
      hk.trans ⟨_, step_trace hstep, fun entry hentry => by
        rw [List.mem_singleton.mp hentry]
        exact ⟨rfl, he⟩⟩

theorem Kernel.Ran.trace_grows {who : Party} {tr : History} (h : k.Ran who tr k') :
    k.trace <+: k'.trace := by
  obtain ⟨new, heq, -⟩ := h.adds
  exact ⟨new, heq.symm⟩

/-- The calls of an accept are made for the new client. -/
theorem Birth.adds (h : Birth mem k mem' k') :
    k.Adds (fun entry => entry.who = .client mem.nextId) k' := by
  cases h with
  | refused _ ran => exact ran.adds.mono fun _ h => h.1
  | unregistered _ _ ran => exact ran.adds.mono fun _ h => h.1
  | turnedAway _ _ _ ran => exact ran.adds.mono fun _ h => h.1
  | registered _ _ ran => exact ran.adds.mono fun _ h => h.1

theorem Births.adds (h : Births mem k mem' k') :
    k.Adds (fun entry => entry.who ≠ .proxy) k' := by
  have other : ∀ {d : ClientId}, ∀ entry : TraceEntry,
      entry.who = .client d → entry.who ≠ .proxy := by
    intro d entry hwho
    rw [hwho]
    simp
  induction h with
  | last birth => exact birth.adds.mono other
  | more birth _ ih => exact (birth.adds.mono other).trans ih

theorem tracePrefix_kept (past : List TraceEntry) : Kept fun _ k => past <+: k.trace where
  birth hpast birth := by
    cases birth with
    | refused _ ran => exact hpast.trans ran.trace_grows
    | unregistered _ _ ran => exact hpast.trans ran.trace_grows
    | turnedAway _ _ _ ran => exact hpast.trans ran.trace_grows
    | registered _ _ ran => exact hpast.trans ran.trace_grows
  readTimer hpast ran := hpast.trans ran.trace_grows
  sweep hpast sweep := by
    cases sweep with
    | empty => exact hpast
    | kept _ _ _ ran => exact hpast.trans ran.trace_grows
    | freed _ _ _ ran => exact hpast.trans ran.trace_grows
  event hpast _ _ ran := hpast.trans ran.trace_grows

/-- A step forgets no call. -/
theorem World.Step.trace_eq {w w' : World} (h : World.Step w w') :
    w'.kernel.trace = w.kernel.trace ++ w.newCalls w' := by
  obtain ⟨new, hnew⟩ := (tracePrefix_kept w.kernel.trace).step List.prefix_rfl h
  rw [newCalls, ← hnew, List.drop_left]

/-- The calls a step added to the history of client `c`. -/
def World.newHistory (w w' : World) (c : ClientId) : History :=
  (w.newCalls w').filterMap fun entry => if entry.who = .client c then some entry.io else none

theorem World.Step.history_eq {w w' : World} (h : World.Step w w') (c : ClientId) :
    w'.kernel.history c = w.kernel.history c ++ w.newHistory w' c := by
  rw [Kernel.history, h.trace_eq, List.filterMap_append]
  rfl

theorem World.Step.newHistory_eq {w w' : World} (h : World.Step w w') {c : ClientId} {tr : History}
    (history : w'.kernel.history c = w.kernel.history c ++ tr) : w.newHistory w' c = tr :=
  List.append_cancel_left ((h.history_eq c).symm.trans history)

/-- Client numbers are not given back. -/
theorem nextId_kept (n : ClientId) : Kept fun mem _ => n ≤ mem.nextId where
  birth hn birth := by
    rw [birth.nextId_eq]
    exact Nat.le_succ_of_le hn
  readTimer hn _ := hn
  sweep hn sweep := by cases sweep <;> exact hn
  event hn _ _ _ := hn

/-- The step reads the timer successfully. -/
def World.Ticks (w w' : World) : Prop :=
  ∃ entry ∈ w.newCalls w', entry.who = .proxy ∧ entry.readsTimer = true

theorem Kernel.Adds.newCalls {P : TraceEntry → Prop} {w w' : World}
    (h : w.kernel.Adds P w'.kernel) :
    ∀ entry ∈ w.newCalls w', P entry := by
  obtain ⟨new, heq, hall⟩ := h
  rw [World.newCalls, heq, List.drop_left]
  exact hall

/-- A step that reads the timer looks at every slot of the registry. -/
theorem World.Step.sweeps {w w' : World} (h : World.Step w w') (ticks : w.Ticks w') :
    ∃ k₁, w.kernel.Ran .proxy [⟨.readTimer, true⟩] k₁ ∧
      Sweeps (List.range maxClients) w.mem k₁ w'.mem w'.kernel := by
  obtain ⟨entry, hentry, hproxy, hread⟩ := ticks
  -- any other step makes no such call
  have none' : ∀ {P : TraceEntry → Prop}, w.kernel.Adds P w'.kernel → P entry :=
    fun adds => adds.newCalls entry hentry
  cases h with
  | wait => exact absurd hproxy (none' (P := fun entry => entry.who ≠ .proxy) .refl)
  | handle next run allowed =>
      obtain ⟨d, hdata, handled⟩ := handleEvent_acts run allowed
      cases handled with
      | listener births => exact absurd hproxy (none' births.adds)
      | timerFailed read =>
          have hio := (none' read.adds).2
          obtain ⟨who, owner, io⟩ := entry
          obtain rfl := List.mem_singleton.mp hio
          cases hread
      | timer read sweeps => exact ⟨_, read, sweeps⟩
      | client _ _ _ ran =>
          rw [(none' ran.adds).1] at hproxy
          cases hproxy
      | ignored => exact absurd hproxy (none' (P := fun entry => entry.who ≠ .proxy) .refl)

/-! ## One step -/

/-- A successful read of the timer is a call of its step. -/
theorem ticks_of_readTimer {w w' : World} {k₁ : Kernel}
    (read : w.kernel.Ran .proxy [⟨.readTimer, true⟩] k₁) (later : k₁.trace <+: w'.kernel.trace) :
    w.Ticks w' := by
  obtain ⟨k₂, hstep, hnil⟩ := Kernel.ran_cons.mp read
  obtain rfl := Kernel.ran_nil.mp hnil
  obtain ⟨more, hmore⟩ := later
  rw [Kernel.step_trace hstep] at hmore
  unfold World.Ticks
  rw [World.newCalls, ← hmore, List.append_assoc, List.drop_left]
  exact ⟨_, List.mem_append_left _ (List.mem_singleton_self _), rfl, rfl⟩

/-- A step that does not read the timer: nothing happens to the client, or its
birth, or one of its events. -/
theorem World.Step.ticks_or {w w' : World} (h : World.Step w w') (c : ClientId) :
    w.Ticks w' ∨
      (w'.mem.heap c = w.mem.heap c ∧ w'.kernel.history c = w.kernel.history c) ∨
      w.mem.nextId ≤ c ∨
      ∃ (e : EpollEvent) (fdType : EpollFdType) (st st' : ClientState) (tr : History),
        w.batch = e :: w'.batch ∧ e.data = some ⟨fdType, some c⟩ ∧ w.mem.heap c = some st ∧
        Moves ⟨fdType, e.events⟩ st tr st' ∧ Admitted tr ∧ w'.mem.heap c = some st' ∧
        w'.kernel.history c = w.kernel.history c ++ tr := by
  cases h with
  | wait => exact .inr (.inl ⟨rfl, rfl⟩)
  | @handle e rest rounds tr mem kernel next run allowed =>
      obtain ⟨d, hdata, handled⟩ := handleEvent_acts run allowed
      cases handled with
      | listener births =>
          rcases Nat.lt_or_ge c w.mem.nextId with hborn | hunborn
          · exact .inr (.inl (births.client hborn))
          · exact .inr (.inr (.inl hunborn))
      | timerFailed read => exact .inr (.inl ⟨rfl, read.history_other (by simp)⟩)
      | timer read sweeps =>
          exact .inl (ticks_of_readTimer read ((tracePrefix_kept _).sweeps List.prefix_rfl sweeps))
      | @client fdType _ d _ _ _ st st' t kind live moves ran =>
          by_cases hcd : c = d
          · subst hcd
            exact .inr (.inr (.inr ⟨e, fdType, st, st', t, next, hdata, live, moves, ran.admitted,
              by simp [Memory.write], ran.history⟩))
          · exact .inr (.inl ⟨by simp [Memory.write, hcd],
              ran.history_other (by simpa using Ne.symm hcd)⟩)
      | ignored => exact .inr (.inl ⟨rfl, rfl⟩)

/-- A step that reads the timer ticks every client. -/
theorem World.Step.ticked {w w' : World} (reg : Registry w.mem) (h : World.Step w w')
    (ticks : w.Ticks w') {c : ClientId} {st : ClientState} (live : w.mem.heap c = some st) :
    ∃ tr, Ticked st tr (w'.mem.heap c) ∧ w'.kernel.history c = w.kernel.history c ++ tr := by
  obtain ⟨k₁, read, sweeps⟩ := h.sweeps ticks
  have silent : k₁.history c = w.kernel.history c := read.history_other (by simp)
  have swept := sweeps.client reg List.nodup_range c
  unfold Swept at swept
  simp only [live] at swept
  have hslot : st.slot ∈ List.range maxClients := by
    obtain ⟨hlt, -⟩ := List.getElem?_eq_some_iff.mp (reg.entries c st live)
    exact List.mem_range.mpr (reg.length ▸ hlt)
  rw [if_pos hslot] at swept
  obtain ⟨tr, hticked, hhistory⟩ := swept
  exact ⟨tr, hticked, hhistory.trans (by rw [silent])⟩

theorem World.Step.unticked {w w' : World} (reg : Registry w.mem) (h : World.Step w w')
    (ticks : w.Ticks w') (gone : w.mem.heap c = none) :
    w'.mem.heap c = none ∧ w'.kernel.history c = w.kernel.history c := by
  obtain ⟨k₁, read, sweeps⟩ := h.sweeps ticks
  have swept := sweeps.client reg List.nodup_range c
  unfold Swept at swept
  simp only [gone] at swept
  exact ⟨swept.1, swept.2.trans (read.history_other (by simp))⟩

theorem World.Step.client {w w' : World} (reg : Registry w.mem) (h : World.Step w w')
    (c : ClientId) : ClientStep c w w' := by
  rcases h.ticks_or c with ticks | ⟨heap, history⟩ | unborn |
      ⟨e, fdType, st, st', tr, next, data, live, moves, admitted, heap, history⟩
  · cases hc : w.mem.heap c with
    | none =>
        obtain ⟨heap, history⟩ := h.unticked reg ticks hc
        exact .rest (heap.trans hc.symm) history
    | some st =>
        obtain ⟨tr, ticked, history⟩ := h.ticked reg ticks hc
        obtain ⟨entry, hentry, -, hread⟩ := ticks
        exact .tick hc ⟨entry, hentry, hread⟩ ticked history
  · exact .rest heap history
  · exact .born unborn
  · exact .event next data live moves admitted heap history

/-- A state made by an accept. -/
def ClientState.Fresh (st : ClientState) : Prop :=
  ∃ fd now slot, st = { ClientState.create fd now with slot := slot }

theorem Birth.fresh (h : Birth mem k mem' k') {st : ClientState} (live : mem'.heap c = some st) :
    mem.heap c = some st ∨ st.Fresh := by
  have freed : ({ mem with nextId := mem.nextId + 1 }.free mem.nextId).heap c = some st →
      mem.heap c = some st := by
    intro live
    by_cases hc : c = mem.nextId
    · simp [Memory.free, hc] at live
    · simpa [Memory.free, hc] using live
  cases h with
  | refused => exact .inl live
  | unregistered _ left =>
      rcases left with rfl | rfl
      · exact .inl live
      · exact .inl (freed live)
  | turnedAway => exact .inl (freed live)
  | @registered fd _ _ _ slot _ created =>
      by_cases hc : c = mem.nextId
      · subst hc
        cases created with
        | created now =>
            simp only [Memory.write, Function.update_self, Option.some.injEq] at live
            exact .inr ⟨fd, now, slot, live.symm⟩
      · exact .inl (by simpa [Memory.write, hc] using live)

theorem Births.fresh (h : Births mem k mem' k') {st : ClientState}
    (live : mem'.heap c = some st) : mem.heap c = some st ∨ st.Fresh := by
  induction h with
  | last birth => exact birth.fresh live
  | more birth _ ih =>
      rcases ih live with before | fresh
      · exact birth.fresh before
      · exact .inr fresh

/-- A client that was not there before is fresh. -/
theorem World.Step.fresh {w w' : World} (reg : Registry w.mem) (h : World.Step w w')
    (gone : w.mem.heap c = none) {st : ClientState} (live : w'.mem.heap c = some st) :
    st.Fresh := by
  have absent : w'.mem.heap c = none → st.Fresh := by
    intro heap
    rw [heap] at live
    cases live
  have step := h
  cases h with
  | wait => exact absent gone
  | @handle e rest rounds tr mem kernel next run allowed =>
      obtain ⟨d, hdata, handled⟩ := handleEvent_acts run allowed
      cases handled with
      | listener births =>
          rcases births.fresh live with before | fresh
          · rw [gone] at before
            cases before
          · exact fresh
      | timerFailed => exact absent gone
      | @timer _ _ _ _ _ k₁ _ read sweeps =>
          have later := (tracePrefix_kept k₁.trace).sweeps List.prefix_rfl sweeps
          have ticks : w.Ticks ⟨mem, kernel, rest⟩ := ticks_of_readTimer read later
          exact absent (step.unticked reg ticks gone).1
      | @client _ _ d _ _ _ _ _ _ _ live₀ =>
          have hcd : c ≠ d := by
            intro hcd
            rw [← hcd, gone] at live₀
            cases live₀
          exact absent (by simpa [Memory.write, hcd] using gone)
      | ignored => exact absent gone

/-! ## Expired clients -/

/-- A tick releases an expired client. -/
theorem Ticked.of_expired {st : ClientState} {tr : History} {res : Option ClientState}
    (h : Ticked st tr res) (expired : st.expired = true) : res = none := by
  cases h with
  | active _ live =>
      rw [expired] at live
      cases live
  | released => rfl
  | silenced _ live =>
      rw [expired] at live
      cases live
  | expired _ live =>
      rw [expired] at live
      cases live

/-- Nothing but a tick happens to an expired client. -/
theorem World.Step.of_expired {w w' : World} (reg : Registry w.mem) (h : World.Step w w')
    {st : ClientState} (live : w.mem.heap c = some st) (expired : st.expired = true) :
    (w'.mem.heap c = some st ∧ w'.kernel.history c = w.kernel.history c) ∨
      (w.Ticks w' ∧ w'.mem.heap c = none) := by
  rcases h.ticks_or c with ticks | ⟨heap, history⟩ | unborn |
      ⟨_, _, _, _, _, _, _, live₀, moves, _, heap, history⟩
  · obtain ⟨tr, ticked, -⟩ := h.ticked reg ticks live
    exact .inr ⟨ticks, ticked.of_expired expired⟩
  · exact .inl ⟨heap.trans live, history⟩
  · exact absurd (reg.born live) (Nat.not_lt.mpr unborn)
  · obtain rfl := Option.some.inj (live.symm.trans live₀)
    obtain ⟨rfl, rfl⟩ := moves.of_expired expired
    exact .inl ⟨heap, by rw [history, List.append_nil]⟩

/-! ## Events in a batch -/

/-- An event is reported for a descriptor that watches its client. -/
theorem reported_watches {events : List EpollEvent} {e : EpollEvent} {t : EpollFdType}
    (reported : k.reportsAll events = true) (he : e ∈ events) (data : e.data = some ⟨t, some c⟩) :
    k.Watches e.fd t c := by
  simp only [Kernel.reportsAll, Bool.and_eq_true, List.all_eq_true] at reported
  have := reported.1.1 e he
  unfold Kernel.reports at this
  split at this
  · cases this
  · rename_i reg hreg
    simp only [Bool.and_eq_true, decide_eq_true_eq] at this
    exact ⟨reg.events, by rw [hreg, ← data, this.1.1]⟩

/-- The states with a connection, complete or not. -/
def Targeted : ClientStateEnum → Bool
  | .connecting => true
  | .forwarding => true
  | _ => false

/-- A target event of a batch is for a client that has had a target, and for the
descriptor of that target as long as the connection is in use. -/
def TargetEvents (w : World) : Prop :=
  ∀ e ∈ w.batch, ∀ c, e.data = some ⟨.target, some c⟩ → c < w.mem.nextId ∧
    ∀ st, w.mem.heap c = some st → Untargeted st.state = false ∧
      (Targeted st.state = true → st.targetFd = e.fd)

variable {st st' : ClientState} {tr : History}

/-- A client that has had a target gets no other one. -/
theorem Move.target {ev : ClientEvent} {again : Bool} (h : Move ev st tr st' again)
    (ok : Admitted tr) (old : Untargeted st.state = false) :
    Untargeted st'.state = false ∧
      (Targeted st'.state = true → Targeted st.state = true ∧ st'.targetFd = st.targetFd) := by
  cases h with
  | connectFailed => exact ⟨rfl, fun h => by cases h⟩
  | connected phase reply => exact ⟨rfl, fun _ => ⟨by rw [phase]; rfl, reply.fds_eq.2⟩⟩
  | relayed phase run =>
      have spec : TransferSpec st st' tr := (connectionForward_runs run ok).1
      have state : st'.state = st.state := by rw [spec.frame]
      exact ⟨state ▸ old, fun h => ⟨state ▸ h, spec.fds_eq.2⟩⟩
  | relayEnded => exact ⟨rfl, fun h => by cases h⟩
  | closed phase => exact ⟨old, fun h => by rw [phase] at h; cases h⟩
  -- before there is a target
  | _ => simp_all [Untargeted]

theorem Moves.target {ev : ClientEvent} (h : Moves ev st tr st') (ok : Admitted tr)
    (old : Untargeted st.state = false) :
    Untargeted st'.state = false ∧
      (Targeted st'.state = true → Targeted st.state = true ∧ st'.targetFd = st.targetFd) := by
  induction h with
  | ignored => exact ⟨old, fun h => ⟨h, rfl⟩⟩
  | last _ move => exact move.target ok old
  | again _ move _ ih =>
      obtain ⟨old₁, same₁⟩ := move.target ok.append.1 old
      obtain ⟨old', same'⟩ := ih ok.append.2 old₁
      refine ⟨old', fun h => ?_⟩
      obtain ⟨h₁, fd'⟩ := same' h
      obtain ⟨h, fd₁⟩ := same₁ h₁
      exact ⟨h, fd'.trans fd₁⟩

theorem Ticked.target (h : Ticked st tr (some st')) :
    st'.state = st.state ∧ st'.targetFd = st.targetFd := by
  cases h <;> exact ⟨rfl, rfl⟩

/-- A step keeps what its events say about the targets. -/
theorem targetEvents_step {w w' : World} (reach : proxy.Reachable w) (h : TargetEvents w)
    (hstep : World.Step w w') : TargetEvents w' := by
  have reg := Registry.reachable reach
  intro e he c data
  have step := hstep.client reg c
  cases hstep with
  | @wait events idle reported =>
      -- an event is reported for a descriptor that is watched for the client
      have watches := reported_watches reported he data
      have watched := watched_reachable reach c
      cases hc : w.mem.heap c with
      | none => exact ((hc ▸ watched).2 _ _ watches).elim
      | some st =>
          obtain ⟨wf, early, fields⟩ := hc ▸ watched
          obtain ⟨side, hside, hfd⟩ := fields _ _ watches
          cases side with
          | client => cases hside
          | target =>
              refine ⟨reg.born hc, fun st' hst' => ?_⟩
              obtain rfl : st = st' := Option.some.inj hst'
              refine ⟨Bool.eq_false_iff.mpr fun hearly => ?_, fun _ => hfd⟩
              obtain ⟨events, hw⟩ := watches
              have hnonneg := wf.nonneg e.fd (wf.watched e.fd (by simp [hw]))
              rw [← hfd, show st.fd .target = st.targetFd from rfl, early hearly] at hnonneg
              exact absurd hnonneg (by decide)
  | @handle e₀ rest rounds tr mem kernel next run allowed =>
      -- an event of the same batch was true when the batch was reported
      obtain ⟨hborn, before⟩ := h e (by rw [next]; exact List.mem_cons_of_mem _ he) c data
      refine ⟨(nextId_kept (c + 1)).step hborn (.handle next run allowed), fun st' hst' => ?_⟩
      cases step with
      | rest hheap => exact before st' (hheap.symm.trans hst')
      | born hunborn => exact absurd hborn (Nat.not_lt.mpr hunborn)
      | event _ _ live moves ok hheap =>
          obtain rfl : _ = st' := Option.some.inj (hheap.symm.trans hst')
          obtain ⟨old, same⟩ := before _ live
          obtain ⟨old', same'⟩ := moves.target ok old
          exact ⟨old', fun h => (same' h).2.trans (same (same' h).1)⟩
      | tick live _ ticked =>
          obtain ⟨hstate, hfd⟩ := (hst' ▸ ticked : Ticked _ _ (some st')).target
          rw [hstate, hfd]
          exact before _ live

theorem targetEvents_reachable {w : World} (h : proxy.Reachable w) : TargetEvents w := by
  refine System.invariant TargetEvents ?_ (fun _ _ => targetEvents_step) h
  rintro _ ⟨serverSock, epollFd, timerFd, -, -, -, -, rfl⟩ e he
  cases he

end SimpleProxy
