import SimpleProxy.Logic.Request
import SimpleProxy.Logic.Steps

/-!
# Progress of a session

`ClientState.state` as a measure. A handler calls `handle_client` again only
after it raised the state, so the nesting of a dispatch is bounded by the
number of states and `handleClient` satisfies the recursive equation of the
source (`handleClient_eq`). Together with the bounds on the two transfer loops
this makes every dispatch terminate. Two states are passed through within one
dispatch, and the calls made only there happen once in the life of a client.
-/

namespace SimpleProxy

open Interact CString

/-- The value of a constant in `ClientStateEnum`. -/
def ClientStateEnum.value : ClientStateEnum → Nat
  | .readingRequest => 0
  | .authenticating => 1
  | .initializeConnection => 2
  | .connecting => 3
  | .forwarding => 4
  | .closing => 5
  | .closed => 6

theorem ClientStateEnum.value_lt {s : ClientStateEnum} (h : s ≠ .closed) : s.value < 6 := by
  cases s <;> first | decide | exact absurd rfl h

variable {st st' : ClientState} {ev : ClientEvent} {tr : History}

/-! ## Nested calls -/

/-- A handler looks at what `handle_client` does only in states with a handler
that come after its own. -/
theorem stateHandlers_congr {next next' : Handler} (s : ClientStateEnum)
    (h : ∀ st₁, s.value < st₁.state.value → st₁.state ≠ .closed → next st₁ ev = next' st₁ ev) :
    stateHandlers next s st ev = stateHandlers next' s st ev := by
  cases s with
  | readingRequest =>
      -- on to `CLOSING` or to `AUTHENTICATING`
      show handleReadingRequest next st ev = handleReadingRequest next' st ev
      unfold handleReadingRequest
      refine congrArg (readRequestNonblocking st >>= ·) (funext ?_)
      intro (result, st₁)
      show (if _ then _ else _) = (if _ then _ else _)
      rw [h { st₁ with state := .closing } (by show 0 < 5; omega) (by simp),
        h { st₁ with state := .authenticating } (by show 0 < 1; omega) (by simp)]
  | authenticating =>
      -- on to `INITIALIZE_CONNECTION` or to `CLOSING`
      show handleAuthenticating next st ev = handleAuthenticating next' st ev
      unfold handleAuthenticating
      refine congrArg (perform (.hasValidAuth st.requestBuffer) >>= ·) (funext ?_)
      intro ok
      cases ok with
      | true =>
          simp only [if_true]
          cases hparsed : parseHostPort (cstr st.requestBuffer) with
          | none => rfl
          | some endpoint => exact h _ (by show 1 < 2; omega) (by simp)
      | false =>
          refine congrArg (sendProxyAuthRequired st.clientFd >>= ·) (funext ?_)
          intro _
          exact h _ (by show 1 < 5; omega) (by simp)
  | connecting =>
      -- only a connect that failed is handed on
      show handleConnecting next st ev = handleConnecting next' st ev
      unfold handleConnecting
      refine congrArg (perform (.getsockopt st.targetFd) >>= ·) (funext ?_)
      intro err
      by_cases herr : err = .code 0
      · rw [if_pos herr, if_pos herr]
      · rw [if_neg herr, if_neg herr]
        refine congrArg (perform (.close .target st.targetFd) >>= ·) (funext ?_)
        intro _
        exact h _ (by show 3 < 5; omega) (by simp)
  -- the others wait for the next event
  | initializeConnection => rfl
  | forwarding => rfl
  | closing => rfl
  | closed => rfl

/-- Nesting allowed beyond the states that are left makes no difference. -/
theorem dispatch_depth (depth depth' : Nat) (h : 6 ≤ depth + st.state.value) (hpos : 0 < depth)
    (h' : 6 ≤ depth' + st.state.value) (hpos' : 0 < depth') :
    dispatch depth st ev = dispatch depth' st ev := by
  induction depth generalizing depth' st with
  | zero => omega
  | succ depth ih =>
      obtain ⟨depth', rfl⟩ : ∃ n, depth' = n + 1 := ⟨depth' - 1, by omega⟩
      rw [dispatch_succ, dispatch_succ]
      congr 1
      apply stateHandlers_congr
      intro st₁ hlt hne
      have hle := ClientStateEnum.value_lt hne
      exact ih depth' (by omega) (by omega) (by omega) (by omega)

/-- `handle_client` as it is written, without a bound on the nesting. -/
theorem handleClient_eq (st : ClientState) (ev : ClientEvent) :
    handleClient st ev =
      if st.expired then return st else stateHandlers handleClient st.state st ev := by
  have hdepth : handleClient st ev = dispatch 7 st ev :=
    dispatch_depth 6 7 (by omega) (by omega) (by omega) (by omega)
  rw [hdepth, dispatch_succ]
  rfl

/-! ## Termination -/

theorem recvLoop_total (side : Side) (fd : Fd) (capacity rounds : Nat) (buffer : Bytes)
    (total : Int) (h : History) (enough : capacity - buffer.length < rounds) :
    (recvLoop side fd capacity rounds buffer total).Total anyAnswers h := by
  induction rounds generalizing buffer total h with
  | zero => omega
  | succ rounds ih =>
      unfold recvLoop
      rw [Prog.total_perform_bind]
      intro r k' hk
      cases r with
      | data bs =>
          have hbs : 0 < bs.length ∧ bs.length ≤ capacity - buffer.length := by
            simpa [Admits] using (recorder_step.mp hk).1
          apply ih
          rw [List.length_append]
          omega
      | eof => trivial
      | again => trivial
      | error => trivial

theorem sendLoop_total (side : Side) (fd : Fd) (rounds : Nat) (buffer : Bytes)
    (total : Int) (h : History) (enough : buffer.length ≤ rounds) :
    (sendLoop side fd rounds buffer total).Total anyAnswers h := by
  induction rounds generalizing buffer total h with
  | zero =>
      rw [List.eq_nil_of_length_eq_zero (Nat.le_zero.mp enough)]
      trivial
  | succ rounds ih =>
      cases buffer with
      | nil => trivial
      | cons b bs =>
          unfold sendLoop
          rw [Prog.total_perform_bind]
          intro r k' hk
          cases r with
          | sent n =>
              have hn : 0 < n ∧ n ≤ (b :: bs).length := by
                simpa [Admits] using (recorder_step.mp hk).1
              show (if 0 < n then _ else _ : Proc (Int × Bytes)).Total anyAnswers k'
              rw [if_pos hn.1]
              apply ih
              rw [List.length_drop]
              omega
          | again => trivial
          | error => trivial

theorem noteTransfer_total (side : Side) (r : Int) (h : History) :
    (noteTransfer side r st).Total anyAnswers h := by
  unfold noteTransfer
  split
  · trivial
  · split
    · intro now k' _
      trivial
    · trivial

theorem stage_total {cond : Bool} {run : ClientState → Proc ClientState} {h : History}
    (total : (run st).Total anyAnswers h) : (stage cond run st).Total anyAnswers h := by
  cases cond with
  | true => exact total
  | false => trivial

theorem receiveFrom_total (side : Side) (st : ClientState) (h : History) :
    (receiveFrom side st).Total anyAnswers h := by
  unfold receiveFrom
  refine Prog.Total.bind (recvLoop_total _ _ _ _ _ _ _ (by omega)) ?_
  intro (r, buffer) k'
  exact noteTransfer_total side r k'

theorem sendTo_total (side : Side) (st : ClientState) (h : History) :
    (sendTo side st).Total anyAnswers h := by
  unfold sendTo
  refine Prog.Total.bind (sendLoop_total _ _ _ _ _ _ (Nat.le_refl _)) ?_
  intro (s, buffer) k'
  exact noteTransfer_total side s k'

theorem connectionForward_total (fdType : EpollFdType) (events : EpollMask) (h : History) :
    (connectionForward fdType events st).Total anyAnswers h := by
  unfold connectionForward
  refine Prog.Total.bind (stage_total (receiveFrom_total _ _ _)) ?_
  intro st₁ h₁
  refine Prog.Total.bind (stage_total (sendTo_total _ _ _)) ?_
  intro st₂ h₂
  refine Prog.Total.bind (stage_total (receiveFrom_total _ _ _)) ?_
  intro st₃ h₃
  refine Prog.Total.bind (stage_total (sendTo_total _ _ _)) ?_
  intro st₄ h₄
  trivial

theorem readRequestNonblocking_total (st : ClientState) (h : History) :
    (readRequestNonblocking st).Total anyAnswers h := by
  have receive : ∀ st₁ h₁, (receiveRequest st₁).Total anyAnswers h₁ := by
    intro st₁ h₁
    unfold receiveRequest
    apply Prog.Total.call
    intro r h₂
    cases r with
    | again => trivial
    | error => trivial
    | eof =>
        show (if _ then _ else _ : Proc (Int × ClientState)).Total anyAnswers h₂
        split <;> trivial
    | data bs =>
        show (if _ then _ else _ : Proc (Int × ClientState)).Total anyAnswers h₂
        split <;> trivial
  unfold readRequestNonblocking
  split
  · apply Prog.Total.call
    intro room h₁
    cases room with
    | true => exact receive _ h₁
    | false => trivial
  · exact receive st h

theorem reply_total (h : History) : (stage st.isHttps establish st).Total anyAnswers h := by
  apply stage_total
  unfold establish sendHttpsEstablished
  exact Prog.Total.call fun _ _ => trivial

theorem connectionConnect_total (st : ClientState) (h : History) :
    (connectionConnect st).Total anyAnswers h := by
  unfold connectionConnect
  apply Prog.Total.call
  intro resolved h₁
  cases resolved with
  | none => trivial
  | some addr =>
      apply Prog.Total.call
      intro sock h₂
      cases sock with
      | none => trivial
      | some fd =>
          apply Prog.Total.call
          intro r h₃
          cases r with
          | inProgress => trivial
          | error => exact Prog.Total.call fun _ _ => trivial
          | ok => exact Prog.Total.bind (reply_total h₃) fun _ _ => trivial

theorem registerForwardingFds_total (st : ClientState) (h : History) :
    (registerForwardingFds st).Total anyAnswers h := by
  unfold registerForwardingFds epollCreateData
  apply Prog.Total.call
  intro room h₁
  cases room with
  | false => trivial
  | true =>
      apply Prog.Total.call
      intro ok h₂
      cases ok with
      | false => trivial
      | true =>
          apply Prog.Total.call
          intro more h₃
          cases more with
          | false => trivial
          | true => exact fun _ _ _ => trivial

theorem closeSide_total (side : Side) (st : ClientState) (h : History) :
    (closeSide side st).Total anyAnswers h := by
  unfold closeSide
  split
  · exact Prog.Total.call fun _ _ _ _ _ => trivial
  · trivial

/-- A handler returns if the calls of `handle_client` in later states do. -/
theorem stateHandlers_total {next : Handler} (s : ClientStateEnum)
    (later : ∀ st₁ h₁, s.value < st₁.state.value → st₁.state ≠ .closed →
      (next st₁ ev).Total anyAnswers h₁) (h : History) :
    (stateHandlers next s st ev).Total anyAnswers h := by
  cases s with
  | readingRequest =>
      refine Prog.Total.bind (readRequestNonblocking_total st h) ?_
      intro (result, st₁) h₁
      show (if _ then _ else _ : Proc ClientState).Total anyAnswers h₁
      split
      · exact later _ h₁ (by show 0 < 5; omega) (by simp)
      · split
        · exact later _ h₁ (by show 0 < 1; omega) (by simp)
        · trivial
  | authenticating =>
      apply Prog.Total.call
      intro ok h₁
      cases ok with
      | true =>
          rw [if_pos rfl]
          dsimp only
          split
          · trivial
          · exact later _ h₁ (by show 1 < 2; omega) (by simp)
      | false =>
          apply Prog.Total.call
          intro _ h₂
          exact later _ h₂ (by show 1 < 5; omega) (by simp)
  | initializeConnection =>
      refine Prog.Total.bind (connectionConnect_total st h) ?_
      intro (result, st₁) h₁
      show (if _ then _ else _ : Proc ClientState).Total anyAnswers h₁
      split
      · trivial
      · apply Prog.Total.call
        intro room h₂
        apply Prog.Total.call
        intro ok h₃
        cases ok with
        | true => trivial
        | false => exact fun _ _ _ => trivial
  | connecting =>
      apply Prog.Total.call
      intro err h₁
      by_cases herr : err = .code 0
      · rw [if_pos herr]
        refine Prog.Total.bind (reply_total h₁) ?_
        intro st₁ h₂
        exact Prog.Total.bind (registerForwardingFds_total _ h₂) fun _ _ => trivial
      · rw [if_neg herr]
        apply Prog.Total.call
        intro _ h₂
        exact later _ h₂ (by show 3 < 5; omega) (by simp)
  | forwarding =>
      refine Prog.Total.bind (connectionForward_total _ _ h) ?_
      intro (result, st₁) h₁
      show (if _ then _ else _ : Proc ClientState).Total anyAnswers h₁
      split <;> trivial
  | closing =>
      refine Prog.Total.bind (closeSide_total .client st h) ?_
      intro _ h₁
      exact Prog.Total.bind (closeSide_total .target st h₁) fun _ _ => trivial
  | closed => trivial

theorem dispatch_total (depth : Nat) (h : History) (enough : 6 ≤ depth + st.state.value)
    (hpos : 0 < depth) : (dispatch depth st ev).Total anyAnswers h := by
  induction depth generalizing st h with
  | zero => omega
  | succ depth ih =>
      rw [dispatch_succ]
      split
      · trivial
      · apply stateHandlers_total
        intro st₁ h₁ hlt hne
        have hle := ClientStateEnum.value_lt hne
        exact ih h₁ (by omega) (by omega)

/-- `handle_client` returns, whatever it is answered. -/
theorem handleClient_total (st : ClientState) (ev : ClientEvent) (h : History) :
    (handleClient st ev).Total anyAnswers h :=
  dispatch_total 6 h (by omega) (by omega)

/-! ## The measure along a run -/

/-- The states that one dispatch passes through. -/
def ClientStateEnum.Transient : ClientStateEnum → Bool
  | .authenticating => true
  | .initializeConnection => true
  | _ => false

/-- From `s` a handler goes on to a later state, or it stays and returns. It
returns only in a state that lasts. -/
def Progressed (s s' : ClientStateEnum) (again : Bool) : Prop :=
  (s.value < s'.value ∨ again = false ∧ s' = s ∧ s.Transient = false) ∧
    (again = false → s'.Transient = false)

instance (s s' : ClientStateEnum) (again : Bool) : Decidable (Progressed s s' again) :=
  inferInstanceAs (Decidable (_ ∧ _))

theorem TransferSpec.state_eq (h : TransferSpec st st' tr) : st'.state = st.state := by
  rw [h.frame]

theorem progressed (s s' : ClientStateEnum) {again : Bool} (phase : st.state = s)
    (next : st'.state = s') (h : Progressed s s' again) :
    Progressed st.state st'.state again := by
  rw [phase, next]
  exact h

theorem Move.progress {again : Bool} (h : Move ev st tr st' again) (ok : Admitted tr) :
    Progressed st.state st'.state again := by
  cases h with
  | growFailed phase => exact progressed .readingRequest .closing phase rfl (by decide)
  | readFailed phase => exact progressed .readingRequest .closing phase rfl (by decide)
  | readNothing phase room =>
      exact progressed .readingRequest .readingRequest phase (room.eq.1.trans phase) (by decide)
  | readPart bs phase room =>
      exact progressed .readingRequest .readingRequest phase (room.eq.1.trans phase) (by decide)
  | readHeader bs phase =>
      exact progressed .readingRequest .authenticating phase rfl (by decide)
  | rejected r phase => exact progressed .authenticating .closing phase rfl (by decide)
  | noHost phase => exact progressed .authenticating .closing phase rfl (by decide)
  | accepted phase =>
      exact progressed .authenticating .initializeConnection phase rfl (by decide)
  | unresolved phase => exact progressed .initializeConnection .closing phase rfl (by decide)
  | noSocket addr phase =>
      exact progressed .initializeConnection .closing phase rfl (by decide)
  | refused fd addr phase =>
      exact progressed .initializeConnection .closing phase rfl (by decide)
  | started room phase =>
      exact progressed .initializeConnection .connecting phase rfl (by decide)
  | addFailed room phase =>
      exact progressed .initializeConnection .closing phase rfl (by decide)
  | connectFailed phase => exact progressed .connecting .closing phase rfl (by decide)
  | connected phase => exact progressed .connecting .forwarding phase rfl (by decide)
  | relayed phase run =>
      have spec : TransferSpec st st' tr := (connectionForward_runs run ok).1
      exact progressed .forwarding .forwarding phase (spec.state_eq.trans phase) (by decide)
  | relayEnded phase => exact progressed .forwarding .closing phase rfl (by decide)
  | closed phase => exact progressed .closing .closing phase phase (by decide)

theorem Move.value_le {again : Bool} (h : Move ev st tr st' again) (ok : Admitted tr) :
    st.state.value ≤ st'.state.value := by
  rcases (h.progress ok).1 with hlt | ⟨-, heq, -⟩
  · exact Nat.le_of_lt hlt
  · exact Nat.le_of_eq (congrArg _ heq.symm)

theorem Moves.value_le (h : Moves ev st tr st') (ok : Admitted tr) :
    st.state.value ≤ st'.state.value := by
  induction h with
  | ignored => exact Nat.le_refl _
  | last _ move => exact move.value_le ok
  | again _ move _ ih => exact Nat.le_trans (move.value_le ok.append.1) (ih ok.append.2)

theorem Moves.settles (h : Moves ev st tr st') (ok : Admitted tr)
    (expired : st.expired = true → st.state.Transient = false) : st'.state.Transient = false := by
  induction h with
  | ignored stays =>
      rcases stays with hexpired | hclosed
      · exact expired hexpired
      · rw [hclosed]
        rfl
  | last _ move => exact (move.progress ok).2 rfl
  | again live move _ ih =>
      apply ih ok.append.2
      intro hexpired
      rcases move.expires ok.append.1 with same | ⟨hlast, -⟩
      · rw [same, live] at hexpired
        cases hexpired
      · cases hlast

theorem settled_kept :
    Kept fun mem _ => ∀ c st, mem.heap c = some st → st.state.Transient = false where
  birth := by
    intro mem k mem' k' settled birth c st hst
    rcases birth.fresh hst with before | ⟨fd, now, slot, rfl⟩
    · exact settled c st before
    · rfl
  readTimer settled _ := settled
  sweep := by
    intro slot mem k mem' k' settled sweep c st hst
    cases sweep with
    | empty => exact settled c st hst
    | @kept d st₀ st₁ t _ _ live ticked ran =>
        by_cases hc : c = d
        · subst hc
          obtain rfl : st₁ = st := by simpa [Memory.write] using hst
          rw [ticked.target.1]
          exact settled c st₀ live
        · exact settled c st (by simpa [Memory.write, hc] using hst)
    | @freed d st₀ t _ _ live ticked ran =>
        by_cases hc : c = d
        · subst hc
          simp [Memory.free] at hst
        · exact settled c st (by simpa [Memory.free, hc] using hst)
  event := by
    intro mem k d st₀ ev tr st₁ k' settled live moves ran c st hst
    by_cases hc : c = d
    · subst hc
      obtain rfl : st₁ = st := by simpa [Memory.write] using hst
      exact moves.settles ran.admitted fun _ => settled c st₀ live
    · exact settled c st (by simpa [Memory.write, hc] using hst)

theorem settled_reachable {w : World} (h : proxy.Reachable w) {c : ClientId} {st : ClientState}
    (live : w.mem.heap c = some st) : st.state.Transient = false := by
  refine settled_kept.reachable ?_ h c st live
  rintro _ ⟨serverSock, epollFd, timerFd, -, -, -, -, rfl⟩ c st hst
  cases hst

/-- Between two events the state of a client never goes back. -/
theorem World.Step.value_le {w w' : World} (reach : proxy.Reachable w) (h : World.Step w w')
    {c : ClientId} {st st' : ClientState} (live : w.mem.heap c = some st)
    (live' : w'.mem.heap c = some st') : st.state.value ≤ st'.state.value := by
  have reg := Registry.reachable reach
  cases h.client reg c with
  | rest heap =>
      rw [heap, live] at live'
      cases live'
      exact Nat.le_refl _
  | born unborn => exact absurd (reg.born live) (Nat.not_lt.mpr unborn)
  | event _ _ live₀ moves ok heap =>
      obtain rfl := Option.some.inj (live.symm.trans live₀)
      obtain rfl := Option.some.inj (live'.symm.trans heap)
      exact moves.value_le ok
  | tick live₀ _ ticked =>
      obtain rfl := Option.some.inj (live.symm.trans live₀)
      rw [live'] at ticked
      exact Nat.le_of_eq (congrArg _ ticked.target.1.symm)

/-! ## Calls of one state -/

/-- The state whose handler makes a call, for the calls only one handler makes:
`has_valid_auth`, and `gethostbyname` at the start of `connection_connect`. -/
def Call.phase? : Call → Option ClientStateEnum
  | .hasValidAuth _ => some .authenticating
  | .gethostbyname _ => some .initializeConnection
  | _ => none

/-- How many of a client's calls were those of state `s`. -/
def callsOf (s : ClientStateEnum) (h : History) : Nat := h.countP fun e => e.call.phase? = some s

theorem callsOf_append (s : ClientStateEnum) (h₁ h₂ : History) :
    callsOf s (h₁ ++ h₂) = callsOf s h₁ + callsOf s h₂ := List.countP_append

theorem callsOf_eq_zero {s : ClientStateEnum} {h : History}
    (none' : ∀ e ∈ h, e.call.phase? = none) : callsOf s h = 0 := by
  refine List.countP_eq_zero.mpr ?_
  intro e he
  simp [none' e he]

theorem UpkeepOnly.callsOf_eq (h : UpkeepOnly tr) (s : ClientStateEnum) : callsOf s tr = 0 := by
  apply callsOf_eq_zero
  intro ⟨c, r⟩ he
  have := h _ he
  cases c <;> first | rfl | cases this

theorem TransferSpec.callsOf_eq (h : TransferSpec st st' tr) (s : ClientStateEnum) :
    callsOf s tr = 0 := by
  apply callsOf_eq_zero
  intro ⟨c, r⟩ he
  have := h.calls _ he
  cases c <;> first | rfl | cases this

theorem Replied.callsOf_eq (h : Replied st tr st') (s : ClientStateEnum) : callsOf s tr = 0 := by
  apply callsOf_eq_zero
  cases h <;> simp [Call.phase?]

theorem Opened.callsOf_eq (h : Opened st tr st') (s : ClientStateEnum) :
    callsOf s tr = if s = .initializeConnection then 1 else 0 := by
  cases h with
  | inProgress => simp [callsOf, Call.phase?, List.countP_cons, eq_comm]
  | atOnce _ _ reply =>
      rw [callsOf_append, reply.callsOf_eq]
      simp [callsOf, Call.phase?, List.countP_cons, eq_comm]

/-- A handler makes the calls of its own state, and those once. -/
theorem Move.callsOf_le {again : Bool} (h : Move ev st tr st' again) (ok : Admitted tr)
    (s : ClientStateEnum) : callsOf s tr ≤ if s = st.state then 1 else 0 := by
  have upkeep : ∀ {t}, UpkeepOnly t → callsOf s t = 0 := fun ht => ht.callsOf_eq s
  have read : ∀ {g st₁ r}, MadeRoom st g st₁ →
      callsOf s (g ++ [⟨readCall st₁, r⟩]) ≤ if s = st.state then 1 else 0 := by
    intro g st₁ r room
    rw [callsOf_append, upkeep room.upkeep]
    simp [callsOf, readCall, Call.phase?]
  cases h with
  | growFailed => simp [callsOf, Call.phase?]
  | readFailed _ room => exact read room
  | readNothing _ room => exact read room
  | readPart _ _ room => exact read room
  | readHeader _ _ room => exact read room
  | rejected _ phase => simp [phase, callsOf, Call.phase?, List.countP_cons, eq_comm]
  | noHost phase => simp [phase, callsOf, Call.phase?, List.countP_cons, eq_comm]
  | accepted phase => simp [phase, callsOf, Call.phase?, List.countP_cons, eq_comm]
  | unresolved phase => simp [phase, callsOf, Call.phase?, List.countP_cons, eq_comm]
  | noSocket _ phase => simp [phase, callsOf, Call.phase?, List.countP_cons, eq_comm]
  | refused _ _ phase => simp [phase, callsOf, Call.phase?, List.countP_cons, eq_comm]
  | started _ phase opened =>
      rw [callsOf_append, opened.callsOf_eq, phase, upkeep (by simp [UpkeepOnly, Upkeep])]
      omega
  | addFailed _ phase opened =>
      rw [callsOf_append, opened.callsOf_eq, phase, upkeep (by simp [UpkeepOnly, Upkeep])]
      omega
  | connectFailed => simp [callsOf, Call.phase?]
  | connected _ reply register =>
      have checked : callsOf s [⟨.getsockopt st.targetFd, .code 0⟩] = 0 := by
        simp [callsOf, Call.phase?]
      rw [← List.singleton_append, callsOf_append, callsOf_append, checked, reply.callsOf_eq,
        upkeep register.upkeep]
      exact Nat.zero_le _
  | relayed _ run =>
      rw [(connectionForward_runs run ok).1.callsOf_eq s]
      exact Nat.zero_le _
  | relayEnded _ _ run =>
      rw [(connectionForward_runs run ok).1.callsOf_eq s]
      exact Nat.zero_le _
  | closed _ client target =>
      rw [upkeep (client.upkeep.append target.upkeep)]
      exact Nat.zero_le _

/-- The calls of a transient state are made once, when it is left. -/
def CalledOnce (st : ClientState) (h : History) : Prop :=
  ∀ s, s.Transient = true → callsOf s h ≤ if s.value < st.state.value then 1 else 0

theorem CalledOnce.le_one {h : History} (once : CalledOnce st h) (s : ClientStateEnum)
    (hs : s.Transient = true) : callsOf s h ≤ 1 := by
  have := once s hs
  split at this <;> omega

theorem UpkeepOnly.callsOf_append {t : History} (upkeep : UpkeepOnly t) (s : ClientStateEnum)
    (h : History) : callsOf s (h ++ t) = callsOf s h := by
  rw [SimpleProxy.callsOf_append, upkeep.callsOf_eq, Nat.add_zero]

theorem CalledOnce.move {again : Bool} {h : History} (once : CalledOnce st h)
    (move : Move ev st tr st' again) (ok : Admitted tr) : CalledOnce st' (h ++ tr) := by
  intro s hs
  have before := once s hs
  have made := move.callsOf_le ok s
  rw [callsOf_append]
  rcases (move.progress ok).1 with hlt | ⟨-, heq, hlasts⟩
  · by_cases hstate : s = st.state
    · -- the state is left now
      subst hstate
      rw [if_pos hlt]
      rw [if_neg (Nat.lt_irrefl _)] at before
      rw [if_pos rfl] at made
      omega
    · rw [if_neg hstate] at made
      split at before <;> split <;> omega
  · have hstate : s ≠ st.state := by
      intro hstate
      rw [← hstate, hs] at hlasts
      cases hlasts
    rw [if_neg hstate] at made
    rw [heq]
    omega

theorem callsOnce_inv :
    SessionInv CalledOnce (fun h => ∀ s, s.Transient = true → callsOf s h ≤ 1) where
  weaken := CalledOnce.le_one
  start := fun s _ => Nat.zero_le _
  refused := fun r s _ => by simp [callsOf, Call.phase?]
  born := by
    intro fd t res registered _
    have none' : ∀ s, callsOf s (⟨.accept, .conn fd⟩ :: t) = 0 := by
      intro s
      have := registered.upkeep.callsOf_eq s
      simpa [callsOf, Call.phase?] using this
    cases res with
    | none => exact fun s _ => by rw [none' s]; omega
    | some st => exact fun s _ => by rw [none' s]; omega
  slot _ := id
  move once _ move ok := once.move move ok
  tick := by
    intro st t res h once ticked _
    cases res with
    | none =>
        intro s hs
        rw [ticked.upkeep.callsOf_append]
        exact once.le_one s hs
    | some st' =>
        intro s hs
        rw [ticked.upkeep.callsOf_append, ticked.target.1]
        exact once s hs
  release := by
    intro st t h once released _ s hs
    rw [released.upkeep.callsOf_append]
    exact once.le_one s hs

end SimpleProxy
