import SimpleProxy.Main.Proxy

/-!
# The session automaton

A client session as an automaton: `Move` lists everything one handler can do,
with the exact calls it makes and their results, and `Moves` chains the handlers
that one event runs through. `handleClient_moves` says that `handle_client`
does nothing else. A property of sessions is proved by one case for each
`Move`, without going back to the handlers.
-/

namespace SimpleProxy

open Interact CString

/-- The buffer before `recv`: doubled when one byte of it was left. -/
inductive MadeRoom (st : ClientState) : History → ClientState → Prop
  | fits (h : st.requestBuffer.length ≠ st.requestCapacity - 1) : MadeRoom st [] st
  | grown (h : st.requestBuffer.length = st.requestCapacity - 1) :
      MadeRoom st [⟨.malloc, true⟩] { st with requestCapacity := st.requestCapacity * 2 }

/-- The reply to an accepted `CONNECT` request, in front of which any other
request stays as it is. -/
inductive Replied (st : ClientState) : History → ClientState → Prop
  | skipped (h : st.isHttps = false) : Replied st [] st
  | sent (h : st.isHttps = true) (r : SendResult) :
      Replied st [⟨.send .client st.clientFd connectionEstablished .plain, r⟩]
        { st with requestBuffer := [] }

/-- `connection_connect` without a failure. -/
inductive Opened (st : ClientState) : History → ClientState → Prop
  | inProgress (fd : Fd) (addr : Addr) :
      Opened st
        [⟨.gethostbyname st.host, some addr⟩, ⟨.socket, some fd⟩,
          ⟨.connect fd addr (htons st.port), .inProgress⟩]
        { st with targetFd := fd }
  | atOnce (fd : Fd) (addr : Addr) {g : History} {st₁ : ClientState}
      (reply : Replied { st with targetFd := fd } g st₁) :
      Opened st
        ([⟨.gethostbyname st.host, some addr⟩, ⟨.socket, some fd⟩,
          ⟨.connect fd addr (htons st.port), .ok⟩] ++ g)
        st₁

/-- The calls of `register_forwarding_fds`, cut off by the first failure. -/
inductive Registering (clientFd targetFd : Fd) : History → Prop
  | noMemory : Registering clientFd targetFd [⟨.malloc, false⟩]
  | clientFailed :
      Registering clientFd targetFd [⟨.malloc, true⟩,
        ⟨.epollMod .client clientFd ⟨true, true⟩ (some .client), false⟩]
  | noMoreMemory :
      Registering clientFd targetFd [⟨.malloc, true⟩,
        ⟨.epollMod .client clientFd ⟨true, true⟩ (some .client), true⟩, ⟨.malloc, false⟩]
  | both (ok : Bool) :
      Registering clientFd targetFd [⟨.malloc, true⟩,
        ⟨.epollMod .client clientFd ⟨true, true⟩ (some .client), true⟩, ⟨.malloc, true⟩,
        ⟨.epollMod .target targetFd ⟨true, true⟩ (some .target), ok⟩]

/-- `epoll_del_fd` and `close` on one side, if it is open. -/
inductive SideClosed (side : Side) (fd : Fd) : History → Prop
  | absent (h : fd = -1) : SideClosed side fd []
  | closed (h : fd ≠ -1) (ok : Bool) :
      SideClosed side fd [⟨.epollDel side fd, ok⟩, ⟨.close side fd, ()⟩]

/-- The `recv` of `read_request_nonblocking`. -/
def readCall (st : ClientState) : Call :=
  .recv .client st.clientFd (st.requestCapacity - st.requestBuffer.length)

/-- `Move ev st tr st' again`: the handler for the state of `st` can make the
calls `tr` and leave `st'`; `again` tells whether it then calls `handle_client`. -/
inductive Move (ev : ClientEvent) (st : ClientState) : History → ClientState → Bool → Prop
  | growFailed (phase : st.state = .readingRequest)
      (full : st.requestBuffer.length = st.requestCapacity - 1) :
      Move ev st [⟨.malloc, false⟩] { st with state := .closing } true
  | readFailed {g : History} {st₁ : ClientState} {r : RecvResult}
      (phase : st.state = .readingRequest) (room : MadeRoom st g st₁)
      (failed : r = .error ∨ r = .eof ∧ st₁.requestBuffer = []) :
      Move ev st (g ++ [⟨readCall st₁, r⟩]) { st₁ with state := .closing } true
  | readNothing {g : History} {st₁ : ClientState} {r : RecvResult}
      (phase : st.state = .readingRequest) (room : MadeRoom st g st₁)
      (nothing : r = .again ∨ r = .eof ∧ st₁.requestBuffer ≠ []) :
      Move ev st (g ++ [⟨readCall st₁, r⟩]) st₁ false
  | readPart {g : History} {st₁ : ClientState} (bs : Bytes)
      (phase : st.state = .readingRequest) (room : MadeRoom st g st₁)
      (part : (strstr (cstr (st₁.requestBuffer ++ bs)) crlfcrlf).isSome = false) :
      Move ev st (g ++ [⟨readCall st₁, .data bs⟩])
        { st₁ with requestBuffer := st₁.requestBuffer ++ bs } false
  | readHeader {g : History} {st₁ : ClientState} (bs : Bytes)
      (phase : st.state = .readingRequest) (room : MadeRoom st g st₁)
      (complete : (strstr (cstr (st₁.requestBuffer ++ bs)) crlfcrlf).isSome = true) :
      Move ev st (g ++ [⟨readCall st₁, .data bs⟩])
        { st₁ with requestBuffer := st₁.requestBuffer ++ bs, state := .authenticating } true
  | rejected (r : SendResult) (phase : st.state = .authenticating) :
      Move ev st [⟨.hasValidAuth st.requestBuffer, false⟩,
        ⟨.send .client st.clientFd proxyAuthRequired .plain, r⟩]
        { st with state := .closing } true
  | noHost (phase : st.state = .authenticating)
      (missing : parseHostPort (cstr st.requestBuffer) = none) :
      Move ev st [⟨.hasValidAuth st.requestBuffer, true⟩]
        { st with
          isHttps := (bytes "CONNECT ").isPrefixOf (cstr st.requestBuffer)
          state := .closing } false
  | accepted {host : Bytes} {port : Int} (phase : st.state = .authenticating)
      (parsed : parseHostPort (cstr st.requestBuffer) = some (host, port)) :
      Move ev st [⟨.hasValidAuth st.requestBuffer, true⟩]
        { st with
          isHttps := (bytes "CONNECT ").isPrefixOf (cstr st.requestBuffer)
          host := host
          port := port
          state := .initializeConnection } true
  | unresolved (phase : st.state = .initializeConnection) :
      Move ev st [⟨.gethostbyname st.host, none⟩] { st with state := .closing } false
  | noSocket (addr : Addr) (phase : st.state = .initializeConnection) :
      Move ev st [⟨.gethostbyname st.host, some addr⟩, ⟨.socket, none⟩]
        { st with targetFd := -1, state := .closing } false
  | refused (fd : Fd) (addr : Addr) (phase : st.state = .initializeConnection) :
      Move ev st
        [⟨.gethostbyname st.host, some addr⟩, ⟨.socket, some fd⟩,
          ⟨.connect fd addr (htons st.port), .error⟩, ⟨.close .target fd, ()⟩]
        { st with targetFd := -1, state := .closing } false
  | started {o : History} {st₁ : ClientState} (room : Bool)
      (phase : st.state = .initializeConnection) (opened : Opened st o st₁) :
      Move ev st
        (o ++ [⟨.malloc, room⟩, ⟨.epollAdd .target st₁.targetFd ⟨false, true⟩
          (if room then some .target else none), true⟩])
        { st₁ with state := .connecting } false
  | addFailed {o : History} {st₁ : ClientState} (room : Bool)
      (phase : st.state = .initializeConnection) (opened : Opened st o st₁) :
      -- the descriptor is closed but stays in `target_fd`
      Move ev st
        (o ++ [⟨.malloc, room⟩, ⟨.epollAdd .target st₁.targetFd ⟨false, true⟩
          (if room then some .target else none), false⟩, ⟨.close .target st₁.targetFd, ()⟩])
        { st₁ with state := .closing } false
  | connectFailed {r : SockError} (phase : st.state = .connecting) (failed : r ≠ .code 0) :
      Move ev st [⟨.getsockopt st.targetFd, r⟩, ⟨.close .target st.targetFd, ()⟩]
        { st with targetFd := -1, state := .closing } true
  | connected {g t : History} {st₁ : ClientState} (phase : st.state = .connecting)
      (reply : Replied st g st₁) (register : Registering st₁.clientFd st₁.targetFd t) :
      Move ev st (⟨.getsockopt st.targetFd, .code 0⟩ :: g ++ t)
        { st₁ with responseBuffer := [], state := .forwarding } false
  | relayed {tr : History} {st₁ : ClientState} (phase : st.state = .forwarding)
      (run : (connectionForward ev.fdType ev.events st).Runs tr (0, st₁)) :
      Move ev st tr st₁ false
  | relayEnded {tr : History} {result : Int} {st₁ : ClientState}
      (phase : st.state = .forwarding) (ended : result ≠ 0)
      (run : (connectionForward ev.fdType ev.events st).Runs tr (result, st₁)) :
      Move ev st tr { st₁ with state := .closing } false
  | closed {t₁ t₂ : History} (phase : st.state = .closing)
      (client : SideClosed .client st.clientFd t₁) (target : SideClosed .target st.targetFd t₂) :
      Move ev st (t₁ ++ t₂) { st with expired := true, clientFd := -1, targetFd := -1 } false

/-- Everything one event makes a client do. -/
inductive Moves (ev : ClientEvent) : ClientState → History → ClientState → Prop
  | ignored {st : ClientState} (h : st.expired = true ∨ st.state = .closed) : Moves ev st [] st
  | last {st st' : ClientState} {tr : History} (live : st.expired = false)
      (move : Move ev st tr st' false) : Moves ev st tr st'
  | again {st st₁ st' : ClientState} {t₁ t₂ : History} (live : st.expired = false)
      (move : Move ev st t₁ st₁ true) (rest : Moves ev st₁ t₂ st') : Moves ev st (t₁ ++ t₂) st'

/-! ## What the parts leave alone -/

section Frame

variable {st st' : ClientState} {tr : History}

theorem MadeRoom.frame (h : MadeRoom st tr st') :
    st' = { st with requestCapacity := st'.requestCapacity } := by
  cases h <;> rfl

theorem Replied.frame (h : Replied st tr st') :
    st' = { st with requestBuffer := st'.requestBuffer } := by
  cases h <;> rfl

theorem Opened.frame (h : Opened st tr st') :
    st' = { st with requestBuffer := st'.requestBuffer, targetFd := st'.targetFd } := by
  cases h with
  | inProgress => rfl
  | atOnce _ _ reply => cases reply <;> rfl

/-- The fields only the relay and the timer write: slot, flags, time of the last
activity. -/
theorem Move.frame {ev : ClientEvent} {again : Bool} (h : Move ev st tr st' again)
    (phase : st.state ≠ .forwarding) :
    st' = { st with
      clientFd := st'.clientFd
      targetFd := st'.targetFd
      expired := st'.expired
      requestBuffer := st'.requestBuffer
      requestCapacity := st'.requestCapacity
      responseBuffer := st'.responseBuffer
      state := st'.state
      host := st'.host
      port := st'.port
      isHttps := st'.isHttps } := by
  cases h with
  | readFailed _ room => cases room <;> rfl
  | readNothing _ room => cases room <;> rfl
  | readPart _ _ room => cases room <;> rfl
  | readHeader _ _ room => cases room <;> rfl
  | started _ _ opened =>
      rw [opened.frame]
  | addFailed _ _ opened =>
      rw [opened.frame]
  | connected _ reply => cases reply <;> rfl
  | relayed forwarding => exact absurd forwarding phase
  | relayEnded forwarding => exact absurd forwarding phase
  | _ => rfl

/-- In `FORWARDING` a client relays. -/
theorem Move.of_forwarding {ev : ClientEvent} {again : Bool} (h : Move ev st tr st' again)
    (phase : st.state = .forwarding) :
    ∃ result st₁, (connectionForward ev.fdType ev.events st).Runs tr (result, st₁) ∧
      again = false ∧ st' = if result = 0 then st₁ else { st₁ with state := .closing } := by
  cases h with
  | relayed _ run => exact ⟨0, st', run, rfl, rfl⟩
  | relayEnded _ ended run => exact ⟨_, _, run, rfl, (if_neg ended).symm⟩
  | _ => simp_all

end Frame

/-! ## The parts of the handlers -/

variable {st st' : ClientState} {ev : ClientEvent} {tr : History}

theorem stage_runs {cond : Bool} {run : ClientState → Proc ClientState}
    (h : (stage cond run st).Runs tr st') :
    (cond = false ∧ tr = [] ∧ st' = st) ∨ (cond = true ∧ (run st).Runs tr st') := by
  cases cond with
  | false => exact .inl ⟨rfl, h⟩
  | true => exact .inr ⟨rfl, h⟩

theorem reply_runs (h : (stage st.isHttps establish st).Runs tr st') : Replied st tr st' := by
  obtain ⟨hplain, rfl, rfl⟩ | ⟨hhttps, h⟩ := stage_runs h
  · exact .skipped hplain
  · obtain ⟨r, rest, rfl, rfl, rfl⟩ := h
    exact .sent hhttps r

theorem registerForwardingFds_runs {ok : Bool} (h : (registerForwardingFds st).Runs tr ok) :
    Registering st.clientFd st.targetFd tr := by
  obtain ⟨room, rest, rfl, h⟩ := h
  cases room with
  | false =>
      obtain ⟨rfl, -⟩ := h
      exact .noMemory
  | true =>
      obtain ⟨modified, rest, rfl, h⟩ := h
      cases modified with
      | false =>
          obtain ⟨rfl, -⟩ := h
          exact .clientFailed
      | true =>
          obtain ⟨more, rest, rfl, h⟩ := h
          cases more with
          | false =>
              obtain ⟨rfl, -⟩ := h
              exact .noMoreMemory
          | true =>
              obtain ⟨r, rest, rfl, rfl, -⟩ := h
              exact .both r

theorem closeSide_runs {side : Side} {u : Unit} (h : (closeSide side st).Runs tr u) :
    SideClosed side (st.fd side) tr := by
  unfold closeSide at h
  split at h
  · rename_i hopen
    obtain ⟨ok, rest, rfl, r, rest', rfl, rfl, -⟩ := h
    exact .closed hopen ok
  · rename_i habsent
    obtain ⟨rfl, -⟩ := h
    exact .absent (by simpa using habsent)

theorem receiveRequest_runs {result : Int} (h : (receiveRequest st).Runs tr (result, st')) :
    ∃ r, tr = [⟨readCall st, r⟩] ∧
      ((result = -1 ∧ st' = st ∧ (r = .error ∨ r = .eof ∧ st.requestBuffer = [])) ∨
        (result = 0 ∧ st' = st ∧ (r = .again ∨ r = .eof ∧ st.requestBuffer ≠ [])) ∨
        ∃ bs, r = .data bs ∧ st' = { st with requestBuffer := st.requestBuffer ++ bs } ∧
          result = if (strstr (cstr st'.requestBuffer) crlfcrlf).isSome then 1 else 0) := by
  rw [receiveRequest, Prog.runs_perform_bind] at h
  obtain ⟨r, rest, rfl, h⟩ := h
  cases r with
  | again =>
      obtain ⟨rfl, h⟩ := h
      cases h
      exact ⟨.again, rfl, .inr (.inl ⟨rfl, rfl, .inl rfl⟩)⟩
  | error =>
      obtain ⟨rfl, h⟩ := h
      cases h
      exact ⟨.error, rfl, .inl ⟨rfl, rfl, .inl rfl⟩⟩
  | eof =>
      -- the peer closing is an error only when nothing of a request is there
      by_cases hempty : st.requestBuffer = []
      · rw [if_pos hempty] at h
        obtain ⟨rfl, h⟩ := h
        cases h
        exact ⟨.eof, rfl, .inl ⟨rfl, rfl, .inr ⟨rfl, hempty⟩⟩⟩
      · rw [if_neg hempty] at h
        obtain ⟨rfl, h⟩ := h
        cases h
        exact ⟨.eof, rfl, .inr (.inl ⟨rfl, rfl, .inr ⟨rfl, hempty⟩⟩)⟩
  | data bs =>
      dsimp only at h
      refine ⟨.data bs, ?_⟩
      -- the header is looked for in all that was received so far
      by_cases hfound : (strstr (cstr (st.requestBuffer ++ bs)) crlfcrlf).isSome = true
      · rw [if_pos hfound] at h
        obtain ⟨rfl, h⟩ := h
        cases h
        exact ⟨rfl, .inr (.inr ⟨bs, rfl, rfl, (if_pos hfound).symm⟩)⟩
      · rw [if_neg hfound] at h
        obtain ⟨rfl, h⟩ := h
        cases h
        exact ⟨rfl, .inr (.inr ⟨bs, rfl, rfl, (if_neg hfound).symm⟩)⟩

theorem readRequestNonblocking_runs {result : Int}
    (h : (readRequestNonblocking st).Runs tr (result, st')) :
    (st.requestBuffer.length = st.requestCapacity - 1 ∧ tr = [⟨.malloc, false⟩] ∧
        result = -1 ∧ st' = st) ∨
      ∃ g st₁ t, MadeRoom st g st₁ ∧ tr = g ++ t ∧ (receiveRequest st₁).Runs t (result, st') := by
  unfold readRequestNonblocking at h
  split at h
  · rename_i hfull
    obtain ⟨room, rest, rfl, h⟩ := h
    cases room with
    | false =>
        obtain ⟨rfl, h⟩ := h
        cases h
        exact .inl ⟨hfull, rfl, rfl, rfl⟩
    | true => exact .inr ⟨_, _, rest, .grown hfull, rfl, h⟩
  · rename_i hfits
    exact .inr ⟨_, _, tr, .fits hfits, rfl, h⟩

theorem connectionConnect_runs {result : Int} (phase : st.state = .initializeConnection)
    (h : (connectionConnect st).Runs tr (result, st')) :
    (result = -1 ∧ Move ev st tr { st' with state := .closing } false) ∨
      (result ≠ -1 ∧ Opened st tr st') := by
  rw [connectionConnect, Prog.runs_perform_bind] at h
  obtain ⟨resolved, rest, rfl, h⟩ := h
  cases resolved with
  | none =>
      obtain ⟨rfl, h⟩ := h
      cases h
      exact .inl ⟨rfl, .unresolved phase⟩
  | some addr =>
      dsimp only at h
      rw [Prog.runs_perform_bind] at h
      obtain ⟨sock, rest, rfl, h⟩ := h
      cases sock with
      | none =>
          obtain ⟨rfl, h⟩ := h
          cases h
          exact .inl ⟨rfl, .noSocket addr phase⟩
      | some fd =>
          dsimp only at h
          rw [Prog.runs_perform_bind] at h
          obtain ⟨r, rest, rfl, h⟩ := h
          cases r with
          | inProgress =>
              obtain ⟨rfl, h⟩ := h
              cases h
              exact .inr ⟨by decide, .inProgress fd addr⟩
          | error =>
              obtain ⟨_, rest, rfl, rfl, h⟩ := h
              cases h
              exact .inl ⟨rfl, .refused fd addr phase⟩
          | ok =>
              dsimp only at h
              rw [Prog.runs_bind] at h
              obtain ⟨st₁, t₁, t₂, rfl, hreply, rfl, h⟩ := h
              cases h
              exact .inr ⟨by decide, by simpa using Opened.atOnce fd addr (reply_runs hreply)⟩

/-! ## The handlers -/

/-- One move, followed by `next` where the handler calls `handle_client` again. -/
def MoveThen (next : Handler) (ev : ClientEvent) (st : ClientState) (tr : History)
    (st' : ClientState) : Prop :=
  Move ev st tr st' false ∨
    ∃ t₁ st₁ t₂, tr = t₁ ++ t₂ ∧ Move ev st t₁ st₁ true ∧ (next st₁ ev).Runs t₂ st'

variable {next : Handler}

theorem handleReadingRequest_moves (phase : st.state = .readingRequest)
    (h : (handleReadingRequest next st ev).Runs tr st') : MoveThen next ev st tr st' := by
  rw [handleReadingRequest, Prog.runs_bind] at h
  obtain ⟨⟨result, st₂⟩, t₁, t₂, rfl, hread, h⟩ := h
  obtain ⟨hfull, rfl, rfl, rfl⟩ | ⟨g, st₁, t, room, rfl, hrecv⟩ := readRequestNonblocking_runs hread
  · exact .inr ⟨_, _, t₂, rfl, .growFailed phase hfull, h⟩
  · obtain ⟨r, rfl, ⟨rfl, rfl, hr⟩ | ⟨rfl, rfl, hr⟩ | ⟨bs, rfl, rfl, rfl⟩⟩ := receiveRequest_runs hrecv
    · exact .inr ⟨_, _, t₂, rfl, .readFailed phase room hr, h⟩
    · obtain ⟨rfl, rfl⟩ := h
      exact .inl (by simpa using Move.readNothing phase room hr)
    · cases hfound : (strstr (cstr (st₁.requestBuffer ++ bs)) crlfcrlf).isSome with
      | false =>
          simp only [hfound] at h
          obtain ⟨rfl, rfl⟩ := h
          exact .inl (by simpa using Move.readPart bs phase room hfound)
      | true =>
          simp only [hfound] at h
          exact .inr ⟨_, _, t₂, rfl, .readHeader bs phase room hfound, h⟩

theorem handleAuthenticating_moves (phase : st.state = .authenticating)
    (h : (handleAuthenticating next st ev).Runs tr st') : MoveThen next ev st tr st' := by
  rw [handleAuthenticating, Prog.runs_perform_bind] at h
  obtain ⟨ok, rest, rfl, h⟩ := h
  cases ok with
  | false =>
      obtain ⟨r, rest, rfl, h⟩ := h
      exact .inr ⟨_, _, rest, rfl, .rejected r phase, h⟩
  | true =>
      rw [if_pos rfl] at h
      dsimp only at h
      split at h
      · rename_i hmissing
        obtain ⟨rfl, rfl⟩ := h
        exact .inl (.noHost phase hmissing)
      · rename_i host port hparsed
        exact .inr ⟨_, _, rest, rfl, .accepted phase hparsed, h⟩

theorem handleInitializeConnection_moves (phase : st.state = .initializeConnection)
    (h : (handleInitializeConnection st ev).Runs tr st') : Move ev st tr st' false := by
  rw [handleInitializeConnection, Prog.runs_bind] at h
  obtain ⟨⟨result, st₁⟩, t₁, t₂, rfl, hconnect, h⟩ := h
  obtain ⟨rfl, hfailed⟩ | ⟨hok, opened⟩ := connectionConnect_runs phase hconnect
  · obtain ⟨rfl, rfl⟩ := h
    simpa using hfailed
  · simp only [hok, if_false] at h
    rw [epollCreateData] at h
    obtain ⟨room, rest, rfl, h⟩ := h
    obtain ⟨added, rest, rfl, h⟩ := h
    cases added with
    | true =>
        obtain ⟨rfl, rfl⟩ := h
        exact .started room phase opened
    | false =>
        obtain ⟨_, rest, rfl, rfl, rfl⟩ := h
        exact .addFailed room phase opened

theorem handleConnecting_moves (phase : st.state = .connecting)
    (h : (handleConnecting next st ev).Runs tr st') : MoveThen next ev st tr st' := by
  rw [handleConnecting, Prog.runs_perform_bind] at h
  obtain ⟨r, rest, rfl, h⟩ := h
  by_cases hr : r = .code 0
  · subst hr
    rw [if_pos rfl, Prog.runs_bind] at h
    obtain ⟨st₁, t₁, t₂, rfl, hreply, h⟩ := h
    rw [Prog.runs_bind] at h
    obtain ⟨ok, t₂, t₃, rfl, hregister, rfl, rfl⟩ := h
    have register := registerForwardingFds_runs hregister
    exact .inl (by simpa using Move.connected phase (reply_runs hreply) register)
  · rw [if_neg hr] at h
    obtain ⟨_, rest, rfl, h⟩ := h
    exact .inr ⟨_, _, rest, rfl, .connectFailed phase hr, h⟩

theorem handleForwarding_moves (phase : st.state = .forwarding)
    (h : (handleForwarding st ev).Runs tr st') : Move ev st tr st' false := by
  rw [handleForwarding, Prog.runs_bind] at h
  obtain ⟨⟨result, st₁⟩, t₁, t₂, rfl, hforward, h⟩ := h
  by_cases hr : result = 0
  · subst hr
    obtain ⟨rfl, rfl⟩ := h
    simpa using Move.relayed phase hforward
  · simp only [hr, ne_eq, not_false_eq_true, if_true] at h
    obtain ⟨rfl, rfl⟩ := h
    simpa using Move.relayEnded phase hr hforward

theorem handleClosing_moves (phase : st.state = .closing)
    (h : (handleClosing st ev).Runs tr st') : Move ev st tr st' false := by
  rw [handleClosing, Prog.runs_bind] at h
  obtain ⟨_, t₁, t₂, rfl, hclient, h⟩ := h
  rw [Prog.runs_bind] at h
  obtain ⟨_, t₂, t₃, rfl, htarget, rfl, rfl⟩ := h
  simpa using Move.closed phase (closeSide_runs hclient) (closeSide_runs htarget)

/-! ## The whole event -/

theorem moveThen_moves (live : st.expired = false)
    (ih : ∀ st₁ t, (next st₁ ev).Runs t st' → Moves ev st₁ t st')
    (h : MoveThen next ev st tr st') : Moves ev st tr st' := by
  obtain hlast | ⟨t₁, st₁, t₂, rfl, hmove, hnext⟩ := h
  · exact .last live hlast
  · exact .again live hmove (ih st₁ t₂ hnext)

theorem dispatch_moves (depth : Nat) (h : (dispatch depth st ev).Runs tr st') :
    Moves ev st tr st' := by
  induction depth generalizing st tr with
  | zero => exact h.elim
  | succ depth ih =>
      have next : ∀ st₁ t, (dispatch depth st₁ ev).Runs t st' → Moves ev st₁ t st' :=
        fun _ _ => ih
      rw [dispatch] at h
      cases live : st.expired with
      | true =>
          rw [if_pos live] at h
          obtain ⟨rfl, rfl⟩ := h
          exact .ignored (.inl live)
      | false =>
          rw [if_neg (by simp [live])] at h
          cases phase : st.state <;> simp only [phase] at h
          · exact moveThen_moves live next (handleReadingRequest_moves phase h)
          · exact moveThen_moves live next (handleAuthenticating_moves phase h)
          · exact .last live (handleInitializeConnection_moves phase h)
          · exact moveThen_moves live next (handleConnecting_moves phase h)
          · exact .last live (handleForwarding_moves phase h)
          · exact .last live (handleClosing_moves phase h)
          · obtain ⟨rfl, rfl⟩ := h
            exact .ignored (.inr phase)

/-- `handle_client` makes the moves of the automaton. -/
theorem handleClient_moves (h : (handleClient st ev).Runs tr st') : Moves ev st tr st' :=
  dispatch_moves 6 h

/-- An event leaves an expired client as it is. -/
theorem Moves.of_expired (h : Moves ev st tr st') (expired : st.expired = true) :
    tr = [] ∧ st' = st := by
  cases h with
  | ignored => exact ⟨rfl, rfl⟩
  | last live =>
      rw [expired] at live
      cases live
  | again live =>
      rw [expired] at live
      cases live

/-- In `CLOSING` an event closes what the client has, and nothing else. -/
theorem Moves.of_closing (h : Moves ev st tr st') (live : st.expired = false)
    (phase : st.state = .closing) :
    ∃ t₁ t₂, tr = t₁ ++ t₂ ∧ SideClosed .client st.clientFd t₁ ∧
      SideClosed .target st.targetFd t₂ ∧
      st' = { st with expired := true, clientFd := -1, targetFd := -1 } := by
  have one : ∀ {tr st' again}, Move ev st tr st' again → again = false ∧
      ∃ t₁ t₂, tr = t₁ ++ t₂ ∧ SideClosed .client st.clientFd t₁ ∧
        SideClosed .target st.targetFd t₂ ∧
        st' = { st with expired := true, clientFd := -1, targetFd := -1 } := by
    intro tr st' again move
    cases move with
    | closed _ client target => exact ⟨rfl, _, _, rfl, client, target, rfl⟩
    | _ => simp_all
  cases h with
  | ignored none => simp_all
  | last _ move => exact (one move).2
  | again _ move =>
      obtain ⟨last, -⟩ := one move
      cases last

end SimpleProxy
