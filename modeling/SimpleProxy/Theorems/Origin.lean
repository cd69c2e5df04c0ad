import SimpleProxy.Logic.Endpoint
import SimpleProxy.Logic.Replies

/-!
# What the origin server receives

A request that is not a `CONNECT` stays in the request buffer as it was read, and the
relay sends what is in there. Nothing is taken out of it, the credentials
included: two clients that differ in their credentials reach the same endpoint, and what
is sent there differs in the credentials.
-/

namespace SimpleProxy.Theorems.Origin

open Interact CString

variable {st st' : ClientState} {h t : History} {request : Bytes}

/-! ## The stream to the target -/

/-- A request for a tunnel. -/
def asksTunnel (request : Bytes) : Bool := (bytes "CONNECT ").isPrefixOf (cstr request)

theorem tunnels_eq (h : History) : tunnels h = (grants h).any asksTunnel := by
  induction h with
  | nil => rfl
  | cons e h ih =>
      have first : tunnels [e] = (grants [e]).any asksTunnel := by
        rw [grants_singleton]
        show (Io.acceptedConnect e || false) = _
        rw [Bool.or_false, Io.acceptedConnect]
        cases e.granted <;> simp [asksTunnel]
      rw [← List.singleton_append, tunnels_append, grants_append, List.any_append, first, ih]

/-- At most one request was accepted; unless it is for a tunnel, what was sent to the target
is the start of what the client sent. -/
def Verbatim (h : History) : Prop :=
  grants h = [] ∨ ∃ request, grants h = [request] ∧ request <+: received .client h ∧
    (asksTunnel request = false → accepted .target h <+: received .client h)

theorem Verbatim.silent (verbatim : Verbatim h) (silent : Silent t) : Verbatim (h ++ t) := by
  unfold Verbatim at verbatim ⊢
  rw [grants_append, silent.grants, received_append, silent.received, accepted_append,
    silent.accepted]
  simpa only [List.append_nil] using verbatim

theorem Verbatim.granted (phase : Phase st h) (hst : st.state = .authenticating) :
    Verbatim (h ++ [⟨.hasValidAuth st.requestBuffer, true⟩]) := by
  simp only [Phase, hst] at phase
  obtain ⟨hgrants, haccepted, hbuffer, -⟩ := phase
  refine .inr ⟨st.requestBuffer, ?_, ?_, fun _ => ?_⟩
  · rw [grants_append, hgrants]
    rfl
  · rw [received_append, ← hbuffer]
    exact List.prefix_append _ _
  · rw [accepted_append, haccepted]
    exact List.nil_prefix

/-- A client that is relayed. -/
theorem flow_of_forwarding (phase : Phase st h) (hst : st.state = .forwarding)
    (kind : tunnels h = st.isHttps) :
    ∃ request, grants h = [request] ∧ request <+: received .client h ∧
      (asksTunnel request = false →
        accepted .target h ++ st.requestBuffer = received .client h) := by
  simp only [Phase, hst] at phase
  obtain ⟨request, rest, granted, sent, flow⟩ := phase
  refine ⟨request, granted.only, ⟨rest, sent.symm⟩, fun plain => ?_⟩
  rw [tunnels_eq, granted.only, List.any_cons, List.any_nil, Bool.or_false, plain] at kind
  rw [flow, ← kind, sent]
  rfl

theorem Verbatim.of_forwarding (phase : Phase st h) (hst : st.state = .forwarding)
    (kind : tunnels h = st.isHttps) : Verbatim h := by
  obtain ⟨request, only, sent, flow⟩ := flow_of_forwarding phase hst kind
  exact .inr ⟨request, only, sent, fun plain => ⟨st.requestBuffer, flow plain⟩⟩

theorem Verbatim.relay (phase : Phase st h) (replying : Replying st h)
    (hst : st.state = .forwarding) (transfer : TransferSpec st st' t) : Verbatim (h ++ t) := by
  have same : st'.state = st.state ∧ st'.isHttps = st.isHttps := by
    rw [transfer.frame]
    exact ⟨rfl, rfl⟩
  have kind : tunnels h = st.isHttps :=
    replying.kind (by rw [hst]; decide) (by rw [hst]; decide)
  refine .of_forwarding (phase.relay hst transfer) (same.1.trans hst) ?_
  rw [tunnels_append, transfer.noReply.tunnels, Bool.or_false, kind, same.2]

/-- While the request is read nothing was accepted. -/
theorem Verbatim.reading (phase : Phase st h) (hst : st.state.value < 2) : Verbatim h := by
  cases hstate : st.state with
  | readingRequest =>
      simp only [Phase, hstate] at phase
      exact .inl phase.1
  | authenticating =>
      simp only [Phase, hstate] at phase
      exact .inl phase.1
  | _ =>
      rw [hstate] at hst
      exact absurd hst (by decide)

theorem Verbatim.move {ev : ClientEvent} {again : Bool} (verbatim : Verbatim h)
    (phase : Phase st h) (replying : Replying st h) (move : Move ev st t st' again)
    (ok : Admitted t) : Verbatim (h ++ t) := by
  have after := phase.move move ok
  have quiet : ∀ {t}, Quiet t → Verbatim (h ++ t) := fun ht => verbatim.silent ht.silent
  cases move with
  | growFailed => exact quiet (by simp [Quiet, Housekeeping])
  | readFailed hst room failed =>
      refine verbatim.silent (room.upkeep.quiet.silent.append (.of_forall fun e he => ?_))
      rw [List.mem_singleton.mp he]
      obtain rfl | ⟨rfl, -⟩ := failed <;> exact ⟨fun _ => rfl, fun _ => rfl, rfl⟩
  | readNothing hst room =>
      refine .reading after ?_
      rw [room.eq.1, hst]
      decide
  | @readPart g st₁ bs hst room =>
      refine .reading after ?_
      show st₁.state.value < 2
      rw [room.eq.1, hst]
      decide
  -- the last chunk still belongs to the request that is gathered
  | readHeader => exact .reading after (by show 1 < 2; decide)
  | rejected r =>
      refine verbatim.silent (.of_forall ?_)
      simp [Io.received, Io.accepted, Io.granted]
  -- the check was passed with exactly what was received
  | noHost hst => exact .granted phase hst
  | accepted hst => exact .granted phase hst
  | unresolved => exact quiet (by simp [Quiet, Housekeeping])
  | noSocket =>
      refine verbatim.silent (.of_forall ?_)
      simp [Io.received, Io.accepted, Io.granted]
  | refused =>
      refine verbatim.silent (.of_forall ?_)
      simp [Io.received, Io.accepted, Io.granted]
  | started room hst opened =>
      exact verbatim.silent (opened.silent.append (Quiet.silent (by simp [Quiet, Housekeeping])))
  | addFailed room hst opened =>
      exact verbatim.silent (opened.silent.append (Quiet.silent (by simp [Quiet, Housekeeping])))
  | connectFailed => exact quiet (by simp [Quiet, Housekeeping])
  | connected hst reply register =>
      have checked : Quiet [⟨.getsockopt st.targetFd, .code 0⟩] := by simp [Quiet, Housekeeping]
      exact verbatim.silent ((checked.silent.append reply.silent).append
        register.upkeep.quiet.silent)
  -- the relay adds what it received and accepted, in order
  | relayed hst run => exact .relay phase replying hst (connectionForward_runs run ok).1
  | relayEnded hst _ run => exact .relay phase replying hst (connectionForward_runs run ok).1
  | closed _ client target => exact quiet (client.upkeep.quiet.append target.upkeep.quiet)

/-- What is sent to the target, as a property of one client. -/
theorem verbatim_inv : SessionInv
    (fun st h => ((Phase st h ∧ EachAfter ContactOk [] h) ∧ Replying st h) ∧ Verbatim h)
    (fun h => (EachAfter ContactOk [] h ∧ Counted h) ∧ Verbatim h) :=
  let sessions := session_inv.and replying_inv
  { weaken := fun both => ⟨sessions.weaken both.1, both.2⟩
    start := ⟨sessions.start, .inl rfl⟩
    refused := fun r => ⟨sessions.refused r, .inl rfl⟩
    born := by
      intro fd tr res registered ok
      have before := sessions.born registered ok
      have quiet : Quiet (⟨.accept, .conn fd⟩ :: tr) :=
        List.forall_mem_cons.mpr ⟨rfl, registered.upkeep.quiet⟩
      have verbatim : Verbatim (⟨.accept, .conn fd⟩ :: tr) := .inl quiet.silent.grants
      cases res <;> exact ⟨before, verbatim⟩
    slot := fun n both => ⟨sessions.slot n both.1, both.2⟩
    move := by
      rintro ev st tr st' again h ⟨before, verbatim⟩ live move ok
      exact ⟨sessions.move before live move ok, verbatim.move before.1.1 before.2 move ok⟩
    tick := by
      rintro st tr res h ⟨before, verbatim⟩ ticked ok
      have after := sessions.tick before ticked ok
      have kept : Verbatim (h ++ tr) := verbatim.silent ticked.upkeep.quiet.silent
      cases res <;> exact ⟨after, kept⟩
    release := by
      rintro st tr h ⟨before, verbatim⟩ released ok
      exact ⟨sessions.release before released ok, verbatim.silent released.upkeep.quiet.silent⟩ }

/-- The stream to the target of client `c` is the start of `stream`; while the client is
relayed, what is missing of it is in the request buffer. -/
def Sends (w : World) (c : ClientId) (stream : Bytes) : Prop :=
  accepted .target (w.kernel.history c) <+: stream ∧
    ∀ st, w.mem.heap c = some st → st.state = .forwarding →
      accepted .target (w.kernel.history c) ++ st.requestBuffer = stream

/-- Every connection for client `c` goes to this endpoint. -/
def ConnectsTo (w : World) (c : ClientId) (endpoint : Option (Bytes × Int)) : Prop :=
  ∀ fd addr p r, (⟨.connect fd addr p, r⟩ : Io) ∈ w.kernel.history c →
    ∃ host port, endpoint = some (host, port) ∧ p = htons port ∧
      (⟨.gethostbyname host, some addr⟩ : Io) ∈ w.kernel.history c

variable {w : World} {c : ClientId}

/-- An accepted request is the only one. -/
theorem only_granted (reach : proxy.Reachable w)
    (granted : (⟨.hasValidAuth request, true⟩ : Io) ∈ w.kernel.history c) :
    grants (w.kernel.history c) = [request] := by
  obtain ⟨⟨-, verbatim⟩, -⟩ := verbatim_inv.reachable reach c
  have member := mem_grants.mpr granted
  rcases verbatim with none | ⟨other, only, -⟩
  · rw [none] at member
    cases member
  · rw [only] at member ⊢
    rw [List.mem_singleton.mp member]

theorem sends_request {later : Bytes} (reach : proxy.Reachable w)
    (granted : (⟨.hasValidAuth request, true⟩ : Io) ∈ w.kernel.history c)
    (plain : asksTunnel request = false)
    (sent : received .client (w.kernel.history c) = request ++ later) :
    Sends w c (request ++ later) := by
  obtain ⟨⟨-, verbatim⟩, live⟩ := verbatim_inv.reachable reach c
  have only := only_granted reach granted
  rw [← sent]
  constructor
  · rcases verbatim with none | ⟨other, same, -, start⟩
    · rw [none] at only
      cases only
    · rw [only] at same
      obtain rfl : request = other := by simpa using same
      exact start plain
  · intro st hst forwarding
    obtain ⟨⟨⟨phase, -⟩, replying⟩, -⟩ := live st hst
    have kind := replying.kind (by rw [forwarding]; decide) (by rw [forwarding]; decide)
    obtain ⟨other, same, -, flow⟩ := flow_of_forwarding phase forwarding kind
    rw [only] at same
    obtain rfl : request = other := by simpa using same
    exact flow plain

theorem connectsTo_request (reach : proxy.Reachable w)
    (granted : (⟨.hasValidAuth request, true⟩ : Io) ∈ w.kernel.history c) :
    ConnectsTo w c (parseHostPort (cstr request)) := by
  intro fd addr p r member
  obtain ⟨contacts, -⟩ := session_reachable reach c
  obtain ⟨earlier, later, hsplit⟩ := List.append_of_mem member
  obtain ⟨other, host, port, auth, connects⟩ := eachAfter_iff.mp contacts earlier _ later hsplit rfl
  obtain ⟨hp, resolved⟩ := connects fd addr p rfl
  have sub : ∀ e ∈ earlier, e ∈ w.kernel.history c := by
    intro e he
    rw [hsplit]
    exact List.mem_append_left _ he
  have same : other ∈ grants (w.kernel.history c) := mem_grants.mpr (sub _ auth.granted)
  rw [only_granted reach granted, List.mem_singleton] at same
  exact ⟨host, port, same ▸ auth.parsed, hp, sub _ resolved⟩

/-! ## Two clients with different credentials -/

theorem withCredentials_append (front space back b64 later : Bytes) :
    withCredentials front space back b64 ++ later =
      withCredentials front space (back ++ later) b64 := by
  simp only [withCredentials, List.append_assoc]

/-- **Credentials.** In any two runs, two clients whose accepted requests differ in the
credentials, and who send the same later, are connected to the same endpoint, and
what is sent there is what each of them sent: the same bytes around its own credentials. -/
theorem differ_in_credentials {w₁ w₂ : World} (reach₁ : proxy.Reachable w₁)
    (reach₂ : proxy.Reachable w₂) {c₁ c₂ : ClientId} {front space back later b₁ b₂ : Bytes}
    (blank : ∀ c ∈ space, isspace c = true) (clean₁ : OneLine b₁) (clean₂ : OneLine b₂)
    (granted₁ : (⟨.hasValidAuth (withCredentials front space back b₁), true⟩ : Io) ∈
      w₁.kernel.history c₁)
    (granted₂ : (⟨.hasValidAuth (withCredentials front space back b₂), true⟩ : Io) ∈
      w₂.kernel.history c₂)
    (plain₁ : asksTunnel (withCredentials front space back b₁) = false)
    (plain₂ : asksTunnel (withCredentials front space back b₂) = false)
    (sent₁ : received .client (w₁.kernel.history c₁) =
      withCredentials front space back b₁ ++ later)
    (sent₂ : received .client (w₂.kernel.history c₂) =
      withCredentials front space back b₂ ++ later) :
    (∃ endpoint, ConnectsTo w₁ c₁ endpoint ∧ ConnectsTo w₂ c₂ endpoint) ∧
      Sends w₁ c₁ (withCredentials front space (back ++ later) b₁) ∧
      Sends w₂ c₂ (withCredentials front space (back ++ later) b₂) := by
  have connects₁ := connectsTo_request reach₁ granted₁
  have connects₂ := connectsTo_request reach₂ granted₂
  rw [← parseHostPort_withCredentials blank clean₁ clean₂] at connects₂
  refine ⟨⟨_, connects₁, connects₂⟩, ?_, ?_⟩
  · rw [← withCredentials_append]
    exact sends_request reach₁ granted₁ plain₁ sent₁
  · rw [← withCredentials_append]
    exact sends_request reach₂ granted₂ plain₂ sent₂

/-- A request for `h` with these credentials. -/
def credentialRequest (b64 : Bytes) : Bytes :=
  withCredentials (bytes "GET http://h/ HTTP/1.1\r\nHost: h\r\n") [32] (bytes "\r\n\r\n") b64

/-- The request arrives, the connection completes, and the target takes all of it. -/
def originScript (request : Bytes) : List Cmd :=
  acceptScript 0 6 ++ requestScript 0 6 7 request [104] 80 ++
    [.wait [⟨7, ⟨false, true⟩, some ⟨.target, some 0⟩⟩], completeCmd 0 6 7 [],
      .wait [⟨7, ⟨false, true⟩, some ⟨.target, some 0⟩⟩],
      .handle 0 [onBehalf 0 (.send .target 7 request .noSignal) (.sent request.length),
        onBehalf 0 .time (1 : Int)]]

/-- What came of a call that reaches the target. -/
inductive TargetResult
  | connect (r : ConnectResult)
  | socketError (r : SockError)
  | send (r : SendResult)
  | recv (r : RecvResult)
  deriving DecidableEq, Repr

def targetResult : Io → Option TargetResult
  | ⟨.connect .., r⟩ => some (.connect r)
  | ⟨.getsockopt _, r⟩ => some (.socketError r)
  | ⟨.send .target .., r⟩ => some (.send r)
  | ⟨.recv .target .., r⟩ => some (.recv r)
  | _ => none

/-- How the target behaved. -/
def behaviour (h : History) : List TargetResult := h.filterMap targetResult

/-- What the target does in the script. -/
def takesAll (request : Bytes) : List TargetResult :=
  [.connect .inProgress, .socketError (.code 0), .send (.sent request.length)]

/-- Client 0 sent this request, and all of it was sent on. -/
structure SentOn (w : World) (request : Bytes) : Prop where
  reach : proxy.Reachable w
  granted : (⟨.hasValidAuth request, true⟩ : Io) ∈ w.kernel.history 0
  sent : received .client (w.kernel.history 0) = request ++ []
  accepted : accepted .target (w.kernel.history 0) = request
  behaves : behaviour (w.kernel.history 0) = takesAll request

theorem exists_sentOn (request : Bytes)
    (facts : ((originScript request).foldlM World.exec (World.boot 3 4 5)).map
      (fun w => (grants (w.kernel.history 0), received .client (w.kernel.history 0),
        accepted .target (w.kernel.history 0), behaviour (w.kernel.history 0))) =
      some ([request], request, request, takesAll request)) : ∃ w, SentOn w request := by
  obtain ⟨w, hw, hfacts⟩ := Option.map_eq_some_iff.mp facts
  simp only [Prod.mk.injEq] at hfacts
  obtain ⟨only, sent, accepted, behaves⟩ := hfacts
  refine ⟨w, World.reachable_of_script (.start World.booted) hw, ?_, ?_, accepted, behaves⟩
  · rw [← mem_grants, only]
    exact List.mem_singleton.mpr rfl
  · rw [sent, List.append_nil]

/-- The credentials `a:b`, and the credentials `c:d`. -/
theorem exists_two_sentOn : ∃ w₁ w₂, SentOn w₁ (credentialRequest (bytes "YTpi")) ∧
    SentOn w₂ (credentialRequest (bytes "Yzpk")) := by
  obtain ⟨w₁, h₁⟩ := exists_sentOn (credentialRequest (bytes "YTpi")) (by decide +kernel)
  obtain ⟨w₂, h₂⟩ := exists_sentOn (credentialRequest (bytes "Yzpk")) (by decide +kernel)
  exact ⟨w₁, w₂, h₁, h₂⟩

theorem blank_singleton : ∀ c ∈ ([32] : Bytes), isspace c = true :=
  List.forall_mem_singleton.mpr rfl

theorem plain_sample : asksTunnel (credentialRequest (bytes "YTpi")) = false ∧
    asksTunnel (credentialRequest (bytes "Yzpk")) = false := by decide

theorem oneLine_sample : OneLine (bytes "YTpi") ∧ OneLine (bytes "Yzpk") :=
  ⟨⟨by decide, by decide, by decide⟩, by decide, by decide, by decide⟩

/-- The two clients of the script. -/
theorem differ_in_credentials_sample :
    ∃ w₁ w₂, SentOn w₁ (credentialRequest (bytes "YTpi")) ∧
      SentOn w₂ (credentialRequest (bytes "Yzpk")) ∧
      (∃ endpoint, ConnectsTo w₁ 0 endpoint ∧ ConnectsTo w₂ 0 endpoint) ∧
      Sends w₁ 0 (credentialRequest (bytes "YTpi")) ∧
      Sends w₂ 0 (credentialRequest (bytes "Yzpk")) := by
  obtain ⟨w₁, w₂, h₁, h₂⟩ := exists_two_sentOn
  have both := differ_in_credentials h₁.reach h₂.reach blank_singleton oneLine_sample.1
    oneLine_sample.2 h₁.granted h₂.granted plain_sample.1 plain_sample.2 h₁.sent h₂.sent
  rw [List.append_nil] at both
  exact ⟨w₁, w₂, h₁, h₂, both⟩

/-- Both targets take everything, and each receives the credentials of its client. -/
theorem same_stream_fails :
    ¬ ∀ (w₁ w₂ : World) (c₁ c₂ : ClientId) (front space back later b₁ b₂ : Bytes),
      proxy.Reachable w₁ → proxy.Reachable w₂ → (∀ c ∈ space, isspace c = true) →
      OneLine b₁ → OneLine b₂ →
      (⟨.hasValidAuth (withCredentials front space back b₁), true⟩ : Io) ∈ w₁.kernel.history c₁ →
      (⟨.hasValidAuth (withCredentials front space back b₂), true⟩ : Io) ∈ w₂.kernel.history c₂ →
      asksTunnel (withCredentials front space back b₁) = false →
      asksTunnel (withCredentials front space back b₂) = false →
      received .client (w₁.kernel.history c₁) = withCredentials front space back b₁ ++ later →
      received .client (w₂.kernel.history c₂) = withCredentials front space back b₂ ++ later →
      behaviour (w₁.kernel.history c₁) = behaviour (w₂.kernel.history c₂) →
      accepted .target (w₁.kernel.history c₁) = accepted .target (w₂.kernel.history c₂) := by
  intro claim
  obtain ⟨w₁, w₂, h₁, h₂⟩ := exists_two_sentOn
  have alike : takesAll (credentialRequest (bytes "YTpi")) =
      takesAll (credentialRequest (bytes "Yzpk")) := by decide +kernel
  have same := claim w₁ w₂ 0 0 _ _ _ [] _ _ h₁.reach h₂.reach blank_singleton oneLine_sample.1
    oneLine_sample.2 h₁.granted h₂.granted plain_sample.1 plain_sample.2 h₁.sent h₂.sent
    (by rw [h₁.behaves, h₂.behaves, alike])
  rw [h₁.accepted, h₂.accepted] at same
  exact absurd same (by decide +kernel)

end SimpleProxy.Theorems.Origin
