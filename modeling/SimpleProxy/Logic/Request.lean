import SimpleProxy.Logic.Session
import SimpleProxy.Logic.Forward

/-!
# The request of a session

How the request buffer, the credentials check and the endpoint of a session
hang together. `Phase` says, for each state of a client, what its history must
have been: what it sent, which request `has_valid_auth` accepted, what went to
the target. `ContactOk` is the part about the order of calls: nobody is
contacted for a client before its request was accepted. Both hold of every
client in every reachable world (`session_reachable`).
-/

namespace SimpleProxy

open Interact CString

/-! ## The credentials checks of a history -/

/-- The request an exchange accepted. -/
def Io.granted : Io → Option Bytes
  | ⟨.hasValidAuth request, true⟩ => some request
  | _ => none

/-- The requests `has_valid_auth` accepted. -/
def grants (h : History) : List Bytes := h.filterMap Io.granted

@[simp] theorem grants_nil : grants [] = [] := rfl

@[simp] theorem grants_append (h₁ h₂ : History) : grants (h₁ ++ h₂) = grants h₁ ++ grants h₂ :=
  List.filterMap_append

@[simp] theorem grants_singleton (e : Io) : grants [e] = e.granted.toList := by
  cases hgranted : e.granted <;> simp [grants, hgranted]

theorem mem_grants {h : History} {request : Bytes} :
    request ∈ grants h ↔ (⟨.hasValidAuth request, true⟩ : Io) ∈ h := by
  simp only [grants, List.mem_filterMap]
  constructor
  · rintro ⟨e, he, hgranted⟩
    unfold Io.granted at hgranted
    split at hgranted
    · cases hgranted
      exact he
    · cases hgranted
  · intro he
    exact ⟨_, he, rfl⟩

/-- `has_valid_auth` accepted a request buffer that held a complete header and
everything the client had sent by then, and `parse_host_port` found this
endpoint in it. -/
structure Authorised (h : History) (request host : Bytes) (port : Int) : Prop where
  granted : (⟨.hasValidAuth request, true⟩ : Io) ∈ h
  sent : request <+: received .client h
  complete : (strstr (cstr request) crlfcrlf).isSome = true
  parsed : parseHostPort (cstr request) = some (host, port)

theorem Authorised.append {h : History} {request host : Bytes} {port : Int}
    (auth : Authorised h request host port) (t : History) :
    Authorised (h ++ t) request host port where
  granted := List.mem_append_left _ auth.granted
  sent := by
    rw [received_append]
    exact auth.sent.trans (List.prefix_append _ _)
  complete := auth.complete
  parsed := auth.parsed

/-! ## Who is contacted for a client -/

/-- Calls that contact somebody for a client: opening a socket, connecting it,
telling the client that a tunnel is established, sending to the target. -/
def Contact : Call → Bool
  | .socket => true
  | .connect .. => true
  | .send .client _ data .plain => data = connectionEstablished
  | .send .target .. => true
  | _ => false

/-- A contact comes after an accepted request, and a connection goes to an
address of its host, on the low 16 bits of its port. -/
def ContactOk (past : History) (e : Io) : Prop :=
  Contact e.call = true → ∃ request host port, Authorised past request host port ∧
    ∀ fd addr p, e.call = .connect fd addr p →
      p = htons port ∧ (⟨.gethostbyname host, some addr⟩ : Io) ∈ past

theorem contactOk_of_quiet {past : History} {e : Io} (quiet : Contact e.call = false) :
    ContactOk past e := by
  intro hcontact
  rw [quiet] at hcontact
  cases hcontact

theorem contactOk_of_authorised {past t : History} {e : Io} {request host : Bytes} {port : Int}
    (auth : Authorised past request host port)
    (other : ∀ fd addr p, e.call ≠ .connect fd addr p) : ContactOk (past ++ t) e :=
  fun _ => ⟨request, host, port, auth.append t, fun fd addr p he => absurd he (other fd addr p)⟩

/-! ## Calls that move no bytes and check no credentials -/

/-- A history without traffic and without an accepted request. -/
structure Silent (t : History) : Prop where
  received : ∀ side, received side t = []
  accepted : ∀ side, accepted side t = []
  grants : grants t = []

theorem Silent.append {t₁ t₂ : History} (h₁ : Silent t₁) (h₂ : Silent t₂) :
    Silent (t₁ ++ t₂) where
  received side := by rw [received_append, h₁.received, h₂.received, List.append_nil]
  accepted side := by rw [accepted_append, h₁.accepted, h₂.accepted, List.append_nil]
  grants := by rw [grants_append, h₁.grants, h₂.grants, List.append_nil]

theorem Silent.of_forall {t : History} (h : ∀ e ∈ t, (∀ side, Io.received side e = []) ∧
    (∀ side, Io.accepted side e = []) ∧ Io.granted e = none) : Silent t where
  received side := List.flatMap_eq_nil_iff.mpr fun e he => (h e he).1 side
  accepted side := List.flatMap_eq_nil_iff.mpr fun e he => (h e he).2.1 side
  grants := List.filterMap_eq_nil_iff.mpr fun e he => (h e he).2.2

/-- Calls on the side: memory, clock, name lookup, epoll, accepting, closing. -/
def Housekeeping : Call → Bool
  | .time => true
  | .malloc => true
  | .gethostbyname _ => true
  | .getsockopt _ => true
  | .epollAdd .. => true
  | .epollMod .. => true
  | .epollDel .. => true
  | .close .. => true
  | .accept => true
  | _ => false

/-- A history of such calls. -/
def Quiet (t : History) : Prop := ∀ e ∈ t, Housekeeping e.call = true

theorem Quiet.append {t₁ t₂ : History} (h₁ : Quiet t₁) (h₂ : Quiet t₂) : Quiet (t₁ ++ t₂) :=
  fun e he => (List.mem_append.mp he).elim (h₁ e) (h₂ e)

theorem Quiet.silent {t : History} (h : Quiet t) : Silent t := by
  refine .of_forall fun ⟨c, r⟩ he => ?_
  have := h _ he
  cases c <;> first | exact ⟨fun _ => rfl, fun _ => rfl, rfl⟩ | cases this

theorem Quiet.contactOk {t : History} (h : Quiet t) (past : History) :
    EachAfter ContactOk past t := by
  refine eachAfter_of_mem fun earlier ⟨c, r⟩ he => contactOk_of_quiet ?_
  have := h _ he
  cases c <;> first | rfl | cases this

variable {st st' : ClientState} {fd : Fd} {side : Side} {t : History}

theorem UpkeepOnly.quiet (h : UpkeepOnly t) : Quiet t := by
  intro ⟨c, r⟩ he
  have := h _ he
  cases c <;> first | rfl | cases this

theorem Replied.silent (h : Replied st t st') : Silent t := by
  cases h with
  | skipped => exact ⟨fun _ => rfl, fun _ => rfl, rfl⟩
  | sent =>
      refine .of_forall fun e he => ?_
      rw [List.mem_singleton.mp he]
      exact ⟨fun _ => rfl, fun _ => rfl, rfl⟩

theorem Opened.silent (h : Opened st t st') : Silent t := by
  cases h with
  | inProgress => exact .of_forall (by simp [Io.received, Io.accepted, Io.granted])
  | atOnce _ _ reply =>
      exact .append (.of_forall (by simp [Io.received, Io.accepted, Io.granted])) reply.silent

/-! ## The invariant -/

/-- The one request accepted for a client, and the endpoint found in it. -/
structure Granted (h : History) (request host : Bytes) (port : Int) : Prop where
  only : grants h = [request]
  complete : (strstr (cstr request) crlfcrlf).isSome = true
  parsed : parseHostPort (cstr request) = some (host, port)

/-- What happened so far to a client in this state. -/
def Phase (st : ClientState) (h : History) : Prop :=
  match st.state with
  | .readingRequest =>
      grants h = [] ∧ accepted .target h = [] ∧ st.requestBuffer = received .client h
  | .authenticating =>
      grants h = [] ∧ accepted .target h = [] ∧ st.requestBuffer = received .client h ∧
        (strstr (cstr st.requestBuffer) crlfcrlf).isSome = true
  | .initializeConnection =>
      Granted h st.requestBuffer st.host st.port ∧ accepted .target h = [] ∧
        received .client h = st.requestBuffer
  | .connecting =>
      ∃ request, Granted h request st.host st.port ∧ accepted .target h = [] ∧
        received .client h = request ∧
        (st.isHttps = false → st.requestBuffer = request)
  | .forwarding =>
      ∃ request rest, Granted h request st.host st.port ∧ received .client h = request ++ rest ∧
        accepted .target h ++ st.requestBuffer = if st.isHttps then rest else request ++ rest
  | .closing => True
  | .closed => True

theorem Granted.authorised {h : History} {request host : Bytes} {port : Int}
    (granted : Granted h request host port) (sent : request <+: received .client h) :
    Authorised h request host port where
  granted := mem_grants.mp (by simp [granted.only])
  sent := sent
  complete := granted.complete
  parsed := granted.parsed

theorem Granted.silent {h : History} {request host : Bytes} {port : Int}
    (granted : Granted h request host port) (ht : Silent t) :
    Granted (h ++ t) request host port where
  only := by rw [grants_append, ht.grants, List.append_nil, granted.only]
  complete := granted.complete
  parsed := granted.parsed

/-- The states in which the client has an accepted request. -/
def Admitting : ClientStateEnum → Bool
  | .initializeConnection => true
  | .connecting => true
  | .forwarding => true
  | _ => false

theorem Phase.authorised {h : History} (phase : Phase st h) (hst : Admitting st.state = true) :
    ∃ request, Authorised h request st.host st.port := by
  cases hstate : st.state <;> simp only [hstate, Phase] at phase <;> rw [hstate] at hst
  case readingRequest => cases hst
  case authenticating => cases hst
  case initializeConnection =>
    obtain ⟨granted, -, sent⟩ := phase
    exact ⟨_, granted.authorised (by simp [sent])⟩
  case connecting =>
    obtain ⟨request, granted, -, sent, -⟩ := phase
    exact ⟨request, granted.authorised (by simp [sent])⟩
  case forwarding =>
    obtain ⟨request, rest, granted, sent, -⟩ := phase
    exact ⟨request, granted.authorised (by simp [sent])⟩
  case closing => cases hst
  case closed => cases hst

theorem MadeRoom.eq (h : MadeRoom st t st') :
    st'.state = st.state ∧ st'.requestBuffer = st.requestBuffer := by
  cases h <;> exact ⟨rfl, rfl⟩

theorem Replied.eq (h : Replied st t st') : st'.host = st.host ∧ st'.port = st.port ∧
    st'.isHttps = st.isHttps ∧ st'.requestBuffer = if st.isHttps then [] else st.requestBuffer := by
  cases h with
  | skipped hplain => simp [hplain]
  | sent hhttps => simp [hhttps]

theorem Opened.eq (h : Opened st t st') : st'.host = st.host ∧ st'.port = st.port ∧
    st'.isHttps = st.isHttps ∧ (st.isHttps = false → st'.requestBuffer = st.requestBuffer) := by
  cases h with
  | inProgress => exact ⟨rfl, rfl, rfl, fun _ => rfl⟩
  | atOnce _ _ reply =>
      obtain ⟨hhost, hport, hhttps, hbuffer⟩ := reply.eq
      exact ⟨hhost, hport, hhttps, fun hplain => by rw [hbuffer, if_neg (by simp [hplain])]⟩

/-- The calls of the relay check no credentials. -/
theorem TransferSpec.grants_eq (h : TransferSpec st st' t) : grants t = [] := by
  refine List.filterMap_eq_nil_iff.mpr fun ⟨c, r⟩ he => ?_
  have := h.calls _ he
  cases c <;> first | rfl | cases this

theorem Phase.relay {h : History} (phase : Phase st h) (hst : st.state = .forwarding)
    (transfer : TransferSpec st st' t) : Phase st' (h ++ t) := by
  have same : st'.state = st.state ∧ st'.host = st.host ∧ st'.port = st.port ∧
      st'.isHttps = st.isHttps := by
    rw [transfer.frame]
    exact ⟨rfl, rfl, rfl, rfl⟩
  obtain ⟨hstate, hhost, hport, hhttps⟩ := same
  simp only [Phase, hst] at phase
  obtain ⟨request, rest, granted, sent, flow⟩ := phase
  have flows : accepted .target t ++ st'.requestBuffer = st.requestBuffer ++ received .client t :=
    transfer.flows .client
  simp only [Phase, hstate.trans hst]
  refine ⟨request, rest ++ received .client t, ⟨?_, granted.complete, ?_⟩, ?_, ?_⟩
  · rw [grants_append, transfer.grants_eq, List.append_nil, granted.only]
  · rw [hhost, hport, granted.parsed]
  · rw [received_append, sent, List.append_assoc]
  · calc accepted .target (h ++ t) ++ st'.requestBuffer
        = accepted .target h ++ (accepted .target t ++ st'.requestBuffer) := by
          rw [accepted_append, List.append_assoc]
      _ = (accepted .target h ++ st.requestBuffer) ++ received .client t := by
          rw [flows, List.append_assoc]
      _ = _ := by
          rw [flow, hhttps]
          split <;> simp

/-- Calls on the side do not change the phase. -/
theorem Phase.silent {h : History} (phase : Phase st h) (ht : Silent t) : Phase st (h ++ t) := by
  have hreceived : received .client (h ++ t) = received .client h := by
    rw [received_append, ht.received, List.append_nil]
  have haccepted : accepted .target (h ++ t) = accepted .target h := by
    rw [accepted_append, ht.accepted, List.append_nil]
  have hgrants : grants (h ++ t) = grants h := by rw [grants_append, ht.grants, List.append_nil]
  unfold Phase at phase ⊢
  rw [hreceived, haccepted, hgrants]
  cases hst : st.state <;> simp only [hst] at phase ⊢
  case readingRequest => exact phase
  case authenticating => exact phase
  case initializeConnection => exact ⟨phase.1.silent ht, phase.2⟩
  case connecting =>
    obtain ⟨request, granted, rest⟩ := phase
    exact ⟨request, granted.silent ht, rest⟩
  case forwarding =>
    obtain ⟨request, rest, granted, more⟩ := phase
    exact ⟨request, rest, granted.silent ht, more⟩

/-- Bytes read in front of the end of the header go to the request buffer. -/
private theorem Phase.read {h g : History} {st₁ : ClientState} (phase : Phase st h) (bs : Bytes)
    (hst : st.state = .readingRequest) (room : MadeRoom st g st₁) :
    let h' := h ++ (g ++ [⟨readCall st₁, .data bs⟩])
    grants h' = [] ∧ accepted .target h' = [] ∧ st₁.requestBuffer ++ bs = received .client h' := by
  simp only [Phase, hst] at phase
  obtain ⟨hgrants, haccepted, hbuffer⟩ := phase
  have silent := room.upkeep.quiet.silent
  refine ⟨?_, ?_, ?_⟩
  · simp [hgrants, silent.grants, Io.granted, readCall]
  · simp [haccepted, silent.accepted, Io.accepted, readCall]
  · simp [room.eq.2, hbuffer, silent.received, Io.received, readCall]

/-- Every move keeps the phase. -/
theorem Phase.move {ev : ClientEvent} {h : History} {again : Bool} (phase : Phase st h)
    (move : Move ev st t st' again) (ok : Admitted t) : Phase st' (h ++ t) := by
  cases move with
  | @readNothing g _ r hst room nothing =>
      have silent : Silent (g ++ [⟨readCall st', r⟩]) := by
        refine room.upkeep.quiet.silent.append (.of_forall fun e he => ?_)
        rw [List.mem_singleton.mp he]
        obtain rfl | ⟨rfl, -⟩ := nothing <;> exact ⟨fun _ => rfl, fun _ => rfl, rfl⟩
      simp only [Phase, hst] at phase
      simp only [Phase, room.eq.1.trans hst, grants_append, accepted_append, received_append,
        silent.grants, silent.accepted, silent.received, List.append_nil, room.eq.2]
      exact phase
  | readPart bs hst room part =>
      have hread := phase.read bs hst room
      simp only [Phase, room.eq.1.trans hst]
      exact hread
  | readHeader bs hst room complete =>
      obtain ⟨hgrants, haccepted, hbuffer⟩ := phase.read bs hst room
      exact ⟨hgrants, haccepted, hbuffer, complete⟩
  | accepted hst parsed =>
      simp only [Phase, hst] at phase
      obtain ⟨hgrants, haccepted, hbuffer, hcomplete⟩ := phase
      refine ⟨⟨?_, hcomplete, parsed⟩, ?_, ?_⟩
      · simp [hgrants, Io.granted]
      · simp [haccepted, Io.accepted]
      · simp [hbuffer, Io.received]
  | @started o st₁ room hst opened =>
      simp only [Phase, hst] at phase ⊢
      obtain ⟨granted, haccepted, hsent⟩ := phase
      have registered : Quiet [⟨.malloc, room⟩, ⟨.epollAdd .target st₁.targetFd ⟨false, true⟩
          (if room then some .target else none), true⟩] := by simp [Quiet, Housekeeping]
      -- from here on the grant stays the last one, as nothing is received or sent
      have silent := opened.silent.append registered.silent
      obtain ⟨hhost, hport, hhttps, hbuffer⟩ := opened.eq
      rw [hhost, hport]
      refine ⟨_, granted.silent silent, ?_, ?_, fun hplain => ?_⟩
      · rw [accepted_append, silent.accepted, List.append_nil, haccepted]
      · rw [received_append, silent.received, List.append_nil, hsent]
      · exact hbuffer (hhttps ▸ hplain)
  | @connected g t st₁ hst reply register =>
      simp only [Phase, hst] at phase ⊢
      obtain ⟨request, granted, haccepted, hsent, hplain⟩ := phase
      obtain ⟨hhost, hport, hhttps, hbuffer⟩ := reply.eq
      have checked : Quiet [⟨.getsockopt st.targetFd, .code 0⟩] := by simp [Quiet, Housekeeping]
      have silent : Silent (⟨.getsockopt st.targetFd, .code 0⟩ :: g ++ t) :=
        (checked.silent.append reply.silent).append register.upkeep.quiet.silent
      -- a tunnel has nothing to send yet, a plain request all of it
      rw [hhost, hport]
      refine ⟨request, [], granted.silent silent, ?_, ?_⟩
      · rw [received_append, silent.received, hsent]
      · rw [accepted_append, silent.accepted, haccepted]
        rw [List.append_nil, List.nil_append, hbuffer, hhttps]
        cases hcase : st.isHttps with
        | true => rfl
        | false => simp [hplain hcase]
  | relayed hst run => exact phase.relay hst (connectionForward_runs run ok).1
  -- nothing is claimed of a client that is closing
  | growFailed => trivial
  | readFailed => trivial
  | rejected => trivial
  | noHost => trivial
  | unresolved => trivial
  | noSocket => trivial
  | refused => trivial
  | addFailed => trivial
  | connectFailed => trivial
  | relayEnded => trivial
  | closed hst => simp [Phase, hst]

/-- The calls of the relay send only to a client with an accepted request. -/
private theorem Phase.relay_contactOk {h : History} (phase : Phase st h)
    (hst : st.state = .forwarding) (transfer : TransferSpec st st' t) :
    EachAfter ContactOk h t := by
  obtain ⟨request, auth⟩ := phase.authorised (by rw [hst]; rfl)
  refine eachAfter_of_mem fun earlier e he => contactOk_of_authorised auth fun fd addr p hcall => ?_
  have := transfer.calls e he
  rw [hcall] at this
  exact this

private theorem Replied.contactOk {h : History} {request host : Bytes} {port : Int}
    (auth : Authorised h request host port) (reply : Replied st t st') :
    EachAfter ContactOk h t := by
  refine eachAfter_of_mem fun earlier e he => contactOk_of_authorised auth fun fd addr p => ?_
  cases reply with
  | skipped => cases he
  | sent => simp [List.mem_singleton.mp he]

/-- The calls up to `connect`. -/
private theorem connect_contactOk {h : History} {request host : Bytes} {port : Int}
    (auth : Authorised h request host port) (fd : Fd) (addr : Addr) (r : ConnectResult) :
    EachAfter ContactOk h [⟨.gethostbyname host, some addr⟩, ⟨.socket, some fd⟩,
      ⟨.connect fd addr (htons port), r⟩] := by
  refine ⟨contactOk_of_quiet rfl, contactOk_of_authorised auth (by simp), fun _ => ?_, trivial⟩
  refine ⟨request, host, port, (auth.append _).append _, fun fd' addr' p hcall => ?_⟩
  cases hcall
  exact ⟨rfl, by simp⟩

private theorem Opened.contactOk {h : History} {request : Bytes}
    (auth : Authorised h request st.host st.port) (opened : Opened st t st') :
    EachAfter ContactOk h t := by
  cases opened with
  | inProgress fd addr => exact connect_contactOk auth fd addr _
  | atOnce fd addr reply =>
      exact eachAfter_append.mpr
        ⟨connect_contactOk auth fd addr _, reply.contactOk (auth.append _)⟩

/-- Every move contacts only whom it may. -/
theorem Phase.move_contactOk {ev : ClientEvent} {h : History} {again : Bool} (phase : Phase st h)
    (move : Move ev st t st' again) (ok : Admitted t) : EachAfter ContactOk h t := by
  have quiet : ∀ {past t}, Quiet t → EachAfter ContactOk past t := fun ht => ht.contactOk _
  cases move with
  | growFailed => exact quiet (by simp [Quiet, Housekeeping])
  | readFailed _ room _ =>
      exact eachAfter_append.mpr ⟨quiet room.upkeep.quiet, contactOk_of_quiet rfl, trivial⟩
  | readNothing _ room _ =>
      exact eachAfter_append.mpr ⟨quiet room.upkeep.quiet, contactOk_of_quiet rfl, trivial⟩
  | readPart _ _ room _ =>
      exact eachAfter_append.mpr ⟨quiet room.upkeep.quiet, contactOk_of_quiet rfl, trivial⟩
  | readHeader _ _ room _ =>
      exact eachAfter_append.mpr ⟨quiet room.upkeep.quiet, contactOk_of_quiet rfl, trivial⟩
  | rejected r hst =>
      exact ⟨contactOk_of_quiet rfl, contactOk_of_quiet (by simp [Contact]; decide), trivial⟩
  | noHost => exact ⟨contactOk_of_quiet rfl, trivial⟩
  | accepted => exact ⟨contactOk_of_quiet rfl, trivial⟩
  | unresolved => exact quiet (by simp [Quiet, Housekeeping])
  | noSocket addr hst =>
      obtain ⟨request, auth⟩ := phase.authorised (by rw [hst]; rfl)
      exact ⟨contactOk_of_quiet rfl, contactOk_of_authorised auth (by simp), trivial⟩
  | refused fd addr hst =>
      obtain ⟨request, auth⟩ := phase.authorised (by rw [hst]; rfl)
      have closing : ∀ past, EachAfter ContactOk past [⟨.close .target fd, ()⟩] :=
        fun _ => ⟨contactOk_of_quiet rfl, trivial⟩
      exact eachAfter_append.mpr ⟨connect_contactOk auth fd addr .error, closing _⟩
  | started room hst opened =>
      obtain ⟨request, auth⟩ := phase.authorised (by rw [hst]; rfl)
      exact eachAfter_append.mpr ⟨opened.contactOk auth, quiet (by simp [Quiet, Housekeeping])⟩
  | addFailed room hst opened =>
      obtain ⟨request, auth⟩ := phase.authorised (by rw [hst]; rfl)
      exact eachAfter_append.mpr ⟨opened.contactOk auth, quiet (by simp [Quiet, Housekeeping])⟩
  | connectFailed => exact quiet (by simp [Quiet, Housekeeping])
  | connected hst reply register =>
      obtain ⟨request, auth⟩ := phase.authorised (by rw [hst]; rfl)
      exact eachAfter_append.mpr
        ⟨⟨contactOk_of_quiet rfl, reply.contactOk (auth.append _)⟩, quiet register.upkeep.quiet⟩
  | relayed hst run => exact phase.relay_contactOk hst (connectionForward_runs run ok).1
  | relayEnded hst _ run => exact phase.relay_contactOk hst (connectionForward_runs run ok).1
  | closed _ client target => exact quiet (client.upkeep.quiet.append target.upkeep.quiet)

/-- Phases and contacts, as a property of one client. -/
theorem session_inv : SessionInv (fun st h => Phase st h ∧ EachAfter ContactOk [] h)
    (EachAfter ContactOk []) where
  weaken := And.right
  start := trivial
  refused r := ⟨contactOk_of_quiet rfl, trivial⟩
  born := by
    intro fd tr res registered _
    have quiet : Quiet (⟨.accept, .conn fd⟩ :: tr) :=
      List.forall_mem_cons.mpr ⟨rfl, registered.upkeep.quiet⟩
    have contacts := quiet.contactOk []
    cases registered with
    | created now => exact ⟨⟨quiet.silent.grants, quiet.silent.accepted _,
        (quiet.silent.received _).symm⟩, contacts⟩
    | _ => exact contacts
  slot _ := id
  move := by
    rintro ev st tr st' again h ⟨phase, contacts⟩ _ move ok
    exact ⟨phase.move move ok, eachAfter_append.mpr ⟨contacts, phase.move_contactOk move ok⟩⟩
  tick := by
    rintro st tr res h ⟨phase, contacts⟩ ticked _
    have after : EachAfter ContactOk [] (h ++ tr) :=
      eachAfter_append.mpr ⟨contacts, ticked.upkeep.quiet.contactOk _⟩
    have kept : Phase st (h ++ tr) := phase.silent ticked.upkeep.quiet.silent
    cases ticked with
    | active => exact ⟨kept, after⟩
    | released => exact after
    | silenced => exact ⟨kept, after⟩
    | expired => exact ⟨kept, after⟩
  release := by
    rintro st tr h ⟨-, contacts⟩ released _
    exact eachAfter_append.mpr ⟨contacts, released.upkeep.quiet.contactOk _⟩

/-- **Sessions.** In every reachable world every client is in the phase its
state says, and everybody who was contacted for it might be. -/
theorem session_reachable {w : World} (h : proxy.Reachable w) (c : ClientId) :
    EachAfter ContactOk [] (w.kernel.history c) ∧
      ∀ st, w.mem.heap c = some st → Phase st (w.kernel.history c) :=
  let ⟨contacts, live⟩ := session_inv.reachable h c
  ⟨contacts, fun st hst => (live st hst).1⟩

end SimpleProxy
