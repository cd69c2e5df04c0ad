import SimpleProxy.Logic.Progress

/-!
# The 200 reply

`connection_connect` tells a `CONNECT` client that its tunnel is established
when `connect` succeeds at once, and `handle_connecting` tells it when the
socket has become writable. After an immediate success both do. The number of
replies is an exact function of what happened to the connection, at every
moment of every run.
-/

namespace SimpleProxy

open Interact CString

/-- The 200 reply is sent to the client. -/
def Io.established : Io → Bool
  | ⟨.send .client _ data .plain, _⟩ => data = connectionEstablished
  | _ => false

/-- A `connect` that does not return `EINPROGRESS`. -/
def Io.connectsAtOnce : Io → Bool
  | ⟨.connect .., .ok⟩ => true
  | _ => false

/-- `SO_ERROR` shows no error. -/
def Io.connectCompletes : Io → Bool
  | ⟨.getsockopt _, r⟩ => (r : SockError) = .code 0
  | _ => false

/-- `has_valid_auth` accepts a `CONNECT` request. -/
def Io.acceptedConnect (e : Io) : Bool :=
  e.granted.any fun request => (bytes "CONNECT ").isPrefixOf (cstr request)

/-- How often the client was told that its tunnel is established. -/
def replies (h : History) : Nat := h.countP Io.established

/-- The client asked for a tunnel, and may have it. -/
def tunnels (h : History) : Bool := h.any Io.acceptedConnect

def connectsAtOnce (h : History) : Bool := h.any Io.connectsAtOnce

def connectCompletes (h : History) : Bool := h.any Io.connectCompletes

section Append

variable (h t : History)

@[simp] theorem replies_append : replies (h ++ t) = replies h + replies t := List.countP_append

@[simp] theorem tunnels_append : tunnels (h ++ t) = (tunnels h || tunnels t) := List.any_append

@[simp] theorem connectsAtOnce_append :
    connectsAtOnce (h ++ t) = (connectsAtOnce h || connectsAtOnce t) := List.any_append

@[simp] theorem connectCompletes_append :
    connectCompletes (h ++ t) = (connectCompletes h || connectCompletes t) :=
  List.any_append

end Append

/-- A history with none of these. -/
structure NoReply (t : History) : Prop where
  replies : replies t = 0
  tunnels : tunnels t = false
  connectsAtOnce : connectsAtOnce t = false
  connectCompletes : connectCompletes t = false

theorem NoReply.append {t₁ t₂ : History} (h₁ : NoReply t₁) (h₂ : NoReply t₂) :
    NoReply (t₁ ++ t₂) where
  replies := by simp [h₁.replies, h₂.replies]
  tunnels := by simp [h₁.tunnels, h₂.tunnels]
  connectsAtOnce := by simp [h₁.connectsAtOnce, h₂.connectsAtOnce]
  connectCompletes := by simp [h₁.connectCompletes, h₂.connectCompletes]

theorem NoReply.of_forall {t : History} (h : ∀ e ∈ t, Io.established e = false ∧
    Io.acceptedConnect e = false ∧ Io.connectsAtOnce e = false ∧ Io.connectCompletes e = false) :
    NoReply t where
  replies := List.countP_eq_zero.mpr fun e he => by simp [(h e he).1]
  tunnels := List.any_eq_false.mpr fun e he => by simp [(h e he).2.1]
  connectsAtOnce := List.any_eq_false.mpr fun e he => by simp [(h e he).2.2.1]
  connectCompletes := List.any_eq_false.mpr fun e he => by simp [(h e he).2.2.2]

variable {st st' : ClientState} {ev : ClientEvent} {h t : History}

theorem UpkeepOnly.noReply (h : UpkeepOnly t) : NoReply t := by
  apply NoReply.of_forall
  intro ⟨c, r⟩ he
  have := h _ he
  cases c <;> first | exact ⟨rfl, rfl, rfl, rfl⟩ | cases this

theorem TransferSpec.noReply (h : TransferSpec st st' t) : NoReply t := by
  apply NoReply.of_forall
  intro ⟨c, r⟩ he
  have hcall := h.calls _ he
  cases c with
  | recv => exact ⟨rfl, rfl, rfl, rfl⟩
  | time => exact ⟨rfl, rfl, rfl, rfl⟩
  | send side fd data flags =>
      obtain ⟨-, rfl⟩ := hcall
      cases side <;> exact ⟨rfl, rfl, rfl, rfl⟩
  | _ => cases hcall

/-- What the replies add up to: none without a tunnel, otherwise one for each of
the two ways to learn that the connection is there. -/
def owed (tunnel atOnce done : Bool) : Nat :=
  if tunnel then atOnce.toNat + done.toNat else 0

/-- The replies so far, and which of their causes are still to come. -/
structure Replying (st : ClientState) (h : History) : Prop where
  count : replies h = owed (tunnels h) (connectsAtOnce h) (connectCompletes h)
  unasked : st.state.value < 2 → tunnels h = false
  kind : 2 ≤ st.state.value → st.state.value < 5 → tunnels h = st.isHttps
  unconnected : st.state.value < 3 → connectsAtOnce h = false
  incomplete : st.state.value < 4 → connectCompletes h = false

/-- The client was told as often as it was owed. -/
def Counted (h : History) : Prop :=
  replies h = owed (tunnels h) (connectsAtOnce h) (connectCompletes h)

/-- Such a history changes none of the numbers. -/
theorem append_noReply (noReply : NoReply t) (h : History) : replies (h ++ t) = replies h ∧
    tunnels (h ++ t) = tunnels h ∧ connectsAtOnce (h ++ t) = connectsAtOnce h ∧
    connectCompletes (h ++ t) = connectCompletes h := by
  simp [noReply.replies, noReply.tunnels, noReply.connectsAtOnce, noReply.connectCompletes]

theorem NoReply.counted (noReply : NoReply t) (count : Counted h) : Counted (h ++ t) := by
  obtain ⟨hreplies, htunnels, honce, hdone⟩ := append_noReply noReply h
  unfold Counted
  rw [hreplies, htunnels, honce, hdone]
  exact count

theorem Replying.noReply (before : Replying st h) (noReply : NoReply t)
    (forward : st.state.value ≤ st'.state.value)
    (same : 2 ≤ st'.state.value → st'.state.value < 5 →
      2 ≤ st.state.value ∧ st'.isHttps = st.isHttps) : Replying st' (h ++ t) := by
  obtain ⟨-, htunnels, honce, hdone⟩ := append_noReply noReply h
  refine ⟨noReply.counted before.count, fun hlt => ?_, fun hge hlt => ?_, fun hlt => ?_,
    fun hlt => ?_⟩
  · rw [htunnels]
    exact before.unasked (by omega)
  · obtain ⟨hge₀, hhttps⟩ := same hge hlt
    rw [htunnels, hhttps]
    exact before.kind hge₀ (by omega)
  · rw [honce]
    exact before.unconnected (by omega)
  · rw [hdone]
    exact before.incomplete (by omega)

/-- The request is still being read. -/
theorem Replying.reading (before : Replying st h) (noReply : NoReply t)
    (forward : st.state.value ≤ st'.state.value) (early : st'.state.value < 2) :
    Replying st' (h ++ t) :=
  before.noReply noReply forward fun hge => absurd hge (Nat.not_le.mpr early)

theorem MadeRoom.noReply (room : MadeRoom st t st') (r : RecvResult) :
    NoReply (t ++ [⟨readCall st', r⟩]) := by
  refine room.upkeep.noReply.append (.of_forall ?_)
  intro e he
  rw [List.mem_singleton.mp he]
  exact ⟨rfl, rfl, rfl, rfl⟩

/-- The reply is what a `CONNECT` client is owed. -/
theorem Replied.replies_eq (h : Replied st t st') : replies t = st.isHttps.toNat ∧
    tunnels t = false ∧ connectsAtOnce t = false ∧ connectCompletes t = false := by
  cases h with
  | skipped hplain => simp [hplain, replies, tunnels, connectsAtOnce, connectCompletes]
  | sent hhttps r =>
      simp [hhttps, replies, tunnels, connectsAtOnce, connectCompletes, Io.established,
        Io.acceptedConnect, Io.granted, Io.connectsAtOnce, Io.connectCompletes]

/-- A connection that came up at once has told a `CONNECT` client. -/
theorem Opened.replies_eq (h : Opened st t st') : tunnels t = false ∧
    connectCompletes t = false ∧ replies t = if connectsAtOnce t then st.isHttps.toNat else 0 := by
  cases h with
  | inProgress =>
      simp [replies, tunnels, connectsAtOnce, connectCompletes, Io.established,
        Io.acceptedConnect, Io.granted, Io.connectsAtOnce, Io.connectCompletes]
  | @atOnce fd addr g _ reply =>
      obtain ⟨hreplies, htunnels, honce, hdone⟩ := reply.replies_eq
      have honce' : connectsAtOnce ([⟨.gethostbyname st.host, some addr⟩, ⟨.socket, some fd⟩,
          ⟨.connect fd addr (htons st.port), .ok⟩] ++ g) = true := by
        simp [connectsAtOnce, Io.connectsAtOnce]
      rw [honce', if_pos rfl, tunnels_append, connectCompletes_append, replies_append, hreplies,
        htunnels, hdone]
      simp [replies, tunnels, connectCompletes, Io.established, Io.acceptedConnect, Io.granted,
        Io.connectCompletes]

/-- The connection of a client that may have one is opened. -/
theorem Replying.opened (before : Replying st h) (phase : st.state = .initializeConnection)
    (opened : Opened st t st') :
    Counted (h ++ t) ∧ tunnels (h ++ t) = st'.isHttps ∧ connectCompletes (h ++ t) = false := by
  have hkind := before.kind (by rw [phase]; decide) (by rw [phase]; decide)
  have honce := before.unconnected (by rw [phase]; decide)
  have hdone := before.incomplete (by rw [phase]; decide)
  have hcount := before.count
  obtain ⟨htunnels, hcompletes, hreplies⟩ := opened.replies_eq
  refine ⟨?_, ?_, ?_⟩
  · unfold Counted
    rw [replies_append, tunnels_append, connectsAtOnce_append, connectCompletes_append, hreplies,
      hcount, htunnels, hcompletes, honce, hdone, hkind]
    cases st.isHttps <;> cases connectsAtOnce t <;> rfl
  · rw [tunnels_append, htunnels, hkind, Bool.or_false, opened.eq.2.2.1]
  · rw [connectCompletes_append, hdone, hcompletes]
    rfl

/-- A state from which no reply is sent any more. -/
theorem Replying.closing (hstate : st.state = .closing) (count : Counted h) : Replying st h where
  count := count
  unasked hlt := absurd hlt (by rw [hstate]; decide)
  kind _ hlt := absurd hlt (by rw [hstate]; decide)
  unconnected hlt := absurd hlt (by rw [hstate]; decide)
  incomplete hlt := absurd hlt (by rw [hstate]; decide)

/-- An accepted request shows whether it asks for a tunnel; nothing is owed yet. -/
theorem Replying.accepts (before : Replying st h) (phase : st.state = .authenticating)
    (request : Bytes) :
    Counted (h ++ [⟨.hasValidAuth request, true⟩]) ∧
      tunnels (h ++ [⟨.hasValidAuth request, true⟩]) =
        (bytes "CONNECT ").isPrefixOf (cstr request) ∧
      connectsAtOnce (h ++ [⟨.hasValidAuth request, true⟩]) = false ∧
      connectCompletes (h ++ [⟨.hasValidAuth request, true⟩]) = false := by
  have hunasked := before.unasked (by rw [phase]; decide)
  have honce := before.unconnected (by rw [phase]; decide)
  have hdone := before.incomplete (by rw [phase]; decide)
  have hreplies : replies h = 0 := by
    rw [before.count, hunasked]
    rfl
  have hmark : replies [⟨.hasValidAuth request, true⟩] = 0 ∧
      tunnels [⟨.hasValidAuth request, true⟩] = (bytes "CONNECT ").isPrefixOf (cstr request) ∧
      connectsAtOnce [⟨.hasValidAuth request, true⟩] = false ∧
      connectCompletes [⟨.hasValidAuth request, true⟩] = false :=
    ⟨rfl, by simp [tunnels, Io.acceptedConnect, Io.granted], rfl, rfl⟩
  simp [Counted, hunasked, honce, hdone, hreplies, hmark, owed]

/-- `SO_ERROR` is clear: a `CONNECT` client is told. -/
theorem Replying.completes {g : History} (before : Replying st h) (phase : st.state = .connecting)
    (reply : Replied st g st') :
    Counted (h ++ (⟨.getsockopt st.targetFd, .code 0⟩ :: g)) ∧
      tunnels (h ++ (⟨.getsockopt st.targetFd, .code 0⟩ :: g)) = st'.isHttps := by
  have hkind := before.kind (by rw [phase]; decide) (by rw [phase]; decide)
  have hdone := before.incomplete (by rw [phase]; decide)
  obtain ⟨hreplies, htunnels, honce, hcompletes⟩ := reply.replies_eq
  have checked : replies [⟨.getsockopt st.targetFd, .code 0⟩] = 0 ∧
      tunnels [⟨.getsockopt st.targetFd, .code 0⟩] = false ∧
      connectsAtOnce [⟨.getsockopt st.targetFd, .code 0⟩] = false ∧
      connectCompletes [⟨.getsockopt st.targetFd, .code 0⟩] = true := by
    simp [replies, tunnels, connectsAtOnce, connectCompletes, Io.established,
      Io.acceptedConnect, Io.granted, Io.connectsAtOnce, Io.connectCompletes]
  rw [← List.singleton_append]
  constructor
  · simp only [Counted, replies_append, tunnels_append, connectsAtOnce_append,
      connectCompletes_append, hreplies, htunnels, honce, hcompletes, checked, before.count, hdone,
      hkind]
    cases st.isHttps <;> cases connectsAtOnce h <;> rfl
  · simp only [tunnels_append, checked, htunnels, hkind, Bool.or_false]
    exact reply.eq.2.2.1.symm

theorem Replying.move {again : Bool} (before : Replying st h) (move : Move ev st t st' again)
    (ok : Admitted t) : Replying st' (h ++ t) := by
  have forward := move.value_le ok
  -- a failure, from any state
  have closing : ∀ {t st'}, NoReply t → st'.state = .closing → Replying st' (h ++ t) :=
    fun noReply hstate => .closing hstate (noReply.counted before.count)
  cases move with
  | growFailed => exact closing (UpkeepOnly.noReply (by simp [UpkeepOnly, Upkeep])) rfl
  | readFailed _ room => exact closing (room.noReply _) rfl
  | readNothing phase room =>
      refine before.reading (room.noReply _) forward ?_
      rw [room.eq.1, phase]
      decide
  | readPart bs phase room =>
      refine before.reading (room.noReply _) forward ?_
      rw [show ClientState.state _ = _ from room.eq.1, phase]
      decide
  | readHeader bs _ room =>
      refine before.reading (room.noReply _) forward ?_
      show 1 < 2
      decide
  | rejected r =>
      refine closing (.of_forall ?_) rfl
      simp [Io.established, Io.acceptedConnect, Io.granted, Io.connectsAtOnce, Io.connectCompletes]
      decide
  | noHost phase => exact .closing rfl (before.accepts phase st.requestBuffer).1
  | accepted phase =>
      obtain ⟨hcount, hasks, honce, hdone⟩ := before.accepts phase st.requestBuffer
      exact ⟨hcount, fun hlt => absurd hlt (by show ¬ 2 < 2; omega), fun _ _ => hasks,
        fun _ => honce, fun _ => hdone⟩
  | unresolved =>
      refine closing (.of_forall ?_) rfl
      simp [Io.established, Io.acceptedConnect, Io.granted, Io.connectsAtOnce, Io.connectCompletes]
  | noSocket =>
      refine closing (.of_forall ?_) rfl
      simp [Io.established, Io.acceptedConnect, Io.granted, Io.connectsAtOnce, Io.connectCompletes]
  | refused =>
      refine closing (.of_forall ?_) rfl
      simp [Io.established, Io.acceptedConnect, Io.granted, Io.connectsAtOnce, Io.connectCompletes]
  | @started o st₁ room phase opened =>
      -- registering the new descriptor replies nothing
      have registered : NoReply [⟨.malloc, room⟩, ⟨.epollAdd .target st₁.targetFd ⟨false, true⟩
          (if room then some .target else none), true⟩] :=
        UpkeepOnly.noReply (by simp [UpkeepOnly, Upkeep])
      obtain ⟨hcount, hkind, hdone⟩ := before.opened phase opened
      obtain ⟨-, htunnels, -, hcompletes⟩ := append_noReply registered (h ++ o)
      rw [← List.append_assoc]
      exact ⟨registered.counted hcount, fun hlt => absurd hlt (by show ¬ 3 < 2; omega),
        fun _ _ => htunnels.trans hkind, fun hlt => absurd hlt (by show ¬ 3 < 3; omega),
        fun _ => hcompletes.trans hdone⟩
  | @addFailed o st₁ room phase opened =>
      have closed : NoReply [⟨.malloc, room⟩, ⟨.epollAdd .target st₁.targetFd ⟨false, true⟩
          (if room then some .target else none), false⟩, ⟨.close .target st₁.targetFd, ()⟩] :=
        UpkeepOnly.noReply (by simp [UpkeepOnly, Upkeep])
      rw [← List.append_assoc]
      exact .closing rfl (closed.counted (before.opened phase opened).1)
  | connectFailed phase failed =>
      refine closing (.of_forall ?_) rfl
      simp [Io.established, Io.acceptedConnect, Io.granted, Io.connectsAtOnce, Io.connectCompletes,
        failed]
  | @connected g t st₁ phase reply register =>
      have registered := register.upkeep.noReply
      -- the reply belongs to the connect that `getsockopt` reports as complete
      obtain ⟨hcount, hkind⟩ := before.completes phase reply
      obtain ⟨-, htunnels, -, -⟩ :=
        append_noReply registered (h ++ (⟨.getsockopt st.targetFd, .code 0⟩ :: g))
      rw [← List.append_assoc]
      exact ⟨registered.counted hcount, fun hlt => absurd hlt (by show ¬ 4 < 2; omega),
        fun _ _ => htunnels.trans hkind, fun hlt => absurd hlt (by show ¬ 4 < 3; omega),
        fun hlt => absurd hlt (by show ¬ 4 < 4; omega)⟩
  | relayed phase run =>
      have spec : TransferSpec st st' t := (connectionForward_runs run ok).1
      refine before.noReply spec.noReply forward ?_
      intro _ _
      refine ⟨by rw [phase]; decide, ?_⟩
      rw [spec.frame]
  | relayEnded _ _ run => exact closing (connectionForward_runs run ok).1.noReply rfl
  | closed phase client target => exact closing (client.upkeep.append target.upkeep).noReply phase

theorem replying_inv : SessionInv Replying Counted where
  weaken := Replying.count
  start := rfl
  refused r := rfl
  born := by
    intro fd t res registered _
    have accepted : NoReply (⟨.accept, .conn fd⟩ :: t) := by
      rw [← List.singleton_append]
      exact NoReply.append ⟨rfl, rfl, rfl, rfl⟩ registered.upkeep.noReply
    have count : Counted (⟨.accept, .conn fd⟩ :: t) := by
      unfold Counted
      rw [accepted.replies, accepted.tunnels]
      rfl
    cases registered with
    | created now =>
        exact ⟨count, fun _ => accepted.tunnels, fun hge => absurd hge (by show ¬ 2 ≤ 0; omega),
          fun _ => accepted.connectsAtOnce, fun _ => accepted.connectCompletes⟩
    | _ => exact count
  slot n before :=
    ⟨before.count, before.unasked, before.kind, before.unconnected, before.incomplete⟩
  move before _ move ok := before.move move ok
  tick := by
    intro st t res h before ticked _
    have noReply := ticked.upkeep.noReply
    cases ticked with
    | released => exact noReply.counted before.count
    | active => exact before.noReply noReply (Nat.le_refl _) fun hge _ => ⟨hge, rfl⟩
    | silenced => exact before.noReply noReply (Nat.le_refl _) fun hge _ => ⟨hge, rfl⟩
    | expired => exact before.noReply noReply (Nat.le_refl _) fun hge _ => ⟨hge, rfl⟩
  release before released _ := released.upkeep.noReply.counted before.count

end SimpleProxy
