import SimpleProxy.Logic.Protocol
import SimpleProxy.Logic.Request
import SimpleProxy.Logic.Stages

/-!
# What a client's calls look like from outside

`Io.deed` forgets descriptors, buffer sizes, memory, epoll and the clock, and `proxyRules` are
the rules the code goes by. A session at stage `stage` of the protocol is a client in the state
that `Tracks` says; every move of the automaton is a run of the protocol between two such
stages.
-/

namespace SimpleProxy

open Interact CString

/-- How much of a reply was accepted. -/
def SendResult.taken : SendResult → Nat
  | .sent n => n
  | _ => 0

/-- What is noticed of a call. -/
def Io.deed : Io → Option Deed
  | ⟨.recv side _ _, .data bs⟩ => some (.heard side bs)
  | ⟨.hasValidAuth request, ok⟩ => some (.asked request ok)
  | ⟨.gethostbyname host, addr⟩ => some (.located host addr)
  | ⟨.connect _ addr port, r⟩ => some (.dialled addr port r)
  | ⟨.getsockopt _, r⟩ => some (.settled (decide ((r : SockError) = .code 0)))
  | ⟨.send .client _ text .plain, r⟩ => some (.told text (SendResult.taken r))
  | ⟨.send side _ data _, .sent n⟩ => some (.passed side (data.take n))
  | ⟨.close side _, _⟩ => some (.hungUp side)
  | _ => none

def deeds (h : History) : List Deed := h.filterMap Io.deed

@[simp] theorem deeds_nil : deeds [] = [] := rfl

@[simp] theorem deeds_append (h₁ h₂ : History) : deeds (h₁ ++ h₂) = deeds h₁ ++ deeds h₂ :=
  List.filterMap_append

/-- When the code takes a request for complete, where it goes, and its two replies. -/
def proxyRules : Rules where
  complete request := (strstr (cstr request) crlfcrlf).isSome
  endpoint request := (parseHostPort (cstr request)).map fun (host, port) => (host, htons port)
  tunnel request := (bytes "CONNECT ").isPrefixOf (cstr request)
  denial := proxyAuthRequired
  greeting := connectionEstablished

/-! ## Streams -/

/-- The bytes the peer on `side` accepted in a call, replies and traffic. -/
def Io.wired (side : Side) : Io → Bytes
  | ⟨.send s _ data _, .sent n⟩ => if s = side then data.take n else []
  | _ => []

/-- All bytes that went to the peer on `side`. -/
def wired (side : Side) (h : History) : Bytes := h.flatMap (Io.wired side)

/-- The streams of a client, as its calls moved them. -/
def streamsOf (h : History) : Streams where
  heard side := received side h
  sent side := wired side h
  grants := grants h

/-- One call moves the bytes that its deed moves. -/
theorem deed_streams (e : Io) : streams e.deed.toList =
    ⟨fun side => e.received side, fun side => e.wired side, e.granted.toList⟩ := by
  obtain ⟨c, r⟩ := e
  have apart : ∀ {d : Deed}, streams [d] =
      ⟨fun side => d.hears side, fun side => d.sends side, d.grants⟩ := by
    simp [streams]
  -- a reply nothing of which was accepted is noticed all the same
  have unheard : ∀ text, streams [.told text 0] = ⟨fun _ => [], fun _ => [], []⟩ := by
    simp [streams, Deed.hears, Deed.sends, Deed.grants]
  cases c with
  | recv side fd n =>
      cases r with
      | data bs => exact apart
      | _ => rfl
  | send side fd data flags =>
      cases r with
      | sent n => cases side <;> cases flags <;> exact apart
      | again => cases side <;> cases flags <;> first | rfl | exact unheard data
      | error => cases side <;> cases flags <;> first | rfl | exact unheard data
  | hasValidAuth request => cases r <;> rfl
  | _ => rfl

/-- What is noticed of a client moves the bytes that its calls move. -/
theorem streams_deeds (h : History) : streams (deeds h) = streamsOf h := by
  induction h with
  | nil => rfl
  | cons e h ih =>
      have split : deeds (e :: h) = e.deed.toList ++ deeds h := by
        rw [deeds, List.filterMap_cons]
        cases e.deed <;> rfl
      rw [split, streams_append, deed_streams, ih]
      ext
      · simp [streamsOf, received]
      · simp [streamsOf, wired]
      · rw [← grants_singleton, streamsOf, ← grants_append]
        rfl

/-! ## The simulation -/

/-- The client whose session is at this stage. -/
def Tracks (stage : Stage) (st : ClientState) : Prop :=
  match st.state with
  | .readingRequest =>
      stage = .listening st.requestBuffer ∧ proxyRules.complete st.requestBuffer = false
  | .authenticating =>
      stage = .listening st.requestBuffer ∧ proxyRules.complete st.requestBuffer = true
  | .initializeConnection =>
      stage = .granted st.requestBuffer st.host (htons st.port) ∧
        proxyRules.tunnel st.requestBuffer = st.isHttps
  | .connecting =>
      ∃ request, stage = .calling request st.requestBuffer ∧
        proxyRules.tunnel request = st.isHttps
  | .forwarding => stage = .relaying st.inbox
  | .closing => True
  | .closed => True

/-- The client's calls are a run of the protocol. -/
abbrev Plays (stage : Stage) (tr : History) (stage' : Stage) : Prop :=
  proxyRules.protocol.Run stage (deeds tr) stage'

variable {stage stage' : Stage} {st st' : ClientState} {tr : History} {side : Side}

/-- Upkeep is not noticed, up to hanging up. -/
theorem UpkeepOnly.plays (h : UpkeepOnly tr) (stage : Stage) : ∃ stage', Plays stage tr stage' := by
  induction tr generalizing stage with
  | nil => exact ⟨stage, .nil⟩
  | cons e tr ih =>
      obtain ⟨upkeep, rest⟩ := List.forall_mem_cons.mp h
      obtain ⟨c, r⟩ := e
      cases c with
      | close side fd =>
          obtain ⟨stage', run⟩ := ih rest .ended
          exact ⟨stage', .cons (.hangUp stage side) run⟩
      | time => exact ih rest stage
      | malloc => exact ih rest stage
      | epollAdd => exact ih rest stage
      | epollMod => exact ih rest stage
      | epollDel => exact ih rest stage
      | _ => cases upkeep

theorem MadeRoom.deeds (h : MadeRoom st tr st') : deeds tr = [] := by
  cases h <;> rfl

theorem Registering.deeds {clientFd targetFd : Fd} (h : Registering clientFd targetFd tr) :
    deeds tr = [] := by
  cases h <;> rfl

/-- Traffic is what was accepted of it. -/
theorem deeds_sent (fd : Fd) (data : Bytes) (n : Nat) :
    deeds (⟨.send side fd data .noSignal, .sent n⟩ :: tr) =
      .passed side (data.take n) :: deeds tr := by
  cases side <;> rfl

theorem deeds_unsent (fd : Fd) (data : Bytes) {r : SendResult} (h : r = .again ∨ r = .error) :
    deeds [⟨.send side fd data .noSignal, r⟩] = [] := by
  obtain rfl | rfl := h <;> cases side <;> rfl

section Relay

variable {waiting : Side → Bytes} {fd : Fd} {capacity : Nat} {buffer buffer' : Bytes}
  {total r : Int}

/-- `recv_into_buffer` hears. -/
theorem Receiving.plays (h : Receiving side fd capacity buffer total tr r buffer')
    (start : waiting side = buffer) :
    Plays (.relaying waiting) tr (.relaying (Function.update waiting side buffer')) := by
  have same : ∀ {waiting : Side → Bytes} {b : Bytes}, waiting side = b →
      Function.update waiting side b = waiting := by
    rintro waiting b rfl
    exact Function.update_eq_self side waiting
  induction h generalizing waiting with
  | @more buffer bs buffer' total r tr rest ih =>
      have run := @ih (Function.update waiting side (buffer ++ bs)) (Function.update_self ..)
      rw [Function.update_idem] at run
      exact .cons (start ▸ .hear side bs) run
  | ended => exact (same start).symm ▸ .nil
  | blocked => exact (same start).symm ▸ .nil
  | failed => exact (same start).symm ▸ .nil

/-- `send_from_buffer` passes on. -/
theorem Sending.plays (h : Sending side fd buffer total tr r buffer')
    (start : waiting side.other = buffer) :
    Plays (.relaying waiting) tr (.relaying (Function.update waiting side.other buffer')) := by
  have same : ∀ {waiting : Side → Bytes} {b : Bytes}, waiting side.other = b →
      Function.update waiting side.other b = waiting := by
    rintro waiting b rfl
    exact Function.update_eq_self side.other waiting
  induction h generalizing waiting with
  | drained => exact (same start).symm ▸ .nil
  | @more buffer buffer' total s n tr some' rest ih =>
      have run := @ih (Function.update waiting side.other (buffer.drop n)) (Function.update_self ..)
      rw [Function.update_idem] at run
      have first : waiting side.other = buffer.take n ++ buffer.drop n := by
        rw [start, List.take_append_drop]
      rw [Plays, deeds_sent]
      exact .cons (.pass first) run
  | @refused buffer total =>
      rw [Plays, deeds_sent, List.take_zero]
      exact .single (.pass start)
  | blocked =>
      rw [Plays, deeds_unsent _ _ (.inl rfl), same start]
      exact .nil
  | failed =>
      rw [Plays, deeds_unsent _ _ (.inr rfl), same start]
      exact .nil

theorem Noted.inbox (h : Noted side r st tr st') : st'.inbox = st.inbox ∧ deeds tr = [] := by
  cases h with
  | gone =>
      refine ⟨funext fun s => ?_, rfl⟩
      simp
  | active =>
      refine ⟨funext fun s => ?_, rfl⟩
      cases s <;> rfl
  | nothing => exact ⟨rfl, rfl⟩

theorem inbox_setInbox_eq (st : ClientState) (b : Bytes) (side : Side) :
    (st.setInbox b side).inbox = Function.update st.inbox side b := by
  funext s
  by_cases h : s = side
  · subst h
    simp
  · rw [Function.update_of_ne h, st.inbox_setInbox _ _ _ (Ne.symm h)]

theorem ReceiveStage.plays (h : ReceiveStage side st tr st') :
    Plays (.relaying st.inbox) tr (.relaying st'.inbox) := by
  cases h with
  | skipped => exact .nil
  | done receiving noted =>
      obtain ⟨same, quiet⟩ := noted.inbox
      rw [Plays, deeds_append, quiet, List.append_nil, same, inbox_setInbox_eq]
      exact receiving.plays rfl

theorem SendStage.plays (h : SendStage side st tr st') :
    Plays (.relaying st.inbox) tr (.relaying st'.inbox) := by
  cases h with
  | skipped => exact .nil
  | done sending noted =>
      obtain ⟨same, quiet⟩ := noted.inbox
      rw [Plays, deeds_append, quiet, List.append_nil, same, inbox_setInbox_eq]
      exact sending.plays rfl

theorem ForwardStages.plays (h : ForwardStages side st tr st') :
    Plays (.relaying st.inbox) tr (.relaying st'.inbox) := by
  cases h with
  | receiveSend receive send =>
      rw [Plays, deeds_append]
      exact receive.plays.append send.plays
  | sendReceive send receive =>
      rw [Plays, deeds_append]
      exact send.plays.append receive.plays

end Relay

/-- `connection_connect` looks up, dials and perhaps greets. -/
theorem Opened.plays (h : Opened st tr st')
    (tunnel : proxyRules.tunnel st.requestBuffer = st.isHttps) :
    Plays (.granted st.requestBuffer st.host (htons st.port)) tr
      (.calling st.requestBuffer st'.requestBuffer) := by
  cases h with
  | inProgress fd addr => exact .cons (.locate addr) (.single .call)
  | atOnce fd addr reply =>
      refine .cons (.locate addr) ?_
      cases reply with
      | skipped plain => exact .single (.reach (tunnel.trans plain))
      | sent https r => exact .cons (.reachTunnel (tunnel.trans https)) (.single (.greetEarly _))

/-- `handle_connecting` on a connection that is complete. -/
theorem Replied.plays {request : Bytes} (h : Replied st tr st')
    (tunnel : proxyRules.tunnel request = st.isHttps) :
    Plays (.calling request st.requestBuffer) (⟨.getsockopt st.targetFd, .code 0⟩ :: tr)
      (.relaying { st' with responseBuffer := [], state := .forwarding }.inbox) := by
  have fresh : ∀ st : ClientState, { st with responseBuffer := [], state := .forwarding }.inbox =
      Function.update (fun _ => []) .client st.requestBuffer := by
    intro st
    funext side
    cases side <;> rfl
  rw [fresh]
  cases h with
  | skipped plain => exact .single (.connect (tunnel.trans plain))
  | sent https r =>
      rw [Function.update_eq_self_iff.mpr rfl]
      exact .cons (.connectTunnel (tunnel.trans https)) (.single (.greet _))

/-- **Simulation.** Every move of the automaton is a run of the protocol. -/
theorem Tracks.move {ev : ClientEvent} {again : Bool} (tracks : Tracks stage st)
    (move : Move ev st tr st' again) (ok : Admitted tr) :
    ∃ stage', Plays stage tr stage' ∧ Tracks stage' st' := by
  cases move with
  | growFailed => exact ⟨stage, .nil, trivial⟩
  | readFailed phase room failed =>
      refine ⟨stage, ?_, trivial⟩
      rw [Plays, deeds_append, room.deeds]
      obtain rfl | ⟨rfl, -⟩ := failed <;> exact .nil
  | readNothing phase room nothing =>
      refine ⟨stage, ?_, ?_⟩
      · rw [Plays, deeds_append, room.deeds]
        obtain rfl | ⟨rfl, -⟩ := nothing <;> exact .nil
      · simp only [Tracks, phase] at tracks
        simpa only [Tracks, room.eq.1.trans phase, room.eq.2] using tracks
  | readPart bs phase room part =>
      simp only [Tracks, phase] at tracks
      obtain ⟨rfl, open'⟩ := tracks
      refine ⟨.listening (st.requestBuffer ++ bs), ?_, ?_⟩
      · rw [Plays, deeds_append, room.deeds]
        exact .single (.listen bs open')
      · simp only [Tracks, room.eq.1.trans phase, room.eq.2]
        exact ⟨trivial, room.eq.2 ▸ part⟩
  | readHeader bs phase room complete =>
      simp only [Tracks, phase] at tracks
      obtain ⟨rfl, open'⟩ := tracks
      refine ⟨.listening (st.requestBuffer ++ bs), ?_, ?_⟩
      · rw [Plays, deeds_append, room.deeds]
        exact .single (.listen bs open')
      · simp only [Tracks, room.eq.2]
        exact ⟨trivial, room.eq.2 ▸ complete⟩
  | rejected r phase =>
      simp only [Tracks, phase] at tracks
      obtain ⟨rfl, complete⟩ := tracks
      exact ⟨.ended, .cons (.deny complete) (.single (.refuse _)), trivial⟩
  | noHost phase missing =>
      simp only [Tracks, phase] at tracks
      obtain ⟨rfl, complete⟩ := tracks
      exact ⟨.ended, .single (.nowhere complete (by simp [proxyRules, missing])), trivial⟩
  | @accepted host port phase parsed =>
      simp only [Tracks, phase] at tracks
      obtain ⟨rfl, complete⟩ := tracks
      exact ⟨_, .single (.grant complete (by simp [proxyRules, parsed])), rfl, rfl⟩
  | unresolved phase =>
      simp only [Tracks, phase] at tracks
      obtain ⟨rfl, -⟩ := tracks
      exact ⟨.ended, .single .unknown, trivial⟩
  | noSocket addr phase =>
      simp only [Tracks, phase] at tracks
      obtain ⟨rfl, -⟩ := tracks
      exact ⟨_, .single (.locate addr), trivial⟩
  | refused fd addr phase =>
      simp only [Tracks, phase] at tracks
      obtain ⟨rfl, -⟩ := tracks
      exact ⟨.ended, .cons (.locate addr) (.cons .unreachable (.single (.hangUp _ _))), trivial⟩
  | started room phase opened =>
      simp only [Tracks, phase] at tracks
      obtain ⟨rfl, tunnel⟩ := tracks
      refine ⟨_, ?_, ⟨_, rfl, tunnel.trans opened.eq.2.2.1.symm⟩⟩
      rw [Plays, deeds_append]
      exact (opened.plays tunnel).append .nil
  | addFailed room phase opened =>
      simp only [Tracks, phase] at tracks
      obtain ⟨rfl, tunnel⟩ := tracks
      refine ⟨.ended, ?_, trivial⟩
      rw [Plays, deeds_append]
      exact (opened.plays tunnel).append (.single (.hangUp _ _))
  | connectFailed phase failed =>
      simp only [Tracks, phase] at tracks
      obtain ⟨request, rfl, -⟩ := tracks
      refine ⟨.ended, ?_, trivial⟩
      show proxyRules.protocol.Run _ [.settled (decide (_ = _)), _] _
      rw [decide_eq_false failed]
      exact .cons .fail (.single (.hangUp _ _))
  | connected phase reply register =>
      simp only [Tracks, phase] at tracks
      obtain ⟨request, rfl, tunnel⟩ := tracks
      refine ⟨_, ?_, rfl⟩
      rw [Plays, deeds_append, register.deeds, List.append_nil]
      exact reply.plays tunnel
  | relayed phase run =>
      simp only [Tracks, phase] at tracks
      subst tracks
      obtain ⟨side, stages⟩ := connectionForward_stages run
      have spec : TransferSpec st st' tr := (connectionForward_runs run ok).1
      have same : st'.state = .forwarding := by
        rw [spec.frame]
        exact phase
      refine ⟨_, stages.plays, ?_⟩
      simp only [Tracks, same]
  | relayEnded phase ended run =>
      simp only [Tracks, phase] at tracks
      subst tracks
      obtain ⟨side, stages⟩ := connectionForward_stages run
      exact ⟨_, stages.plays, trivial⟩
  | closed phase client target =>
      obtain ⟨stage', run⟩ := (client.upkeep.append target.upkeep).plays stage
      exact ⟨stage', run, by simp [Tracks, phase]⟩

/-- The protocol, as a property of one client. -/
theorem plays_inv : SessionInv
    (fun st h => ∃ stage, Plays (.listening []) h stage ∧ Tracks stage st)
    (fun h => ∃ stage, Plays (.listening []) h stage) where
  weaken := fun ⟨stage, run, _⟩ => ⟨stage, run⟩
  start := ⟨_, .nil⟩
  refused r := ⟨_, .nil⟩
  born := by
    intro fd tr res registered _
    cases registered with
    | created now => exact ⟨_, .nil, rfl, rfl⟩
    | noState => exact ⟨.ended, .single (.hangUp _ _)⟩
    | noBuffers => exact ⟨.ended, .single (.hangUp _ _)⟩
    | noData now release => exact release.upkeep.plays _
    | addFailed now release => exact release.upkeep.plays _
  slot n := id
  move := by
    rintro ev st tr st' again h ⟨stage, before, tracks⟩ _ move ok
    obtain ⟨stage', run, tracks'⟩ := tracks.move move ok
    exact ⟨stage', by rw [Plays, deeds_append]; exact before.append run, tracks'⟩
  tick := by
    rintro st tr res h ⟨stage, before, tracks⟩ ticked _
    have quiet : ∀ {t : History}, deeds t = [] → Plays (.listening []) (h ++ t) stage := by
      intro t none
      rw [Plays, deeds_append, none, List.append_nil]
      exact before
    cases ticked with
    | active => exact ⟨stage, quiet rfl, tracks⟩
    | silenced => exact ⟨stage, quiet rfl, tracks⟩
    | expired => exact ⟨stage, quiet rfl, tracks⟩
    | released dead release =>
        obtain ⟨stage', run⟩ := release.upkeep.plays stage
        exact ⟨stage', by rw [Plays, deeds_append]; exact before.append run⟩
  release := by
    rintro st tr h ⟨stage, before, -⟩ released _
    obtain ⟨stage', run⟩ := released.upkeep.plays stage
    exact ⟨stage', by rw [Plays, deeds_append]; exact before.append run⟩

end SimpleProxy
