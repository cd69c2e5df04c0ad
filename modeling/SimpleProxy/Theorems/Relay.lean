import SimpleProxy.Logic.Watches

/-!
# The relay

Results about a whole session in `FORWARDING`: any sequence of client and
target events, each handled by `connection_forward` with any answers the
socket contract allows.
-/

namespace SimpleProxy.Theorems.Relay

open Interact CString

/-- A condition on one event: the state it meets, its descriptor and its mask. -/
abbrev EventCond := ClientState → EpollFdType → EpollMask → Prop

/-- `RelayRun Ok st₀ h st`: a session that entered `FORWARDING` as `st₀` made the
calls `h` and is now `st`, and every event it handled met `Ok`. -/
inductive RelayRun (Ok : EventCond) (st₀ : ClientState) : History → ClientState → Prop
  | enter : RelayRun Ok st₀ [] st₀
  | event {h tr : History} {st : ClientState} {res : Int × ClientState} (fdType : EpollFdType)
      (ev : EpollMask) (before : RelayRun Ok st₀ h st) (ok : Ok st fdType ev)
      (run : (connectionForward fdType ev st).Runs tr res)
      (contract : ∀ e ∈ tr, Admits e.call e.answer = true) : RelayRun Ok st₀ (h ++ tr) res.2

variable {Ok : EventCond} {st₀ st : ClientState} {h tr : History}

/-- A session is one long transfer. -/
theorem RelayRun.transfer (hrun : RelayRun Ok st₀ h st) : TransferSpec st₀ st h := by
  induction hrun with
  | enter => exact .rfl' st₀
  | event fdType ev _ _ run contract ih => exact ih.comp (connectionForward_runs run contract).1

/-- **Stream integrity.** After every event, what the target accepted followed
by the pending request bytes is what was pending at the start followed by what
the client sent, and what the client was sent followed by the pending response
bytes is what the target sent. The buffers stay within their capacities, and
every call is a `recv`, a `send` or a clock reading on the session's own
sockets. -/
theorem streams_preserved {st₀ st : ClientState} {h : History}
    (empty : st₀.responseBuffer = [])
    (fits : st₀.requestBuffer.length ≤ st₀.requestCapacity)
    (run : RelayRun (fun _ _ _ => True) st₀ h st) :
    accepted .target h ++ st.requestBuffer = st₀.requestBuffer ++ received .client h ∧
    accepted .client h ++ st.responseBuffer = received .target h ∧
    st.requestBuffer.length ≤ st.requestCapacity ∧
    st.responseBuffer.length ≤ st.responseCapacity ∧
    ∀ e ∈ h, RelayCall st₀ e.call := by
  have transfer := run.transfer
  have request := transfer.flows .client
  have response := transfer.flows .target
  have requestFits := transfer.fits .client fits
  have responseFits := transfer.fits .target (by simp [ClientState.inbox, empty])
  rw [← transfer.inboxCapacity_eq] at requestFits responseFits
  refine ⟨request, ?_, requestFits, responseFits, transfer.calls⟩
  simpa [ClientState.inbox, Side.other, empty] using response

/-- A session on descriptors 7 and 8 with empty buffers. -/
def freshSession : ClientState :=
  { ClientState.create 7 0 with targetFd := 8, state := .forwarding }

/-- The client uploads two bytes, then the target takes the first of them. -/
def uploadIo : History :=
  [⟨.recv .client 7 4096, .data [120, 121]⟩, ⟨.recv .client 7 4094, .again⟩, ⟨.time, (1 : Int)⟩]

def drainIo : History :=
  [⟨.send .target 8 [120, 121] .noSignal, .sent 1⟩, ⟨.send .target 8 [121] .noSignal, .again⟩,
    ⟨.time, (2 : Int)⟩]

theorem halfSent_run : RelayRun (fun _ _ _ => True) freshSession (uploadIo ++ drainIo)
    { freshSession with requestBuffer := [121], lastActive := 2 } := by
  have entered : RelayRun (fun _ _ _ => True) freshSession [] freshSession := .enter
  have upload : (connectionForward .client ⟨true, false⟩ freshSession).Runs uploadIo
      (0, { freshSession with requestBuffer := [120, 121], lastActive := 1 }) :=
    Prog.runs_of_replay (by decide)
  have drain : (connectionForward .target ⟨false, true⟩
      { freshSession with requestBuffer := [120, 121], lastActive := 1 }).Runs drainIo
      (0, { freshSession with requestBuffer := [121], lastActive := 2 }) :=
    Prog.runs_of_replay (by decide)
  exact (entered.event _ _ trivial upload (by decide)).event _ _ trivial drain (by decide)

theorem streams_preserved_halfSent :
    accepted .target (uploadIo ++ drainIo) ++ [121] = [] ++ received .client (uploadIo ++ drainIo) ∧
    accepted .client (uploadIo ++ drainIo) ++ [] = received .target (uploadIo ++ drainIo) ∧
    1 ≤ maxBufferSize ∧ 0 ≤ maxBufferSize ∧
    ∀ e ∈ uploadIo ++ drainIo, RelayCall freshSession e.call :=
  streams_preserved rfl (by decide) halfSent_run

/-- Reading a side that is not marked closed finds room in its buffer. -/
def HasRoom : EventCond := fun st fdType ev =>
  ∀ side, ReadsFrom side fdType ev → st.closed side = false →
    (st.inbox side).length < st.inboxCapacity side

/-- **Close detection.** In a session that never reads into a full buffer, a
peer is marked closed only after its own socket showed that it is gone. -/
theorem closed_only_if_gone {st₀ st : ClientState} {h : History}
    (clientOpen : st₀.clientClosed = false) (targetOpen : st₀.targetClosed = false)
    (run : RelayRun HasRoom st₀ h st) (side : Side) (closed : st.closed side = true) :
    PeerGone side (st₀.fd side) h := by
  induction run with
  | enter => cases side <;> simp_all [ClientState.closed]
  | @event h tr st res fdType ev before room run contract ih =>
      rcases (connectionForward_runs run contract).2.2 side closed with marked | gone | ⟨reads, full⟩
      · exact (ih marked).mono (List.subset_append_left _ _)
      · rw [before.transfer.fd_eq] at gone
        exact gone.mono (List.subset_append_right _ _)
      · -- the buffer had room unless the side was marked before
        cases hbefore : st.closed side with
        | true => exact (ih hbefore).mono (List.subset_append_left _ _)
        | false => exact absurd full (Nat.not_le.mpr (room side reads hbefore))

/-- The target ends its stream. -/
def endIo : History := [⟨.recv .target 8 4096, .eof⟩]

theorem closed_only_if_gone_end : PeerGone .target 8 endIo := by
  have entered : RelayRun HasRoom freshSession [] freshSession := .enter
  have ended : (connectionForward .target ⟨true, false⟩ freshSession).Runs endIo
      (0, { freshSession with targetClosed := true }) := Prog.runs_of_replay (by decide)
  have room : HasRoom freshSession .target ⟨true, false⟩ := by
    intro side _ _
    cases side <;> decide
  exact closed_only_if_gone rfl rfl (entered.event _ _ room ended (by decide)) .target rfl

/-! ## Reading into a full buffer -/

/-- An event of a side that only reports `EPOLLIN` is one receive. -/
theorem connectionForward_readable {side : Side} {st' : ClientState}
    (run : (receiveFrom side st).Runs tr st') :
    (connectionForward side.fdType ⟨true, false⟩ st).Runs tr
      (if st'.clientClosed && st'.targetClosed then -1 else 0, st') := by
  have hstage : connectionForward side.fdType ⟨true, false⟩ st =
      receiveFrom side st >>= fun st' =>
        .ret (if st'.clientClosed && st'.targetClosed then -1 else 0, st') := by
    cases side <;> (simp [connectionForward, stage, Side.fdType]; rfl)
  rw [hstage, Prog.runs_bind]
  exact ⟨st', tr, [], by simp, run, rfl, rfl⟩

/-- A `recv` that returns 0 at once marks its side closed. -/
theorem ended_run (side : Side) (st : ClientState) :
    (receiveFrom side st).Runs
      [⟨.recv side (st.fd side) (st.inboxCapacity side - (st.inbox side).length), .eof⟩]
      (st.setClosed side) := by
  have same : (st.setInbox (st.inbox side) side).setClosed side = st.setClosed side := by
    cases side <;> rfl
  rw [receiveFrom, Prog.runs_bind]
  refine ⟨(-2, st.inbox side), [⟨.recv side _ _, .eof⟩], [], rfl, ⟨.eof, [], rfl, rfl, rfl⟩, ?_⟩
  show (noteTransfer side (-2) (st.setInbox (st.inbox side) side)).Runs [] _
  rw [noteTransfer, if_pos (by decide), same]
  exact ⟨rfl, rfl⟩

/-- One `recv` can fill an empty request buffer to the last byte; the loop then
asks for 0 bytes and stops. -/
theorem fill_run {bs : Bytes} (now : Int) (empty : st.requestBuffer = [])
    (exact' : bs.length = st.requestCapacity) (nonempty : 0 < bs.length) :
    (receiveFrom .client st).Runs
      [⟨.recv .client st.clientFd st.requestCapacity, .data bs⟩,
        ⟨.recv .client st.clientFd 0, .eof⟩, ⟨.time, now⟩]
      { st with requestBuffer := bs, lastActive := now } := by
  obtain ⟨n, hn⟩ : ∃ n, st.requestCapacity = n + 1 := ⟨st.requestCapacity - 1, by omega⟩
  have loop : (recvIntoBuffer .client st.clientFd [] st.requestCapacity).Runs
      [⟨.recv .client st.clientFd st.requestCapacity, .data bs⟩, ⟨.recv .client st.clientFd 0, .eof⟩]
      ((bs.length : Int), bs) := by
    rw [recvIntoBuffer, hn]
    refine ⟨.data bs, _, rfl, .eof, [], ?_, rfl, ?_⟩
    · simp [exact', hn]
    · simp [nonempty]
  have note : (noteTransfer .client bs.length (st.setInbox bs .client)).Runs [⟨.time, now⟩]
      { st with requestBuffer := bs, lastActive := now } := by
    rw [noteTransfer, if_neg (by omega), if_pos (by omega)]
    exact ⟨now, [], rfl, rfl, rfl⟩
  rw [receiveFrom, Prog.runs_bind]
  refine ⟨(bs.length, bs), [_, _], [⟨.time, now⟩], rfl, ?_, note⟩
  rw [← empty] at loop
  exact loop

/-- Reading into a full buffer takes the 0 of a `recv` of 0 bytes for the end
of the stream, whatever the peer is doing. -/
theorem full_run (full : st.requestBuffer.length = st.requestCapacity) :
    (receiveFrom .client st).Runs [⟨.recv .client st.clientFd 0, .eof⟩]
      { st with clientClosed := true } := by
  have ended := ended_run .client st
  have noRoom : st.inboxCapacity .client - (st.inbox .client).length = 0 :=
    Nat.sub_eq_zero_of_le full.ge
  rwa [noRoom] at ended

/-- The client has sent exactly one buffer full and has more to send; the target
takes nothing yet. The second readable event marks the live client closed. -/
theorem closed_only_if_gone_fails :
    ¬ ∀ (st₀ st : ClientState) (h : History),
      st₀.clientClosed = false → st₀.targetClosed = false →
      RelayRun (fun _ _ _ => True) st₀ h st →
      ∀ side, st.closed side = true → PeerGone side (st₀.fd side) h := by
  intro claim
  obtain ⟨upload, length⟩ : ∃ upload : Bytes, upload.length = maxBufferSize :=
    ⟨List.replicate maxBufferSize 65, List.length_replicate⟩
  have entered : RelayRun (fun _ _ _ => True) freshSession [] freshSession := .enter
  have filled := entered.event .client ⟨true, false⟩ trivial
    (connectionForward_readable (fill_run 0 rfl length (by rw [length]; decide)))
    (by simp [Admits, length, freshSession, ClientState.create, maxBufferSize])
  have marked := filled.event .client ⟨true, false⟩ trivial
    (connectionForward_readable (full_run length)) (by simp [Admits])
  have gone := claim _ _ _ rfl rfl marked .client rfl
  simp [PeerGone] at gone

end SimpleProxy.Theorems.Relay
