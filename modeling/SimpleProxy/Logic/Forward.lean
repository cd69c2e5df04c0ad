import SimpleProxy.Logic.Transfer

/-!
# What one forwarding event does

`TransferSpec` relates a `ClientState` before and after some transfers to the
calls made in between: the flow equations of the two directions, the bounds of
the two buffers, and the frame. It composes, so the four stages of
`connection_forward` give it for a whole event (`connectionForward_spec`).
-/

namespace SimpleProxy

open Interact CString

/-- The calls of the relay: `recv` and `send` on the session's own sockets and
the clock. -/
def RelayCall (st : ClientState) : Call → Prop
  | .recv side fd _ => fd = st.fd side
  | .send side fd _ flags => fd = st.fd side ∧ flags = .noSignal
  | .time => True
  | _ => False

structure TransferSpec (st st' : ClientState) (tr : History) : Prop where
  calls : ∀ e ∈ tr, RelayCall st e.call
  /-- What a side was sent, then what still waits for it, is what waited before,
  then what the other side delivered. -/
  flows : ∀ side, accepted side.other tr ++ st'.inbox side = st.inbox side ++ received side tr
  fits : ∀ side, (st.inbox side).length ≤ st.inboxCapacity side →
    (st'.inbox side).length ≤ st.inboxCapacity side
  frame : st' = { st with
    requestBuffer := st'.requestBuffer
    responseBuffer := st'.responseBuffer
    clientClosed := st'.clientClosed
    targetClosed := st'.targetClosed
    lastActive := st'.lastActive }

namespace TransferSpec

variable {st st₁ st₂ : ClientState} {tr tr₁ tr₂ : History}

theorem rfl' (st : ClientState) : TransferSpec st st [] where
  calls := by simp
  flows := by simp
  fits := fun _ => id
  frame := rfl

theorem fd_eq (h : TransferSpec st st₁ tr) (side : Side) : st₁.fd side = st.fd side := by
  rw [h.frame]
  cases side <;> rfl

theorem inboxCapacity_eq (h : TransferSpec st st₁ tr) (side : Side) :
    st₁.inboxCapacity side = st.inboxCapacity side := by
  rw [h.frame]
  cases side <;> rfl

theorem relayCall_iff (h : TransferSpec st st₁ tr) (c : Call) :
    RelayCall st₁ c ↔ RelayCall st c := by
  cases c <;> simp [RelayCall, h.fd_eq]

/-- Transfers compose. -/
theorem comp (h₁ : TransferSpec st st₁ tr₁) (h₂ : TransferSpec st₁ st₂ tr₂) :
    TransferSpec st st₂ (tr₁ ++ tr₂) where
  calls e he := by
    rcases List.mem_append.mp he with he | he
    · exact h₁.calls e he
    · exact (h₁.relayCall_iff e.call).mp (h₂.calls e he)
  flows side := by
    rw [accepted_append, received_append, List.append_assoc, h₂.flows side,
      ← List.append_assoc, h₁.flows side, List.append_assoc]
  fits side hfits := by
    have hcap := h₁.inboxCapacity_eq side
    exact hcap ▸ h₂.fits side (hcap ▸ h₁.fits side hfits)
  frame := by
    rw [h₂.frame, h₁.frame]

end TransferSpec

/-- The flags after a transfer, with `full` standing for "the buffer of `side`
had no room". -/
def ClosedSpec (side : Side) (full : Prop) (st st' : ClientState) (tr : History) : Prop :=
  ∀ s, st'.closed s = true → st.closed s = true ∨ PeerGone s (st.fd s) tr ∨ (s = side ∧ full)

/-- Reading the clock moves no bytes, and only a negative result marks the
peer closed. -/
theorem noteTransfer_spec (side : Side) (r : Int) (st : ClientState) (h : History) :
    (noteTransfer side r st).wp anyAnswers
      (fun st' h' => ∃ tr, h' = h ++ tr ∧ TransferSpec st st' tr ∧
        (∀ s, st'.inbox s = st.inbox s) ∧
        (∀ s, st'.closed s = true → st.closed s = true ∨ (s = side ∧ r < 0))) h := by
  unfold noteTransfer
  split
  · rename_i hneg
    refine ⟨[], by simp, ⟨by simp, by simp, by simp, ?_⟩, by simp, ?_⟩
    · cases side <;> rfl
    · intro s hs
      by_cases hside : s = side
      · exact .inr ⟨hside, hneg⟩
      · exact .inl (by rwa [st.closed_setClosed _ _ (Ne.symm hside)] at hs)
  · split
    · simp only [Prog.wp_bind, Prog.wp_perform, recorder_step]
      rintro now _ ⟨-, rfl⟩
      refine ⟨[⟨.time, now⟩], rfl, ⟨by simp [RelayCall], ?_, fun s => ?_, rfl⟩, fun s => ?_,
        fun s hs => .inl ?_⟩
      · intro s
        cases s <;> simp [Io.received, Io.accepted, ClientState.inbox]
      · cases s <;> exact id
      · cases s <;> rfl
      · cases s <;> exact hs
    · exact ⟨[], by simp, .rfl' st, fun _ => rfl, fun s hs => .inl hs⟩

theorem receiveFrom_spec (side : Side) (st : ClientState) (h : History) :
    (receiveFrom side st).wp anyAnswers
      (fun st' h' => ∃ tr, h' = h ++ tr ∧ TransferSpec st st' tr ∧
        ClosedSpec side (st.inboxCapacity side ≤ (st.inbox side).length) st st' tr) h := by
  unfold receiveFrom
  rw [Prog.wp_bind]
  refine Prog.wp_mono (recvIntoBuffer_spec side _ _ _ h) ?_
  rintro ⟨r, buffer⟩ _ ⟨tr₁, rfl, hrecv⟩
  refine Prog.wp_mono (noteTransfer_spec side r _ _) ?_
  rintro st' _ ⟨tr₂, rfl, hnote, -, hclosed⟩
  have hfill : TransferSpec st (st.setInbox buffer side) tr₁ := by
    refine ⟨?_, ?_, ?_, by cases side <;> rfl⟩
    · intro e he
      obtain ⟨n, hcall⟩ := hrecv.calls e he
      rw [hcall]
      rfl
    · intro s
      by_cases hs : s = side
      · subst hs
        rw [hrecv.accepted_eq_nil, ClientState.inbox_setInbox_self]
        exact hrecv.appends
      · have hother : s = side.other := by
          cases s <;> cases side <;> first | rfl | exact absurd rfl hs
        subst hother
        rw [hrecv.accepted_eq_nil, hrecv.received_other, st.inbox_setInbox _ _ _ (Ne.symm hs)]
        simp
    -- the loop asks for what is free and no more
    · intro s hfits
      by_cases hs : s = side
      · subst hs
        rw [ClientState.inbox_setInbox_self]
        exact hrecv.fits hfits
      · rwa [st.inbox_setInbox _ _ _ (Ne.symm hs)]
  refine ⟨tr₁ ++ tr₂, by simp, hfill.comp hnote, fun s hs => ?_⟩
  rcases hclosed s hs with hs | ⟨rfl, hneg⟩
  · exact .inl (by simpa using hs)
  · rcases hrecv.negative hneg with hgone | hfull
    · exact .inr (.inl (hgone.mono (List.subset_append_left _ _)))
    · exact .inr (.inr ⟨rfl, hfull⟩)

theorem sendTo_spec (side : Side) (st : ClientState) (h : History) :
    (sendTo side st).wp anyAnswers
      (fun st' h' => ∃ tr, h' = h ++ tr ∧ TransferSpec st st' tr ∧
        ClosedSpec side False st st' tr ∧ st'.inbox side = st.inbox side) h := by
  unfold sendTo
  rw [Prog.wp_bind]
  refine Prog.wp_mono (sendFromBuffer_spec side _ _ h) ?_
  rintro ⟨r, buffer⟩ _ ⟨tr₁, rfl, hsend⟩
  refine Prog.wp_mono (noteTransfer_spec side r _ _) ?_
  rintro st' _ ⟨tr₂, rfl, hnote, hinbox, hclosed⟩
  have hdrain : TransferSpec st (st.setInbox buffer side.other) tr₁ := by
    refine ⟨?_, ?_, ?_, by cases side <;> rfl⟩
    · intro e he
      obtain ⟨data, hcall⟩ := hsend.calls e he
      rw [hcall]
      exact ⟨rfl, rfl⟩
    · intro s
      by_cases hs : s = side.other
      · subst hs
        rw [hsend.received_eq_nil, Side.other_other, ClientState.inbox_setInbox_self,
          List.append_nil]
        exact hsend.drains.symm
      · have hside : s = side := by cases s <;> cases side <;> first | rfl | exact absurd rfl hs
        subst hside
        rw [hsend.accepted_other, hsend.received_eq_nil, st.inbox_setInbox _ _ _ (Ne.symm hs)]
        simp
    · intro s hfits
      by_cases hs : s = side.other
      · subst hs
        rw [ClientState.inbox_setInbox_self]
        have hlen : (st.outbox side).length = (accepted side tr₁ ++ buffer).length :=
          congrArg List.length hsend.drains
        rw [List.length_append] at hlen
        have : (st.outbox side).length ≤ st.inboxCapacity side.other := hfits
        omega
      · rwa [st.inbox_setInbox _ _ _ (Ne.symm hs)]
  refine ⟨tr₁ ++ tr₂, by simp, hdrain.comp hnote, fun s hs => ?_, ?_⟩
  · rcases hclosed s hs with hs | ⟨rfl, hneg⟩
    · exact .inl (by simpa using hs)
    · exact .inr (.inl ((hsend.negative hneg).mono (List.subset_append_left _ _)))
  · rw [hinbox, st.inbox_setInbox _ _ _ (Side.other_ne side)]

/-! ## One event -/

theorem stage_receiveFrom_spec (cond : Bool) (side : Side) (st : ClientState) (h : History) :
    (stage cond (receiveFrom side) st).wp anyAnswers
      (fun st' h' => ∃ tr, h' = h ++ tr ∧ TransferSpec st st' tr ∧
        ClosedSpec side (cond = true ∧ st.inboxCapacity side ≤ (st.inbox side).length) st st' tr)
      h := by
  unfold stage
  split
  · rename_i hcond
    refine Prog.wp_mono (receiveFrom_spec side st h) ?_
    rintro st' h' ⟨tr, hh, hspec, hclosed⟩
    exact ⟨tr, hh, hspec, fun s hs =>
      (hclosed s hs).imp_right (.imp_right fun ⟨hside, hfull⟩ => ⟨hside, hcond, hfull⟩)⟩
  · exact ⟨[], by simp, .rfl' st, fun s hs => .inl hs⟩

theorem stage_sendTo_spec (cond : Bool) (side : Side) (st : ClientState) (h : History) :
    (stage cond (sendTo side) st).wp anyAnswers
      (fun st' h' => ∃ tr, h' = h ++ tr ∧ TransferSpec st st' tr ∧
        ClosedSpec side False st st' tr ∧ st'.inbox side = st.inbox side) h := by
  unfold stage
  split
  · exact sendTo_spec side st h
  · exact ⟨[], by simp, .rfl' st, fun s hs => .inl hs, rfl⟩

/-- An event of this kind makes `connection_forward` read from `side`. -/
def ReadsFrom (side : Side) (fdType : EpollFdType) (ev : EpollMask) : Prop :=
  ev.epollin = true ∧ fdType = match side with
    | .client => .client
    | .target => .target

/-- One event: the flow equations, the bounds and the frame hold across it, -1
is returned exactly when both peers are marked closed, and a side is newly
marked only if its peer is gone or its buffer was full when it was read. -/
def ForwardSpec (fdType : EpollFdType) (ev : EpollMask) (st : ClientState)
    (res : Int × ClientState) (tr : History) : Prop :=
  TransferSpec st res.2 tr ∧
  (res.1 ≠ 0 ↔ res.2.clientClosed = true ∧ res.2.targetClosed = true) ∧
  ∀ side, res.2.closed side = true → st.closed side = true ∨ PeerGone side (st.fd side) tr ∨
    (ReadsFrom side fdType ev ∧ st.inboxCapacity side ≤ (st.inbox side).length)

private theorem returns_iff (st : ClientState) :
    (if st.clientClosed && st.targetClosed then (-1 : Int) else 0) ≠ 0 ↔
      st.clientClosed = true ∧ st.targetClosed = true := by
  cases st.clientClosed <;> cases st.targetClosed <;> simp

@[simp] theorem stage_false (run : ClientState → Proc ClientState) (st : ClientState) :
    stage false run st = .ret st := rfl

private theorem client_ne_target : (EpollFdType.client == EpollFdType.target) = false := rfl

private theorem target_ne_client : (EpollFdType.target == EpollFdType.client) = false := rfl

theorem connectionForward_spec (fdType : EpollFdType) (ev : EpollMask) (st : ClientState)
    (h : History) :
    (connectionForward fdType ev st).wp anyAnswers
      (fun res h' => ∃ tr, h' = h ++ tr ∧ ForwardSpec fdType ev st res tr) h := by
  have idle : ∀ side, st.closed side = true → st.closed side = true ∨ PeerGone side (st.fd side) [] ∨
      (ReadsFrom side fdType ev ∧ st.inboxCapacity side ≤ (st.inbox side).length) :=
    fun _ hs => .inl hs
  cases fdType with
  | client =>
      -- the first and the last stage
      simp only [connectionForward, Prog.wp_bind, client_ne_target, Bool.false_and, stage_false,
        Prog.wp_ret]
      refine Prog.wp_mono (stage_receiveFrom_spec _ .client st h) ?_
      rintro st₁ _ ⟨tr₁, rfl, hrecv, hclosed₁⟩
      refine Prog.wp_mono (stage_sendTo_spec _ .client st₁ _) ?_
      rintro st₂ _ ⟨tr₂, rfl, hsend, hclosed₂, -⟩
      refine ⟨tr₁ ++ tr₂, by simp, hrecv.comp hsend, returns_iff st₂, fun s hs => ?_⟩
      rcases hclosed₂ s hs with hs | hgone | ⟨-, hno⟩
      · rcases hclosed₁ s hs with hs | hgone | ⟨rfl, hcond, hfull⟩
        · exact .inl hs
        · exact .inr (.inl (hgone.mono (List.subset_append_left _ _)))
        · exact .inr (.inr ⟨⟨by simpa using hcond, rfl⟩, hfull⟩)
      · rw [hrecv.fd_eq] at hgone
        exact .inr (.inl (hgone.mono (List.subset_append_right _ _)))
      · exact hno.elim
  | target =>
      -- the two middle stages; sending leaves the buffer that is then filled
      simp only [connectionForward, Prog.wp_bind, target_ne_client, Bool.false_and, stage_false,
        Prog.wp_ret]
      refine Prog.wp_mono (stage_sendTo_spec _ .target st h) ?_
      rintro st₁ _ ⟨tr₁, rfl, hsend, hclosed₁, hinbox⟩
      refine Prog.wp_mono (stage_receiveFrom_spec _ .target st₁ _) ?_
      rintro st₂ _ ⟨tr₂, rfl, hrecv, hclosed₂⟩
      refine ⟨tr₁ ++ tr₂, by simp, hsend.comp hrecv, returns_iff st₂, fun s hs => ?_⟩
      rcases hclosed₂ s hs with hs | hgone | ⟨rfl, hcond, hfull⟩
      · rcases hclosed₁ s hs with hs | hgone | ⟨-, hno⟩
        · exact .inl hs
        · exact .inr (.inl (hgone.mono (List.subset_append_left _ _)))
        · exact hno.elim
      · rw [hsend.fd_eq] at hgone
        exact .inr (.inl (hgone.mono (List.subset_append_right _ _)))
      · rw [hsend.inboxCapacity_eq, hinbox] at hfull
        exact .inr (.inr ⟨⟨by simpa using hcond, rfl⟩, hfull⟩)
  | listener => exact ⟨[], by simp, .rfl' st, returns_iff st, idle⟩
  | timer => exact ⟨[], by simp, .rfl' st, returns_iff st, idle⟩

/-- The specification of one event, for a run of the handler. -/
theorem connectionForward_runs {fdType : EpollFdType} {ev : EpollMask} {st : ClientState}
    {res : Int × ClientState} {tr : History} (run : (connectionForward fdType ev st).Runs tr res)
    (contract : ∀ e ∈ tr, Admits e.call e.answer = true) : ForwardSpec fdType ev st res tr := by
  obtain ⟨tr', htr, hspec⟩ := Prog.wp_sound (connectionForward_spec fdType ev st []) run
    (recorder_run.mpr ⟨contract, rfl⟩)
  rwa [List.append_cancel_left htr]

end SimpleProxy
