import SimpleProxy.Logic.Forward
import SimpleProxy.Logic.Kernel

/-!
# The stages of a forwarding event

The stages of `connection_forward` as relations, with the calls they make and the
results they get. An event for the descriptor of a side
has two stages, both on that side's socket: it receives and then sends, or it
sends and then receives.
-/

namespace SimpleProxy

open Interact CString

/-- What `connection_forward` does with the result of a transfer. -/
inductive Noted (side : Side) (r : Int) (st : ClientState) : History → ClientState → Prop
  | gone (h : r < 0) : Noted side r st [] (st.setClosed side)
  | active (h : 0 < r) (now : Int) : Noted side r st [⟨.time, now⟩] { st with lastActive := now }
  | nothing (h : r = 0) : Noted side r st [] st

/-- A stage that receives from a side. -/
inductive ReceiveStage (side : Side) (st : ClientState) : History → ClientState → Prop
  | skipped : ReceiveStage side st [] st
  | done {t₁ t₂ : History} {r : Int} {buffer : Bytes} {st' : ClientState}
      (receiving : Receiving side (st.fd side) (st.inboxCapacity side) (st.inbox side) 0 t₁ r buffer)
      (noted : Noted side r (st.setInbox buffer side) t₂ st') : ReceiveStage side st (t₁ ++ t₂) st'

/-- A stage that sends to a side. -/
inductive SendStage (side : Side) (st : ClientState) : History → ClientState → Prop
  | skipped : SendStage side st [] st
  | done {t₁ t₂ : History} {s : Int} {buffer : Bytes} {st' : ClientState}
      (sending : Sending side (st.fd side) (st.outbox side) 0 t₁ s buffer)
      (noted : Noted side s (st.setInbox buffer side.other) t₂ st') :
      SendStage side st (t₁ ++ t₂) st'

/-- An event on one side. -/
inductive ForwardStages (side : Side) (st : ClientState) : History → ClientState → Prop
  | receiveSend {t₁ t₂ : History} {st₁ st' : ClientState} (receive : ReceiveStage side st t₁ st₁)
      (send : SendStage side st₁ t₂ st') : ForwardStages side st (t₁ ++ t₂) st'
  | sendReceive {t₁ t₂ : History} {st₁ st' : ClientState} (send : SendStage side st t₁ st₁)
      (receive : ReceiveStage side st₁ t₂ st') : ForwardStages side st (t₁ ++ t₂) st'

variable {side : Side} {r : Int} {tr : History} {st st' : ClientState}

/-! ## The functions make these calls -/

theorem noteTransfer_runs (h : (noteTransfer side r st).Runs tr st') : Noted side r st tr st' := by
  unfold noteTransfer at h
  split at h
  · rename_i hneg
    obtain ⟨rfl, rfl⟩ := h
    exact .gone hneg
  · split at h
    · rename_i hpos
      obtain ⟨now, rest, rfl, rfl, rfl⟩ := h
      exact .active hpos now
    · rename_i hneg hpos
      obtain ⟨rfl, rfl⟩ := h
      exact .nothing (by omega)

theorem receiveFrom_runs {cond : Bool} (h : (stage cond (receiveFrom side) st).Runs tr st') :
    ReceiveStage side st tr st' := by
  cases cond with
  | false =>
      obtain ⟨rfl, rfl⟩ := h
      exact .skipped
  | true =>
      have h : (receiveFrom side st).Runs tr st' := h
      rw [receiveFrom, Prog.runs_bind] at h
      obtain ⟨⟨r, buffer⟩, t₁, t₂, rfl, hrecv, hnote⟩ := h
      exact .done (recvLoop_runs hrecv) (noteTransfer_runs hnote)

theorem sendTo_runs {cond : Bool} (h : (stage cond (sendTo side) st).Runs tr st') :
    SendStage side st tr st' := by
  cases cond with
  | false =>
      obtain ⟨rfl, rfl⟩ := h
      exact .skipped
  | true =>
      have h : (sendTo side st).Runs tr st' := h
      rw [sendTo, Prog.runs_bind] at h
      obtain ⟨⟨s, buffer⟩, t₁, t₂, rfl, hsend, hnote⟩ := h
      exact .done (sendLoop_runs hsend) (noteTransfer_runs hnote)

/-- One event: the two stages of its side, or nothing. -/
theorem connectionForward_stages {fdType : EpollFdType} {ev : EpollMask} {res : Int}
    (h : (connectionForward fdType ev st).Runs tr (res, st')) :
    ∃ side, ForwardStages side st tr st' := by
  rw [connectionForward, Prog.runs_bind] at h
  obtain ⟨st₁, t₁, t, rfl, h₁, h⟩ := h
  rw [Prog.runs_bind] at h
  obtain ⟨st₂, t₂, t, rfl, h₂, h⟩ := h
  rw [Prog.runs_bind] at h
  obtain ⟨st₃, t₃, t, rfl, h₃, h⟩ := h
  rw [Prog.runs_bind] at h
  obtain ⟨st₄, t₄, t, rfl, h₄, rfl, hres⟩ := h
  cases hres
  cases fdType with
  | client =>
      -- the first and the last stage
      obtain ⟨rfl, rfl⟩ := h₂
      obtain ⟨rfl, rfl⟩ := h₃
      refine ⟨.client, ?_⟩
      simpa using ForwardStages.receiveSend (receiveFrom_runs h₁) (sendTo_runs h₄)
  | target =>
      -- the two middle stages
      obtain ⟨rfl, rfl⟩ := h₁
      obtain ⟨rfl, rfl⟩ := h₄
      refine ⟨.target, ?_⟩
      simpa using ForwardStages.sendReceive (sendTo_runs h₂) (receiveFrom_runs h₃)
  | listener =>
      obtain ⟨rfl, rfl⟩ := h₁
      obtain ⟨rfl, rfl⟩ := h₂
      obtain ⟨rfl, rfl⟩ := h₃
      obtain ⟨rfl, rfl⟩ := h₄
      exact ⟨.client, by simpa using ForwardStages.receiveSend .skipped .skipped⟩
  | timer =>
      obtain ⟨rfl, rfl⟩ := h₁
      obtain ⟨rfl, rfl⟩ := h₂
      obtain ⟨rfl, rfl⟩ := h₃
      obtain ⟨rfl, rfl⟩ := h₄
      exact ⟨.client, by simpa using ForwardStages.receiveSend .skipped .skipped⟩

/-! ## Without errors -/

/-- What a stage on one side does in an orderly run: it leaves the other side alone,
and marks its own side closed only where nothing was received. -/
structure OneSided (side : Side) (st st' : ClientState) (tr : History) : Prop where
  received : received side.other tr = []
  accepted : accepted side.other tr = []
  closedOther : st'.closed side.other = st.closed side.other
  closed : st'.closed side = true → st.closed side = true ∨ SimpleProxy.received side tr = []

theorem OneSided.nothing (side : Side) (st : ClientState) : OneSided side st st [] :=
  ⟨rfl, rfl, rfl, .inl⟩

/-- Noting the result leaves the streams alone. -/
theorem Noted.streams (h : Noted side r st tr st') :
    (∀ s, received s tr = []) ∧ (∀ s, accepted s tr = []) ∧
      st'.closed side.other = st.closed side.other ∧
      (st'.closed side = true → st.closed side = true ∨ r < 0) := by
  cases h with
  | gone hneg =>
      exact ⟨fun _ => rfl, fun _ => rfl, st.closed_setClosed _ _ (Side.other_ne side).symm,
        fun _ => .inr hneg⟩
  | active hpos now =>
      refine ⟨fun _ => rfl, fun _ => rfl, ?_, fun h => .inl ?_⟩
      · cases side <;> rfl
      · cases side <;> exact h
  | nothing => exact ⟨fun _ => rfl, fun _ => rfl, rfl, .inl⟩

theorem ReceiveStage.oneSided (h : ReceiveStage side st tr st') (ok : Admitted tr)
    (orderly : Orderly tr) : OneSided side st st' tr := by
  cases h with
  | skipped => exact .nothing side st
  | @done t₁ t₂ r buffer _ receiving noted =>
      have ok₁ := ok.append.1
      have orderly₁ : Orderly t₁ := fun e he => orderly e (List.mem_append_left _ he)
      obtain ⟨spec, -⟩ := receiving.spec ok₁ (Int.le_refl 0)
      obtain ⟨hreceived, haccepted, hother, hclosed⟩ := noted.streams
      refine ⟨?_, ?_, ?_, ?_⟩
      · rw [received_append, spec.received_other, hreceived, List.append_nil]
      · rw [accepted_append, spec.accepted_eq_nil, haccepted, List.append_nil]
      · rw [hother, st.closed_setInbox]
      · intro hside
        rcases hclosed hside with before | hneg
        · exact .inl (by rwa [st.closed_setInbox] at before)
        · rw [received_append, hreceived, List.append_nil]
          exact .inr (receiving.orderly ok₁ orderly₁ (Int.le_refl 0) hneg).2

theorem SendStage.oneSided (h : SendStage side st tr st') (ok : Admitted tr)
    (orderly : Orderly tr) :
    OneSided side st st' tr ∧ received side tr = [] ∧ st'.closed side = st.closed side := by
  cases h with
  | skipped => exact ⟨.nothing side st, rfl, rfl⟩
  | @done t₁ t₂ s buffer _ sending noted =>
      have ok₁ := ok.append.1
      have orderly₁ : Orderly t₁ := fun e he => orderly e (List.mem_append_left _ he)
      have spec := sending.spec ok₁ (Int.le_refl 0)
      have nonneg := sending.orderly ok₁ orderly₁ (Int.le_refl 0)
      obtain ⟨hreceived, haccepted, hother, -⟩ := noted.streams
      have hall : ∀ s, received s (t₁ ++ t₂) = [] := by
        intro s
        rw [received_append, spec.received_eq_nil, hreceived, List.append_nil]
      have hsame : st'.closed side = st.closed side := by
        cases noted with
        | gone hneg => omega
        | active => cases side <;> rfl
        | nothing => rw [st.closed_setInbox]
      refine ⟨⟨hall _, ?_, ?_, fun hside => .inl (hsame ▸ hside)⟩, hall side, hsame⟩
      · rw [accepted_append, spec.accepted_other, haccepted, List.append_nil]
      · rw [hother, st.closed_setInbox]

theorem ForwardStages.oneSided (h : ForwardStages side st tr st') (ok : Admitted tr)
    (orderly : Orderly tr) : OneSided side st st' tr := by
  cases h with
  | @receiveSend t₁ t₂ st₁ _ receive send =>
      have orderly₁ : Orderly t₁ := fun e he => orderly e (List.mem_append_left _ he)
      have orderly₂ : Orderly t₂ := fun e he => orderly e (List.mem_append_right _ he)
      have first := receive.oneSided ok.append.1 orderly₁
      obtain ⟨second, hnone, hsame⟩ := send.oneSided ok.append.2 orderly₂
      refine ⟨?_, ?_, second.closedOther.trans first.closedOther, ?_⟩
      · rw [received_append, first.received, second.received, List.append_nil]
      · rw [accepted_append, first.accepted, second.accepted, List.append_nil]
      · rw [hsame, received_append, hnone, List.append_nil]
        exact first.closed
  | @sendReceive t₁ t₂ st₁ _ send receive =>
      have orderly₁ : Orderly t₁ := fun e he => orderly e (List.mem_append_left _ he)
      have orderly₂ : Orderly t₂ := fun e he => orderly e (List.mem_append_right _ he)
      obtain ⟨first, hnone, hsame⟩ := send.oneSided ok.append.1 orderly₁
      have second := receive.oneSided ok.append.2 orderly₂
      refine ⟨?_, ?_, second.closedOther.trans first.closedOther, ?_⟩
      · rw [received_append, first.received, second.received, List.append_nil]
      · rw [accepted_append, first.accepted, second.accepted, List.append_nil]
      · rw [← hsame, received_append, hnone, List.nil_append]
        exact second.closed

end SimpleProxy
