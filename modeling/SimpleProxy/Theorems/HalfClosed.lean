import SimpleProxy.Logic.Stages
import SimpleProxy.Theorems.Relay
import SimpleProxy.Theorems.Tunnel

/-!
# A target that has ended

`connection_forward` ends the relay when both peers are marked closed. A target that has
ended, all of whose response was delivered, does not end it: that takes the client, too.
-/

namespace SimpleProxy.Theorems.HalfClosed

open Interact CString Tunnel

variable {side : Side} {fd : Fd} {capacity : Nat} {buffer buffer' : Bytes} {total r : Int}
  {tr : History} {st st' : ClientState}

/-! ## When an event marks a side closed -/

/-- A transfer on this side failed. -/
def failsOn (side : Side) : Io → Bool
  | ⟨.recv s .., .error⟩ => s = side
  | ⟨.send s _ _ .noSignal, .error⟩ => s = side
  | _ => false

/-- `recv` returned 0 on this side: its peer ended, or there was no room for a byte. -/
def endsOn (side : Side) : Io → Bool
  | ⟨.recv s .., .eof⟩ => s = side
  | _ => false

/-- A transfer on this side failed, or its `recv` returned 0 and had received nothing. -/
def Ends (side : Side) (tr : History) : Prop :=
  tr.any (failsOn side) = true ∨ tr.any (endsOn side) = true ∧ received side tr = []

theorem Receiving.negative_iff (h : Receiving side fd capacity buffer total tr r buffer')
    (ok : Admitted tr) (htotal : 0 ≤ total) :
    r < 0 ↔ tr.any (failsOn side) = true ∨
      total = 0 ∧ tr.any (endsOn side) = true ∧ received side tr = [] := by
  induction h with
  | @more buffer bs buffer' total r tr rest ih =>
      obtain ⟨hfirst, hrest⟩ := List.forall_mem_cons.mp ok
      have some : 0 < bs.length := by
        have : 0 < bs.length ∧ bs.length ≤ capacity - buffer.length := by
          simpa [Admits] using hfirst
        exact this.1
      rw [ih hrest (by omega)]
      have nothing : bs ≠ [] := List.ne_nil_of_length_pos some
      constructor
      · rintro (fails | ⟨zero, -⟩)
        · exact .inl (by simpa [failsOn] using fails)
        · omega
      · rintro (fails | ⟨-, -, none⟩)
        · exact .inl (by simpa [failsOn] using fails)
        · simp [received, Io.received, nothing] at none
  | @ended buffer total =>
      by_cases positive : 0 < total
      · simp [failsOn, positive]
        omega
      · obtain rfl : total = 0 := by omega
        simp [failsOn, endsOn, received, Io.received]
  | blocked => simp [failsOn, endsOn, htotal]
  | failed => simp [failsOn]

theorem Sending.negative_iff {s : Int} (h : Sending side fd buffer total tr s buffer')
    (ok : Admitted tr) (htotal : 0 ≤ total) : s < 0 ↔ tr.any (failsOn side) = true := by
  induction h with
  | drained => simpa using htotal
  | @more buffer buffer' total s n tr some rest ih =>
      obtain ⟨-, hrest⟩ := List.forall_mem_cons.mp ok
      rw [ih hrest (by omega)]
      simp [failsOn]
  | refused =>
      have := ok _ (List.mem_singleton.mpr rfl)
      simp [Admits] at this
  | blocked => simpa [failsOn] using htotal
  | failed => simp [failsOn]

theorem Noted.closed_iff (h : Noted side r st tr st') :
    (st'.closed side = true ↔ st.closed side = true ∨ r < 0) ∧
      st'.closed side.other = st.closed side.other := by
  cases h with
  | gone hneg =>
      exact ⟨by simp [hneg], st.closed_setClosed _ _ (Side.other_ne side).symm⟩
  | active hpos now =>
      have positive : ¬ r < 0 := by omega
      constructor
      · cases side <;> simp [ClientState.closed, positive]
      · cases side <;> rfl
  | nothing hzero =>
      have zero : ¬ r < 0 := by omega
      exact ⟨by simp [zero], rfl⟩

/-- Nothing on this side failed or ended. -/
def Unharmed (side : Side) (tr : History) : Prop :=
  tr.any (failsOn side) = false ∧ tr.any (endsOn side) = false ∧ received side tr = []

theorem Unharmed.append {t₁ t₂ : History} (h₁ : Unharmed side t₁) (h₂ : Unharmed side t₂) :
    Unharmed side (t₁ ++ t₂) := by
  refine ⟨?_, ?_, ?_⟩
  · rw [List.any_append, h₁.1, h₂.1, Bool.or_false]
  · rw [List.any_append, h₁.2.1, h₂.2.1, Bool.or_false]
  · rw [received_append, h₁.2.2, h₂.2.2, List.append_nil]

theorem Unharmed.of_forall (h : ∀ e ∈ tr, failsOn side e = false ∧ endsOn side e = false ∧
    Io.received side e = []) : Unharmed side tr := by
  refine ⟨?_, ?_, List.flatMap_eq_nil_iff.mpr fun e he => (h e he).2.2⟩
  · exact List.any_eq_false.mpr fun e he => by simp [(h e he).1]
  · exact List.any_eq_false.mpr fun e he => by simp [(h e he).2.1]

theorem Unharmed.not_ends (h : Unharmed side tr) : ¬ Ends side tr := by
  rw [Ends, h.1, h.2.1]
  simp

theorem Ends.append_unharmed {t₁ t₂ : History} (h : Unharmed side t₂) :
    Ends side (t₁ ++ t₂) ↔ Ends side t₁ := by
  rw [Ends, Ends, List.any_append, List.any_append, received_append, h.1, h.2.1, h.2.2,
    Bool.or_false, Bool.or_false, List.append_nil]

theorem Noted.unharmed (h : Noted side r st tr st') (s : Side) : Unharmed s tr := by
  cases h <;> exact ⟨rfl, rfl, rfl⟩

/-- What a stage does to the flags: to its own, and not to the other one. -/
structure Marks (side : Side) (st st' : ClientState) (tr : History) : Prop where
  own : st'.closed side = true ↔ st.closed side = true ∨ Ends side tr
  other : st'.closed side.other = st.closed side.other
  apart : Unharmed side.other tr

theorem receive_marks (h : ReceiveStage side st tr st') (ok : Admitted tr) :
    Marks side st st' tr := by
  cases h with
  | skipped => exact ⟨by simp [Ends], rfl, rfl, rfl, rfl⟩
  | @done t₁ t₂ r buffer _ receiving noted =>
      have spec := (receiving.spec ok.append.1 (Int.le_refl 0)).1
      obtain ⟨own, other⟩ := Noted.closed_iff noted
      refine ⟨?_, ?_, Unharmed.append (.of_forall fun e he => ?_) (Noted.unharmed noted _)⟩
      · rw [own, st.closed_setInbox, Ends.append_unharmed (Noted.unharmed noted side),
          Receiving.negative_iff receiving ok.append.1 (Int.le_refl 0), Ends]
        simp
      · rw [other, st.closed_setInbox]
      · obtain ⟨c, answer⟩ := e
        obtain ⟨n, rfl⟩ := spec.calls _ he
        cases answer <;> simp [failsOn, endsOn, Io.received, (Side.other_ne side).symm]

/-- A send does not end a stream. -/
theorem send_marks (h : SendStage side st tr st') (ok : Admitted tr) :
    Marks side st st' tr ∧ tr.any (endsOn side) = false ∧ received side tr = [] := by
  cases h with
  | skipped => exact ⟨⟨by simp [Ends], rfl, rfl, rfl, rfl⟩, rfl, rfl⟩
  | @done t₁ t₂ s buffer _ sending noted =>
      have spec := sending.spec ok.append.1 (Int.le_refl 0)
      obtain ⟨own, other⟩ := Noted.closed_iff noted
      have noEnd : t₁.any (endsOn side) = false := by
        refine List.any_eq_false.mpr fun e he => ?_
        obtain ⟨c, answer⟩ := e
        obtain ⟨data, rfl⟩ := spec.calls _ he
        simp [endsOn]
      have unharmed := Noted.unharmed noted side
      refine ⟨⟨?_, ?_, Unharmed.append (.of_forall fun e he => ?_) (Noted.unharmed noted _)⟩, ?_, ?_⟩
      · rw [own, st.closed_setInbox, Ends.append_unharmed unharmed,
          Sending.negative_iff sending ok.append.1 (Int.le_refl 0), Ends, noEnd]
        simp
      · rw [other, st.closed_setInbox]
      · obtain ⟨c, answer⟩ := e
        obtain ⟨data, rfl⟩ := spec.calls _ he
        cases answer <;> simp [failsOn, endsOn, Io.received, (Side.other_ne side).symm]
      · rw [List.any_append, noEnd, unharmed.2.1, Bool.or_false]
      · rw [received_append, spec.received_eq_nil, unharmed.2.2, List.append_nil]

/-- Calls around a send end a side when one of the two parts does. -/
theorem Ends.append_iff {t₁ t₂ : History}
    (send : (t₁.any (endsOn side) = false ∧ received side t₁ = []) ∨
      (t₂.any (endsOn side) = false ∧ received side t₂ = [])) :
    Ends side (t₁ ++ t₂) ↔ Ends side t₁ ∨ Ends side t₂ := by
  rw [Ends, Ends, Ends, List.any_append, List.any_append, received_append]
  rcases send with ⟨noEnd, nothing⟩ | ⟨noEnd, nothing⟩
  · rw [noEnd, nothing]
    simp [or_assoc]
  · rw [noEnd, nothing]
    simp [or_right_comm]

theorem Marks.append {t₁ t₂ : History} {st₁ : ClientState} (first : Marks side st st₁ t₁)
    (second : Marks side st₁ st' t₂)
    (send : (t₁.any (endsOn side) = false ∧ received side t₁ = []) ∨
      (t₂.any (endsOn side) = false ∧ received side t₂ = [])) :
    Marks side st st' (t₁ ++ t₂) where
  own := by rw [second.own, first.own, Ends.append_iff send, or_assoc]
  other := second.other.trans first.other
  apart := first.apart.append second.apart

theorem forward_marks (h : ForwardStages side st tr st') (ok : Admitted tr) :
    Marks side st st' tr := by
  cases h with
  | receiveSend receive send =>
      obtain ⟨second, quiet⟩ := send_marks send ok.append.2
      exact (receive_marks receive ok.append.1).append second (.inr quiet)
  | sendReceive send receive =>
      obtain ⟨first, quiet⟩ := send_marks send ok.append.1
      exact first.append (receive_marks receive ok.append.2) (.inl quiet)

/-- An event marks a side closed exactly when that side ends in it. -/
theorem closed_iff {fdType : EpollFdType} {ev : EpollMask} {result : Int}
    (run : (connectionForward fdType ev st).Runs tr (result, st')) (ok : Admitted tr) (s : Side) :
    st'.closed s = true ↔ st.closed s = true ∨ Ends s tr := by
  obtain ⟨side, stages⟩ := connectionForward_stages run
  have marks := forward_marks stages ok
  by_cases same : s = side
  · rw [same, marks.own]
  · obtain rfl := Side.eq_other same
    rw [marks.other]
    simp [marks.apart.not_ends]

/-- **A target that has ended.** Whenever the target is marked closed after an event, the relay
ends in it if and only if the client had ended before, or ends in it. What of the response
is still to be delivered makes no difference. -/
theorem ends_with_client {fdType : EpollFdType} {ev : EpollMask} {result : Int}
    (run : (connectionForward fdType ev st).Runs tr (result, st')) (ok : Admitted tr)
    (ended : st'.targetClosed = true) :
    result ≠ 0 ↔ st.clientClosed = true ∨ Ends .client tr := by
  obtain ⟨-, returns, -⟩ := connectionForward_runs run ok
  rw [returns, and_iff_left ended]
  exact closed_iff run ok .client

/-- A session on descriptors 7 and 8 whose client has ended. -/
def leftSession : ClientState :=
  { ClientState.create 7 0 with targetFd := 8, state := .forwarding, clientClosed := true }

theorem ends_with_client_left :
    (-1 : Int) ≠ 0 ↔ leftSession.clientClosed = true ∨
      Ends .client [⟨.recv .target 8 4096, .eof⟩] := by
  have run : (connectionForward .target ⟨true, false⟩ leftSession).Runs
      [⟨.recv .target 8 4096, .eof⟩] (-1, { leftSession with targetClosed := true }) :=
    Prog.runs_of_replay (by decide)
  exact ends_with_client run (List.forall_mem_singleton.mpr rfl) rfl

/-- The target ends its stream, and nothing of it is left to be received. -/
theorem target_ends_run (st : ClientState) :
    (connectionForward .target ⟨true, false⟩ st).Runs
      [⟨.recv .target st.targetFd (st.responseCapacity - st.responseBuffer.length), .eof⟩]
      (if st.clientClosed then -1 else 0, { st with targetClosed := true }) := by
  have run := Relay.connectionForward_readable (Relay.ended_run .target st)
  have both : ((st.setClosed .target).clientClosed && (st.setClosed .target).targetClosed) =
      st.clientClosed := Bool.and_true _
  rwa [both] at run

/-- The target of an idle tunnel ends its stream. The relay goes on, for a client that has
nothing left to wait for. -/
theorem ends_with_target_fails :
    ¬ ∀ w, proxy.Reachable w → ∀ c st, w.mem.heap c = some st → st.expired = false →
      st.state = .forwarding → ∀ fdType ev tr result st',
      (connectionForward fdType ev st).Runs tr (result, st') → Admitted tr →
      st'.targetClosed = true → st'.responseBuffer = [] → result ≠ 0 := by
  intro claim
  have facts : (((tunnelScript connectRequest).foldlM World.exec (World.boot 3 4 5)).map fun w =>
      (w.mem.heap 0).any fun st => st.state = .forwarding && (!st.expired && (!st.clientClosed &&
        st.responseBuffer.isEmpty))) = some true := by decide +kernel
  obtain ⟨w, hw, hfacts⟩ := Option.map_eq_some_iff.mp facts
  obtain ⟨st, hst, hstate⟩ := (Option.any_eq_true _ _).mp hfacts
  simp only [Bool.and_eq_true, Bool.not_eq_true', decide_eq_true_eq, List.isEmpty_iff] at hstate
  obtain ⟨forwarding, live, clientOpen, delivered⟩ := hstate
  have goesOn := target_ends_run st
  rw [clientOpen] at goesOn
  have ended := claim w (World.reachable_of_script (.start World.booted) hw) 0 st hst live forwarding
    _ _ _ _ _ goesOn (by simp [Admitted, Admits]) rfl delivered
  exact ended rfl

end SimpleProxy.Theorems.HalfClosed
