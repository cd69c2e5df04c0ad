import Mathlib.Data.List.TakeWhile
import SimpleProxy.Logic.Progress
import SimpleProxy.Logic.Stages

/-!
# What counts as activity

`last_active` is the time of the last transfer of the relay that moved bytes
without failing. `connection_forward` is the only function that writes it, so
bytes that move while the request is read, in a reply of the proxy, or in front of
an error are not noted.
-/

namespace SimpleProxy

open Interact CString

/-- Bytes arrived, or were accepted. -/
def Io.movesBytes : Io → Bool
  | ⟨.recv .., .data _⟩ => true
  | ⟨.send .., .sent _⟩ => true
  | _ => false

/-- A reply of the proxy itself. -/
def Call.isReply : Call → Bool
  | .send _ _ _ .plain => true
  | _ => false

/-- The two calls can be made by one transfer. -/
def Call.sameTransfer : Call → Call → Bool
  | .recv s _ _, .recv t _ _ => s = t
  | .send s _ _ .noSignal, .send t _ _ .noSignal => s = t
  | _, _ => false

/-- The transfer that `e` is part of fails after it. -/
def endsInError (e : Io) (later : History) : Bool :=
  (later.takeWhile fun e' => e.call.sameTransfer e'.call).any Io.fails

/-- A call that moved bytes, with the calls of its client before and after it, and
that is not noted as activity: the request is still being read, or the proxy
replies, or the transfer fails. -/
def Unnoted (earlier : History) (e : Io) (later : History) : Prop :=
  callsOf .authenticating earlier = 0 ∨ e.call.isReply = true ∨ endsInError e later = true

/-- No byte of `new` is noted. -/
def UnnotedFrom (past new : History) : Prop :=
  ∀ a e b, new = a ++ e :: b → e.movesBytes = true → Unnoted (past ++ a) e b

/-- `last_active` is a reading of the clock after which nothing was noted. -/
def LastNoted (st : ClientState) (h : History) : Prop :=
  ∃ h₁ h₂, h = h₁ ++ ⟨.time, st.lastActive⟩ :: h₂ ∧
    UnnotedFrom (h₁ ++ [⟨.time, st.lastActive⟩]) h₂

variable {st st' : ClientState} {ev : ClientEvent} {tr past new later : History} {e : Io}

/-! ## Unnoted bytes -/

theorem endsInError_append (h : endsInError e new = true) (later : History) :
    endsInError e (new ++ later) = true := by
  unfold endsInError at h ⊢
  rw [List.takeWhile_append]
  split
  · rename_i hall
    rw [(List.takeWhile_prefix _).eq_of_length hall] at h
    rw [List.any_append, h, Bool.true_or]
  · exact h

theorem endsInError_of_fails (same : ∀ e' ∈ new, e.call.sameTransfer e'.call = true)
    (fails : new.any Io.fails = true) : endsInError e new = true := by
  unfold endsInError
  rw [List.takeWhile_eq_self_iff.mpr same]
  exact fails

theorem Unnoted.append (h : Unnoted past e new) (later : History) :
    Unnoted past e (new ++ later) := by
  rcases h with reading | reply | fails
  · exact .inl reading
  · exact .inr (.inl reply)
  · exact .inr (.inr (endsInError_append fails later))

theorem UnnotedFrom.append (first : UnnotedFrom past new)
    (second : UnnotedFrom (past ++ new) later) : UnnotedFrom past (new ++ later) := by
  intro a e b heq moves
  rcases List.append_eq_append_iff.mp heq with ⟨c, rfl, rfl⟩ | ⟨c, rfl, hc⟩
  · rw [← List.append_assoc]
    exact second c e b rfl moves
  · cases c with
    | nil =>
        rw [List.append_nil] at second
        exact second [] e b hc.symm moves |>.imp_left (by simp)
    | cons x c =>
        obtain ⟨rfl, rfl⟩ := List.cons.inj hc
        exact (first a e c rfl moves).append later

theorem UnnotedFrom.nil (past : History) : UnnotedFrom past [] := by
  intro a e b heq
  simp at heq

theorem UnnotedFrom.cons (first : e.movesBytes = true → Unnoted past e new)
    (rest : UnnotedFrom (past ++ [e]) new) : UnnotedFrom past (e :: new) := by
  intro a e' b heq moves
  cases a with
  | nil =>
      obtain ⟨rfl, rfl⟩ := List.cons.inj heq
      rw [List.append_nil]
      exact first moves
  | cons x a =>
      obtain ⟨rfl, rfl⟩ := List.cons.inj heq
      rw [List.append_cons]
      exact rest a e' b rfl moves

/-- A call that moves nothing needs no note. -/
theorem UnnotedFrom.still (h : e.movesBytes = false) (past : History) : UnnotedFrom past [e] := by
  refine .cons ?_ (.nil _)
  intro moves
  rw [h] at moves
  cases moves

/-- Calls without a peer move nothing. -/
theorem UpkeepOnly.still (h : UpkeepOnly new) {e : Io} (he : e ∈ new) : e.movesBytes = false := by
  obtain ⟨c, r⟩ := e
  have upkeep := h _ he
  cases c <;> first | rfl | cases upkeep

theorem UpkeepOnly.unnotedFrom (h : UpkeepOnly new) (past : History) : UnnotedFrom past new := by
  intro a e b heq moves
  rw [h.still (by simp [heq])] at moves
  cases moves

/-! ## The last activity -/

theorem LastNoted.unnoted (h : LastNoted st past) (same : st'.lastActive = st.lastActive)
    (quiet : UnnotedFrom past new) : LastNoted st' (past ++ new) := by
  obtain ⟨h₁, h₂, rfl, unnoted⟩ := h
  refine ⟨h₁, h₂ ++ new, by simp [same], ?_⟩
  rw [same]
  apply unnoted.append
  simpa using quiet

theorem LastNoted.active (st : ClientState) (past : History) (now : Int) :
    LastNoted { st with lastActive := now } (past ++ [⟨.time, now⟩]) := by
  refine ⟨past, [], rfl, ?_⟩
  intro a e b heq
  simp at heq

/-! ## Transfers -/

section Transfers

variable {side : Side} {fd : Fd} {capacity : Nat} {buffer buffer' : Bytes} {total r : Int}

/-- Once bytes arrived, only an error hides them. -/
theorem Receiving.fails (h : Receiving side fd capacity buffer total tr r buffer')
    (ok : Admitted tr) (htotal : 0 < total) (hidden : r ≤ 0) : tr.any Io.fails = true := by
  induction h with
  | more rest ih =>
      obtain ⟨-, hrest⟩ := List.forall_mem_cons.mp ok
      rw [List.any_cons, ih hrest (by omega) hidden, Bool.or_true]
  | ended =>
      rw [if_pos htotal] at hidden
      omega
  | blocked => omega
  | failed => rfl

theorem Receiving.unnotedFrom (h : Receiving side fd capacity buffer total tr r buffer')
    (ok : Admitted tr) (htotal : 0 ≤ total) (hidden : r ≤ 0) (past : History) :
    UnnotedFrom past tr := by
  induction h generalizing past with
  | @more buffer bs buffer' total r tr rest ih =>
      obtain ⟨hfirst, hrest⟩ := List.forall_mem_cons.mp ok
      have hbs : 0 < bs.length ∧ bs.length ≤ capacity - buffer.length := by
        simpa [Admits] using hfirst
      refine .cons (fun _ => .inr (.inr ?_)) (ih hrest (by omega) hidden _)
      apply endsInError_of_fails
      · intro e' he'
        obtain ⟨n, hcall⟩ := (rest.spec hrest (by omega)).1.calls e' he'
        rw [hcall]
        simp [Call.sameTransfer]
      · exact rest.fails hrest (by omega) hidden
  | ended => exact .still rfl past
  | blocked => exact .still rfl past
  | failed => exact .still rfl past

theorem Sending.fails (h : Sending side fd buffer total tr r buffer') (ok : Admitted tr)
    (htotal : 0 < total) (hidden : r ≤ 0) : tr.any Io.fails = true := by
  induction h with
  | drained => omega
  | more some' rest ih =>
      obtain ⟨-, hrest⟩ := List.forall_mem_cons.mp ok
      rw [List.any_cons, ih hrest (by omega) hidden, Bool.or_true]
  | refused =>
      -- a `send` of nothing is not within the socket contract
      have := ok _ (List.mem_singleton_self _)
      simp [Admits] at this
  | blocked => omega
  | failed => rfl

theorem Sending.unnotedFrom (h : Sending side fd buffer total tr r buffer') (ok : Admitted tr)
    (htotal : 0 ≤ total) (hidden : r ≤ 0) (past : History) : UnnotedFrom past tr := by
  induction h generalizing past with
  | drained => exact .nil past
  | more some' rest ih =>
      obtain ⟨-, hrest⟩ := List.forall_mem_cons.mp ok
      refine .cons (fun _ => .inr (.inr ?_)) (ih hrest (by omega) hidden _)
      apply endsInError_of_fails
      · intro e' he'
        obtain ⟨data, hcall⟩ := (rest.spec hrest (by omega)).calls e' he'
        rw [hcall]
        simp [Call.sameTransfer]
      · exact rest.fails hrest (by omega) hidden
  | refused =>
      have := ok _ (List.mem_singleton_self _)
      simp [Admits] at this
  | blocked => exact .still rfl past
  | failed => exact .still rfl past

/-- What a stage moves is noted, or it fails. -/
theorem LastNoted.transfer {t₁ t₂ : History} {st₁ : ClientState} (h : LastNoted st past)
    (same : st₁.lastActive = st.lastActive)
    (moved : r ≤ 0 → UnnotedFrom past t₁) (noted : Noted side r st₁ t₂ st') :
    LastNoted st' (past ++ (t₁ ++ t₂)) := by
  cases noted with
  | gone hneg =>
      rw [List.append_nil]
      refine h.unnoted ?_ (moved (Int.le_of_lt hneg))
      rw [← same]
      cases side <;> rfl
  | active hpos now =>
      rw [← List.append_assoc]
      exact .active st₁ (past ++ t₁) now
  | nothing hzero =>
      rw [List.append_nil]
      exact h.unnoted same (moved (Int.le_of_eq hzero))

theorem LastNoted.receive (h : LastNoted st past) (stage : ReceiveStage side st tr st')
    (ok : Admitted tr) : LastNoted st' (past ++ tr) := by
  cases stage with
  | skipped => rwa [List.append_nil]
  | done receiving noted =>
      refine h.transfer ?_ ?_ noted
      · cases side <;> rfl
      · intro hidden
        exact receiving.unnotedFrom ok.append.1 (Int.le_refl 0) hidden past

theorem LastNoted.send (h : LastNoted st past) (stage : SendStage side st tr st')
    (ok : Admitted tr) : LastNoted st' (past ++ tr) := by
  cases stage with
  | skipped => rwa [List.append_nil]
  | done sending noted =>
      refine h.transfer ?_ ?_ noted
      · cases side <;> rfl
      · intro hidden
        exact sending.unnotedFrom ok.append.1 (Int.le_refl 0) hidden past

theorem LastNoted.forward (h : LastNoted st past) (stages : ForwardStages side st tr st')
    (ok : Admitted tr) : LastNoted st' (past ++ tr) := by
  cases stages with
  | receiveSend receive send =>
      rw [← List.append_assoc]
      exact (h.receive receive ok.append.1).send send ok.append.2
  | sendReceive send receive =>
      rw [← List.append_assoc]
      exact (h.send send ok.append.1).receive receive ok.append.2

end Transfers

/-! ## The other handlers -/

/-- Only replies of the proxy move bytes. -/
def RepliesOnly (t : History) : Prop := ∀ e ∈ t, e.movesBytes = true → e.call.isReply = true

theorem RepliesOnly.append {t₁ t₂ : History} (h₁ : RepliesOnly t₁) (h₂ : RepliesOnly t₂) :
    RepliesOnly (t₁ ++ t₂) := fun e he => (List.mem_append.mp he).elim (h₁ e) (h₂ e)

theorem UpkeepOnly.repliesOnly (h : UpkeepOnly tr) : RepliesOnly tr := by
  intro e he moves
  rw [h.still he] at moves
  cases moves

theorem Replied.repliesOnly (h : Replied st tr st') : RepliesOnly tr := by
  cases h <;> simp [RepliesOnly, Call.isReply]

theorem Opened.repliesOnly (h : Opened st tr st') : RepliesOnly tr := by
  cases h with
  | inProgress => simp [RepliesOnly, Io.movesBytes]
  | atOnce _ _ reply =>
      exact .append (by simp [RepliesOnly, Io.movesBytes]) reply.repliesOnly

/-- Outside the relay and the reading of the request, the proxy only sends
replies. -/
theorem Move.repliesOnly {again : Bool} (h : Move ev st tr st' again)
    (relay : st.state ≠ .forwarding) (reading : st.state ≠ .readingRequest) :
    RepliesOnly tr := by
  have added : ∀ {t : History}, (∀ e ∈ t, Upkeep e.call = true) → RepliesOnly t :=
    fun upkeep => UpkeepOnly.repliesOnly upkeep
  cases h with
  | growFailed phase => exact absurd phase reading
  | readFailed phase => exact absurd phase reading
  | readNothing phase => exact absurd phase reading
  | readPart _ phase => exact absurd phase reading
  | readHeader _ phase => exact absurd phase reading
  | relayed phase => exact absurd phase relay
  | relayEnded phase => exact absurd phase relay
  | started _ _ opened => exact opened.repliesOnly.append (added (by simp [Upkeep]))
  | addFailed _ _ opened => exact opened.repliesOnly.append (added (by simp [Upkeep]))
  | connected _ reply register =>
      have checked : RepliesOnly [⟨.getsockopt st.targetFd, .code 0⟩] := by
        simp [RepliesOnly, Io.movesBytes]
      rw [← List.singleton_append]
      exact (checked.append reply.repliesOnly).append (added register.upkeep)
  | closed _ client target => exact added (client.upkeep.append target.upkeep)
  | _ => simp [RepliesOnly, Io.movesBytes, Call.isReply]

/-- While a request is read the client was not authenticated. -/
structure Activity (st : ClientState) (h : History) : Prop where
  noted : LastNoted st h
  reading : st.state = .readingRequest → callsOf .authenticating h = 0

theorem Activity.move {again : Bool} (h : Activity st past) (move : Move ev st tr st' again)
    (ok : Admitted tr) : LastNoted st' (past ++ tr) := by
  by_cases relay : st.state = .forwarding
  · obtain ⟨result, st₁, run, -, rfl⟩ := move.of_forwarding relay
    obtain ⟨side, stages⟩ := connectionForward_stages run
    have noted := h.noted.forward stages ok
    split
    · exact noted
    · exact noted
  · refine h.noted.unnoted (by rw [move.frame relay]) ?_
    intro a e b heq moves
    by_cases reading : st.state = .readingRequest
    · refine .inl ?_
      have made := move.callsOf_le ok .authenticating
      rw [if_neg (by simp [reading]), heq, callsOf_append] at made
      rw [callsOf_append, h.reading reading]
      omega
    · exact .inr (.inl (move.repliesOnly relay reading e (by simp [heq]) moves))

theorem activity_inv : SessionInv Activity (fun _ => True) where
  weaken _ := trivial
  start := trivial
  refused _ := trivial
  born := by
    intro fd t res registered _
    cases registered with
    | created now =>
        refine ⟨⟨[⟨.accept, .conn fd⟩, ⟨.malloc, true⟩], _, rfl, ?_⟩, fun _ => ?_⟩
        · exact UpkeepOnly.unnotedFrom (by simp [UpkeepOnly, Upkeep]) _
        · simp [callsOf, Call.phase?]
    | _ => trivial
  slot _ h := ⟨h.noted, h.reading⟩
  move := by
    intro ev st t st' again h act _ move ok
    refine ⟨act.move move ok, ?_⟩
    intro reading'
    have hle := move.value_le ok
    rw [reading'] at hle
    -- states only go up, so the client was reading before
    have reading : st.state = .readingRequest := by
      cases hstate : st.state <;> rw [hstate] at hle <;>
        first | rfl | exact absurd hle (by decide)
    have made := move.callsOf_le ok .authenticating
    rw [if_neg (by simp [reading])] at made
    rw [callsOf_append, act.reading reading]
    omega
  tick := by
    intro st t res h act ticked _
    have quiet := ticked.upkeep
    -- a tick reads the clock, and moves nothing
    have made : callsOf .authenticating (h ++ t) = callsOf .authenticating h := by
      rw [callsOf_append, quiet.callsOf_eq, Nat.add_zero]
    cases res with
    | none => trivial
    | some st' =>
        refine ⟨act.noted.unnoted ?_ (quiet.unnotedFrom h), fun reading => ?_⟩
        · cases ticked <;> rfl
        · rw [made]
          rw [ticked.target.1] at reading
          exact act.reading reading
  release _ _ _ := trivial

end SimpleProxy
