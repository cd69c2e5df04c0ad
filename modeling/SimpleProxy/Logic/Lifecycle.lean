import SimpleProxy.Main.LoopHandlers
import SimpleProxy.Logic.Moves

/-!
# Birth, ageing and death of a client state

What happens to a `ClientState` outside its own events: `epoll_register_client`
makes it, a timer tick may expire or release it, `free_client_state` releases
it. As with `Move`, each relation lists the calls with their results.
-/

namespace SimpleProxy

open Interact CString

/-- `close` on the client side, if it is open. -/
inductive ClientClosed (fd : Fd) : History → Prop
  | absent (h : fd = -1) : ClientClosed fd []
  | closed (h : fd ≠ -1) : ClientClosed fd [⟨.close .client fd, ()⟩]

/-- The calls of `free_client_state`. -/
inductive Released (st : ClientState) : History → Prop
  | both {t₁ t₂ : History} (client : ClientClosed st.clientFd t₁)
      (target : SideClosed .target st.targetFd t₂) : Released st (t₁ ++ t₂)

/-- `timeout_callback` on one client; `none` when it was released. -/
inductive Ticked (st : ClientState) : History → Option ClientState → Prop
  | active {now : Int} (recent : now - st.lastActive < 10) (live : st.expired = false) :
      Ticked st [⟨.time, now⟩] (some st)
  | released {now : Int} {t : History} (dead : st.expired = true) (release : Released st t) :
      Ticked st (⟨.time, now⟩ :: t) none
  | silenced {now : Int} (stale : 10 ≤ now - st.lastActive) (live : st.expired = false)
      (client : st.clientFd ≠ -1) (target : st.targetFd ≠ -1) (ok₁ ok₂ : Bool) :
      Ticked st [⟨.time, now⟩, ⟨.epollDel .client st.clientFd, ok₁⟩,
        ⟨.epollDel .target st.targetFd, ok₂⟩] (some { st with expired := true })
  | expired {now : Int} (stale : 10 ≤ now - st.lastActive) (live : st.expired = false)
      (half : st.clientFd = -1 ∨ st.targetFd = -1) :
      -- nothing is taken out of the interest set here
      Ticked st [⟨.time, now⟩] (some { st with expired := true })

/-- `epoll_register_client` on an accepted descriptor; `none` when it failed. -/
inductive Registered (fd : Fd) : History → Option ClientState → Prop
  | noState : Registered fd [⟨.malloc, false⟩, ⟨.close .client fd, ()⟩] none
  | noBuffers (now : Int) {ok₁ ok₂ : Bool} (failed : (ok₁ && ok₂) = false) :
      Registered fd [⟨.malloc, true⟩, ⟨.time, now⟩, ⟨.malloc, ok₁⟩, ⟨.malloc, ok₂⟩,
        ⟨.close .client fd, ()⟩] none
  | noData (now : Int) {t : History} (release : Released (ClientState.create fd now) t) :
      Registered fd ([⟨.malloc, true⟩, ⟨.time, now⟩, ⟨.malloc, true⟩, ⟨.malloc, true⟩,
        ⟨.malloc, false⟩] ++ t) none
  | addFailed (now : Int) {t : History} (release : Released (ClientState.create fd now) t) :
      Registered fd ([⟨.malloc, true⟩, ⟨.time, now⟩, ⟨.malloc, true⟩, ⟨.malloc, true⟩,
        ⟨.malloc, true⟩, ⟨.epollAdd .client fd ⟨true, false⟩ (some .client), false⟩] ++ t) none
  | created (now : Int) :
      Registered fd [⟨.malloc, true⟩, ⟨.time, now⟩, ⟨.malloc, true⟩, ⟨.malloc, true⟩,
        ⟨.malloc, true⟩, ⟨.epollAdd .client fd ⟨true, false⟩ (some .client), true⟩]
        (some (ClientState.create fd now))

variable {st : ClientState} {tr : History} {fd : Fd}

theorem freeClientState_runs {u : Unit} (h : (freeClientState st).Runs tr u) : Released st tr := by
  have target : ∀ {t : History}, (if st.targetFd ≠ -1 then do
      let _ ← perform (.epollDel .target st.targetFd)
      perform (.close .target st.targetFd) else pure () : Proc Unit).Runs t u →
      SideClosed .target st.targetFd t := by
    intro t h
    split at h
    · rename_i hopen
      obtain ⟨ok, rest, rfl, r, rest', rfl, rfl, -⟩ := h
      exact .closed hopen ok
    · rename_i habsent
      obtain ⟨rfl, -⟩ := h
      exact .absent (by simpa using habsent)
  unfold freeClientState at h
  dsimp only at h
  by_cases hclient : st.clientFd = -1
  · rw [if_neg (not_not_intro hclient)] at h
    exact .both (.absent hclient) (target h)
  · rw [if_pos hclient] at h
    obtain ⟨r, rest, rfl, h⟩ := h
    exact .both (.closed hclient) (target h)

theorem timeoutCallback_runs {res : Option ClientState} (h : (timeoutCallback st).Runs tr res) :
    Ticked st tr res := by
  rw [timeoutCallback, Prog.runs_perform_bind] at h
  obtain ⟨now, rest, rfl, h⟩ := h
  cases live : st.expired with
  | true =>
      rw [if_neg (by simp [live]), if_pos live, Prog.runs_bind] at h
      obtain ⟨_, t₁, t₂, rfl, hfree, rfl, rfl⟩ := h
      exact .released live (by simpa using freeClientState_runs hfree)
  | false =>
      by_cases recent : now - st.lastActive < 10
      · rw [if_pos (by simp [live, recent])] at h
        obtain ⟨rfl, rfl⟩ := h
        exact .active recent live
      · have stale : 10 ≤ now - st.lastActive := Int.not_lt.mp recent
        rw [if_neg (by simp [recent]), if_neg (by simp [live])] at h
        by_cases hclient : st.clientFd = -1
        · rw [if_neg (by simp [hclient])] at h
          obtain ⟨rfl, rfl⟩ := h
          exact .expired stale live (.inl hclient)
        · by_cases htarget : st.targetFd = -1
          · rw [if_neg (by simp [htarget])] at h
            obtain ⟨rfl, rfl⟩ := h
            exact .expired stale live (.inr htarget)
          · rw [if_pos (by simp [hclient, htarget])] at h
            obtain ⟨ok₁, rest, rfl, ok₂, rest, rfl, rfl, rfl⟩ := h
            exact .silenced stale live hclient htarget ok₁ ok₂

theorem createClientState_runs {res : Option ClientState}
    (h : (createClientState fd).Runs tr res) :
    (res = none ∧ (tr = [⟨.malloc, false⟩] ∨ ∃ now ok₁ ok₂, (ok₁ && ok₂) = false ∧
        tr = [⟨.malloc, true⟩, ⟨.time, now⟩, ⟨.malloc, ok₁⟩, ⟨.malloc, ok₂⟩])) ∨
      ∃ now, res = some (ClientState.create fd now) ∧
        tr = [⟨.malloc, true⟩, ⟨.time, now⟩, ⟨.malloc, true⟩, ⟨.malloc, true⟩] := by
  rw [createClientState, Prog.runs_perform_bind] at h
  obtain ⟨room, rest, rfl, h⟩ := h
  cases room with
  | false =>
      obtain ⟨rfl, rfl⟩ := h
      exact .inl ⟨rfl, .inl rfl⟩
  | true =>
      obtain ⟨now, rest, rfl, ok₁, rest, rfl, ok₂, rest, rfl, h⟩ := h
      cases ok₁ <;> cases ok₂ <;> obtain ⟨rfl, rfl⟩ := h
      · exact .inl ⟨rfl, .inr ⟨now, false, false, rfl, rfl⟩⟩
      · exact .inl ⟨rfl, .inr ⟨now, false, true, rfl, rfl⟩⟩
      · exact .inl ⟨rfl, .inr ⟨now, true, false, rfl, rfl⟩⟩
      · exact .inr ⟨now, rfl, rfl⟩

/-- The program of a party, at the start of a run. -/
theorem runs_by_bind {α β : Type} {who : Party} {p : Proc α} {next : α → SysProc β}
    {tr : List (Exchange (ByParty Party Answer))} {b : β} (h : (p.by who >>= next).Runs tr b) :
    ∃ a t rest, tr = t.map (Exchange.by who) ++ rest ∧ p.Runs t a ∧ (next a).Runs rest b := by
  rw [Prog.runs_bind] at h
  obtain ⟨a, t₁, t₂, rfl, hrun, hrest⟩ := h
  obtain ⟨t, rfl, hparty⟩ := Prog.runs_by.mp hrun
  exact ⟨a, t, t₂, rfl, hparty, hrest⟩

/-- What `epoll_register_client` leaves on the heap: the new state, or nothing of it. -/
theorem epollRegisterClient_runs {mem mem' : Memory} {c : ClientId} {res : Option ClientState}
    {tr : List (Exchange (ByParty Party Answer))}
    (h : (epollRegisterClient mem c fd).Runs tr (res, mem')) :
    ∃ t, tr = t.map (Exchange.by (.client c)) ∧ Registered fd t res ∧
      (∀ st, res = some st → mem' = mem.write c st) ∧
      (res = none → mem' = mem ∨ mem' = mem.free c) := by
  obtain ⟨created, t₁, rest, rfl, hcreate, hrest⟩ := runs_by_bind h
  clear h
  rcases createClientState_runs hcreate with ⟨rfl, hfailed⟩ | ⟨now, rfl, rfl⟩
  · obtain ⟨_, _, rfl, rfl, hres⟩ := hrest
    cases hres
    refine ⟨t₁ ++ [⟨.close .client fd, ()⟩], by simp [Exchange.by], ?_, fun _ => nofun,
      fun _ => .inl rfl⟩
    -- the state itself was not allocated, or one of its buffers
    rcases hfailed with rfl | ⟨now, ok₁, ok₂, hfailed, rfl⟩
    · exact .noState
    · exact .noBuffers now hfailed
  · -- from here on a failure frees the state
    have freed : ∀ {t rest}, (((freeClientState (ClientState.create fd now)).by (.client c) >>=
        fun _ => pure (none, (mem.write c (ClientState.create fd now)).free c)) :
          SysProc (Option ClientState × Memory)).Runs rest (res, mem') →
        (∀ {t'}, Released (ClientState.create fd now) t' → Registered fd (t ++ t') none) →
        ∃ t', rest = t'.map (Exchange.by (.client c)) ∧ Registered fd (t ++ t') res ∧
          (∀ st, res = some st → mem' = mem.write c st) ∧
          (res = none → mem' = mem ∨ mem' = mem.free c) := by
      intro t rest h failed
      obtain ⟨_, t', _, rfl, hfree, rfl, hres⟩ := runs_by_bind h
      cases hres
      exact ⟨t', by simp, failed (freeClientState_runs hfree), fun _ => nofun,
        fun _ => .inr (mem.free_write c _)⟩
    obtain ⟨data, t₂, rest, rfl, hdata, hadd⟩ := runs_by_bind hrest
    clear hrest
    obtain ⟨room, t, rfl, rfl, rfl⟩ := hdata
    cases room with
    | false =>
        obtain ⟨t', rfl, hregistered, hmem⟩ := freed hadd (Registered.noData now)
        exact ⟨_, by simp, hregistered, hmem⟩
    | true =>
        obtain ⟨added, rest, rfl, hlast⟩ := hadd
        cases added with
        | true =>
            obtain ⟨rfl, hres⟩ := hlast
            cases hres
            refine ⟨_, ?_, .created now, ?_, nofun⟩
            · simp [Exchange.by]
            · intro st hst
              cases hst
              rfl
        | false =>
            obtain ⟨t', rfl, hregistered, hmem⟩ := freed hlast (Registered.addFailed now)
            exact ⟨_, by simp [Exchange.by], hregistered, hmem⟩

/-! ## Upkeep -/

/-- Calls without a peer: memory, clock, epoll, closing. -/
def Upkeep : Call → Bool
  | .time => true
  | .malloc => true
  | .epollAdd .. => true
  | .epollMod .. => true
  | .epollDel .. => true
  | .close .. => true
  | _ => false

/-- A history of such calls. -/
def UpkeepOnly (t : History) : Prop := ∀ e ∈ t, Upkeep e.call = true

theorem UpkeepOnly.append {t₁ t₂ : History} (h₁ : UpkeepOnly t₁) (h₂ : UpkeepOnly t₂) :
    UpkeepOnly (t₁ ++ t₂) := fun e he => (List.mem_append.mp he).elim (h₁ e) (h₂ e)

variable {st' : ClientState} {side : Side}

theorem MadeRoom.upkeep (h : MadeRoom st tr st') : UpkeepOnly tr := by
  cases h <;> simp [UpkeepOnly, Upkeep]

theorem Registering.upkeep {clientFd targetFd : Fd} (h : Registering clientFd targetFd tr) :
    UpkeepOnly tr := by
  cases h <;> simp [UpkeepOnly, Upkeep]

theorem SideClosed.upkeep (h : SideClosed side fd tr) : UpkeepOnly tr := by
  cases h <;> simp [UpkeepOnly, Upkeep]

theorem Released.upkeep (h : Released st tr) : UpkeepOnly tr := by
  cases h with
  | both client target =>
      refine .append ?_ target.upkeep
      cases client <;> simp [UpkeepOnly, Upkeep]

theorem Ticked.upkeep {res : Option ClientState} (h : Ticked st tr res) : UpkeepOnly tr := by
  cases h with
  | released _ release => simpa [UpkeepOnly, Upkeep] using release.upkeep
  | _ => simp [UpkeepOnly, Upkeep]

theorem Registered.upkeep {res : Option ClientState} (h : Registered fd tr res) :
    UpkeepOnly tr := by
  cases h with
  | noData _ release => exact .append (by simp [UpkeepOnly, Upkeep]) release.upkeep
  | addFailed _ release => exact .append (by simp [UpkeepOnly, Upkeep]) release.upkeep
  | _ => simp [UpkeepOnly, Upkeep]

end SimpleProxy
