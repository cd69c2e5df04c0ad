import SimpleProxy.Logic.Descriptors

/-!
# What stays open

Every open descriptor that was opened for a client is in one of its two fields. Closing what
belongs to somebody else, which `owned_reachable` excludes in some runs only, does not matter
here: it leaves fewer descriptors open.
-/

namespace SimpleProxy

open Interact CString

/-- Whether `fd` is open for the acting client after a call, given whether it was before. -/
def OpenStep (fd : Fd) (before : Prop) (e : Io) : Prop :=
  match e.fdEffect with
  | .opens f => f = fd ∨ before
  | .closes f => f ≠ fd ∧ before
  | _ => before

/-- The same for a list of calls. -/
def OpenAfter (fd : Fd) (before : Prop) (tr : History) : Prop := tr.foldl (OpenStep fd) before

variable {fd : Fd} {b b' : Prop} {tr t₁ t₂ : History} {e : Io}

theorem openStep_mono (h : b → b') (hb : OpenStep fd b e) : OpenStep fd b' e := by
  unfold OpenStep at hb ⊢
  split at hb
  · exact hb.imp_right h
  · exact ⟨hb.1, h hb.2⟩
  · exact h hb

theorem openAfter_mono (h : b → b') (hb : OpenAfter fd b tr) : OpenAfter fd b' tr := by
  induction tr generalizing b b' with
  | nil => exact h hb
  | cons e tr ih => exact ih (openStep_mono h) hb

theorem openAfter_append :
    OpenAfter fd b (t₁ ++ t₂) ↔ OpenAfter fd (OpenAfter fd b t₁) t₂ := by
  rw [OpenAfter, List.foldl_append]
  rfl

/-- Calls that open nothing. -/
theorem Idle.openAfter (h : Idle tr) (hb : OpenAfter fd b tr) : b := by
  induction tr generalizing b with
  | nil => exact hb
  | cons e tr ih =>
      have hb : OpenStep fd b e := ih (fun e' he => h e' (List.mem_cons_of_mem _ he)) hb
      have held := h e List.mem_cons_self
      unfold OpenStep at hb
      split at hb
      · rename_i f eff
        obtain ⟨-, same⟩ := Option.ite_none_right_eq_some.mp (held [])
        rw [eff] at same
        cases same
      · exact hb.2
      · exact hb

namespace Kernel

variable {k k₁ k' : Kernel} {who who' : Party}

theorem Effect.open' (h : Effect k who e k₁) (hopen : k₁.fds fd = some who) :
    OpenStep fd (k.fds fd = some who) e := by
  cases h with
  | @opened f eff =>
      by_cases hf : f = fd
      · simp [OpenStep, eff, hf]
      · simpa [OpenStep, eff, hf] using by simpa [openFd, Ne.symm hf] using hopen
  | @closed f eff =>
      by_cases hf : f = fd
      · simp [closeFd, hf] at hopen
      · simpa [OpenStep, eff, hf] using by simpa [closeFd, Ne.symm hf] using hopen
  | registered eff => simpa [OpenStep, eff, register] using hopen
  | unregistered eff => simpa [OpenStep, eff, register] using hopen
  | nothing eff => simpa [OpenStep, eff] using hopen

/-- Nobody opens a descriptor for somebody else. -/
theorem Effect.open_other (h : Effect k who e k₁) (hwho : who ≠ who')
    (hopen : k₁.fds fd = some who') : k.fds fd = some who' := by
  cases h with
  | @opened f eff =>
      by_cases hf : f = fd
      · subst hf
        simp [openFd] at hopen
        exact absurd hopen hwho
      · simpa [openFd, Ne.symm hf] using hopen
  | @closed f eff =>
      by_cases hf : f = fd
      · simp [closeFd, hf] at hopen
      · simpa [closeFd, Ne.symm hf] using hopen
  | registered eff => exact hopen
  | unregistered eff => exact hopen
  | nothing eff => exact hopen

theorem Ran.open' (h : k.Ran who tr k') (hopen : k'.fds fd = some who) :
    OpenAfter fd (k.fds fd = some who) tr := by
  induction tr generalizing k with
  | nil => exact ran_nil.mp h ▸ hopen
  | cons e tr ih =>
      obtain ⟨k₁, hstep, hrest⟩ := ran_cons.mp h
      obtain ⟨k₂, heff, hfds, -⟩ := step_effect hstep
      have first : k₁.fds fd = some who → OpenStep fd (k.fds fd = some who) e := fun h₁ =>
        heff.open' (hfds ▸ h₁)
      show OpenAfter fd (OpenStep fd (k.fds fd = some who) e) tr
      exact openAfter_mono first (ih hrest)

theorem Ran.open_other (h : k.Ran who tr k') (hwho : who ≠ who') (hopen : k'.fds fd = some who') :
    k.fds fd = some who' := by
  refine h.induct (J := fun k' => k'.fds fd = some who' → k.fds fd = some who') id ?_ hopen
  intro k₁ e k₂ _ hk hstep h₂
  obtain ⟨k₃, heff, hfds, -⟩ := step_effect hstep
  exact hk (heff.open_other hwho (hfds ▸ h₂))

end Kernel

/-! ## The handlers -/

/-- What is open for a client is in a field of its state, and a client that is gone has nothing
open. -/
def Held (c : ClientId) : Option ClientState → Kernel → Prop
  | none, k => k.Wf ∧ ∀ fd, k.fds fd ≠ some (.client c)
  | some st, k => k.Wf ∧ (Untargeted st.state = true → st.targetFd = -1) ∧
      ∀ fd, k.fds fd = some (.client c) → ∃ side : Side, st.fd side = fd

variable {c : ClientId} {st st' : ClientState} {k k' : Kernel} {ev : ClientEvent} {again : Bool}

theorem SideClosed.openAfter {side : Side} {f : Fd} (h : SideClosed side f tr) (hfd : 0 ≤ fd)
    (hb : OpenAfter fd b tr) : f ≠ fd ∧ b := by
  cases h with
  | absent hf =>
      refine ⟨?_, hb⟩
      rintro rfl
      rw [hf] at hfd
      exact absurd hfd (by decide)
  | closed hf ok => cases ok <;> exact hb

theorem ClientClosed.openAfter {f : Fd} (h : ClientClosed f tr) (hfd : 0 ≤ fd)
    (hb : OpenAfter fd b tr) : f ≠ fd ∧ b := by
  cases h with
  | absent hf =>
      refine ⟨?_, hb⟩
      rintro rfl
      rw [hf] at hfd
      exact absurd hfd (by decide)
  | closed hf => exact hb

/-- `connection_connect` opens the target. -/
theorem Opened.openAfter (h : Opened st tr st') (hb : OpenAfter fd b tr) : st'.targetFd = fd ∨ b := by
  cases h with
  | inProgress => exact hb
  | atOnce f addr reply =>
      rw [reply.fds_eq.2]
      exact reply.idle.openAfter (openAfter_append.mp hb)

namespace Held

theorem nonneg (h : Held c (some st) k) (ran : k.Ran (.client c) tr k')
    (hopen : k'.fds fd = some (.client c)) : 0 ≤ fd :=
  (ran.wf h.1).nonneg fd (by simp [hopen])

/-- Calls after which the fields still have what is open. -/
theorem of_fields (h : Held c (some st) k) (ran : k.Ran (.client c) tr k')
    (early : Untargeted st'.state = true → st'.targetFd = -1)
    (fields : ∀ fd, 0 ≤ fd → OpenAfter fd (∃ side : Side, st.fd side = fd) tr →
      ∃ side : Side, st'.fd side = fd) : Held c (some st') k' := by
  refine ⟨ran.wf h.1, early, fun fd hopen => fields fd (h.nonneg ran hopen) ?_⟩
  exact openAfter_mono (h.2.2 fd) (ran.open' hopen)

/-- Calls that open nothing, on a state that keeps its descriptors. -/
theorem keep (h : Held c (some st) k) (ran : k.Ran (.client c) tr k') (idle : Idle tr)
    (same : st'.clientFd = st.clientFd ∧ st'.targetFd = st.targetFd)
    (hstate : Untargeted st'.state = true → Untargeted st.state = true) :
    Held c (some st') k' := by
  refine h.of_fields ran (fun hst => same.2.trans (h.2.1 (hstate hst))) fun fd _ hb => ?_
  obtain ⟨side, rfl⟩ := idle.openAfter hb
  cases side with
  | client => exact ⟨.client, same.1⟩
  | target => exact ⟨.target, same.2⟩

/-- Calls that change the target, of which nothing else is left open. -/
theorem retarget (h : Held c (some st) k) (ran : k.Ran (.client c) tr k')
    (hclient : st'.clientFd = st.clientFd) (hstate : Untargeted st'.state = false)
    (lost : ∀ fd, 0 ≤ fd → OpenAfter fd (∃ side : Side, st.fd side = fd) tr →
      st'.targetFd = fd ∨ st.targetFd ≠ fd ∧ ∃ side : Side, st.fd side = fd) :
    Held c (some st') k' := by
  refine h.of_fields ran (fun hst => absurd hst (by simp [hstate])) fun fd hfd hb => ?_
  rcases lost fd hfd hb with target | ⟨other, side, hside⟩
  · exact ⟨.target, target⟩
  · cases side with
    | client => exact ⟨.client, hclient.trans hside⟩
    | target => exact absurd hside other

theorem move (h : Held c (some st) k) (move : Move ev st tr st' again)
    (ran : k.Ran (.client c) tr k') : Held c (some st') k' := by
  have single : ∀ {e : Io}, e.call.releases? = none → e.fdEffect = .nothing → Idle [e] := by
    intro e hrel heff
    simp [Idle, Io.holding, hrel, heff]
  cases move with
  | growFailed => exact h.keep ran (single rfl rfl) ⟨rfl, rfl⟩ (by simp [Untargeted])
  | readFailed phase room =>
      exact h.keep ran (room.idle.append (single rfl rfl)) room.fds_eq (by simp [Untargeted])
  | readNothing phase room =>
      exact h.keep ran (room.idle.append (single rfl rfl)) room.fds_eq (by simp [phase, Untargeted])
  | readPart bs phase room =>
      exact h.keep ran (room.idle.append (single rfl rfl)) room.fds_eq (by simp [phase, Untargeted])
  | readHeader bs phase room =>
      exact h.keep ran (room.idle.append (single rfl rfl)) room.fds_eq (by simp [phase, Untargeted])
  | rejected =>
      exact h.keep ran (.append (single rfl rfl) (single rfl rfl)) ⟨rfl, rfl⟩ (by simp [Untargeted])
  | noHost => exact h.keep ran (single rfl rfl) ⟨rfl, rfl⟩ (by simp [Untargeted])
  | accepted phase => exact h.keep ran (single rfl rfl) ⟨rfl, rfl⟩ (by simp [phase, Untargeted])
  | unresolved => exact h.keep ran (single rfl rfl) ⟨rfl, rfl⟩ (by simp [Untargeted])
  | noSocket addr phase =>
      have none' : st.targetFd = -1 := h.2.1 (by rw [phase]; rfl)
      exact h.keep ran (.append (single rfl rfl) (single rfl rfl)) ⟨rfl, none'.symm⟩
        (by simp [Untargeted])
  | refused f addr phase =>
      -- what `socket` opened is closed again
      have none' : st.targetFd = -1 := h.2.1 (by rw [phase]; rfl)
      refine h.retarget ran rfl rfl fun fd hfd hb => .inr ⟨?_, ?_⟩
      · rw [none']
        rintro rfl
        exact absurd hfd (by decide)
      · exact hb.2.resolve_left hb.1
  | @started o st₁ room phase opened =>
      have none' : st.targetFd = -1 := h.2.1 (by rw [phase]; rfl)
      refine h.retarget ran opened.clientFd_eq rfl fun fd hfd hb => ?_
      have hb : OpenAfter fd (∃ side : Side, st.fd side = fd) o := openAfter_append.mp hb
      rcases opened.openAfter hb with target | before
      · exact .inl target
      · refine .inr ⟨?_, before⟩
        rw [none']
        rintro rfl
        exact absurd hfd (by decide)
  | addFailed room phase opened =>
      have none' : st.targetFd = -1 := h.2.1 (by rw [phase]; rfl)
      refine h.retarget ran opened.clientFd_eq rfl fun fd hfd hb => .inr ⟨?_, ?_⟩
      · rw [none']
        rintro rfl
        exact absurd hfd (by decide)
      · obtain ⟨other, hb⟩ := openAfter_append.mp hb
        exact (opened.openAfter hb).resolve_left other
  | connectFailed phase failed =>
      exact h.retarget ran rfl rfl fun fd hfd hb => .inr hb
  | connected phase reply register =>
      exact h.keep ran (.append (.append (single rfl rfl) reply.idle) register.idle) reply.fds_eq
        (by simp [Untargeted])
  | relayed phase run =>
      have spec : TransferSpec st st' tr := (connectionForward_runs run ran.admitted).1
      exact h.keep ran spec.idle spec.fds_eq (by rw [spec.frame]; exact id)
  | relayEnded phase ended run =>
      have spec := (connectionForward_runs run ran.admitted).1
      exact h.keep ran spec.idle spec.fds_eq (by simp [Untargeted])
  | closed phase client target =>
      refine h.of_fields ran (fun _ => rfl) fun fd hfd hb => ?_
      obtain ⟨htarget, hb⟩ := target.openAfter hfd (openAfter_append.mp hb)
      obtain ⟨hclient, side, rfl⟩ := client.openAfter hfd hb
      cases side with
      | client => exact absurd rfl hclient
      | target => exact absurd rfl htarget

/-- A client that is released leaves nothing open. -/
theorem release (h : Held c (some st) k) (released : Released st tr)
    (ran : k.Ran (.client c) tr k') : Held c none k' := by
  refine ⟨ran.wf h.1, fun fd hopen => ?_⟩
  have hfd := h.nonneg ran hopen
  have hb := openAfter_mono (h.2.2 fd) (ran.open' hopen)
  obtain ⟨client, target⟩ := released
  obtain ⟨htarget, hb⟩ := target.openAfter hfd (openAfter_append.mp hb)
  obtain ⟨hclient, side, rfl⟩ := client.openAfter hfd hb
  cases side with
  | client => exact hclient rfl
  | target => exact htarget rfl

theorem tick {s : Option ClientState} (h : Held c (some st) k) (ticked : Ticked st tr s)
    (ran : k.Ran (.client c) tr k') : Held c s k' := by
  cases ticked with
  | active => exact h.of_fields ran h.2.1 fun fd _ hb => hb
  | released dead release =>
      obtain ⟨k₁, first, rest⟩ := Kernel.ran_cons_iff.mp ran
      exact Held.release (h.of_fields first h.2.1 fun fd _ hb => hb) release rest
  | silenced stale live client target ok₁ ok₂ =>
      refine h.of_fields ran h.2.1 fun fd _ hb => ?_
      cases ok₁ <;> cases ok₂ <;> exact hb
  | expired => exact h.of_fields ran h.2.1 fun fd _ hb => hb

/-- A new client has the descriptor it was accepted on. -/
theorem fresh {f : Fd} {now : Int} (h : Held c none k) (ran : k.Ran (.client c) tr k')
    (opens : ∀ fd b, OpenAfter fd b tr → f = fd ∨ b) :
    Held c (some (ClientState.create f now)) k' := by
  refine ⟨ran.wf h.1, fun _ => rfl, fun fd hopen => ?_⟩
  rcases opens fd _ (ran.open' hopen) with rfl | before
  · exact ⟨.client, rfl⟩
  · exact absurd before (h.2 fd)

theorem born {f : Fd} {s : Option ClientState} (h : Held c none k) (registered : Registered f tr s)
    (ran : k.Ran (.client c) (⟨.accept, .conn f⟩ :: tr) k') : Held c s k' := by
  -- what was accepted is closed again
  have gone : ∀ {t : History}, k.Ran (.client c) t k' →
      (∀ fd b, OpenAfter fd b t → f ≠ fd ∧ (f = fd ∨ b)) → Held c none k' := by
    intro t ran closes
    refine ⟨ran.wf h.1, fun fd hopen => ?_⟩
    obtain ⟨other, same | before⟩ := closes fd _ (ran.open' hopen)
    · exact other same
    · exact h.2 fd before
  cases registered with
  | noState => exact gone ran fun fd b hb => hb
  | noBuffers now failed => exact gone ran fun fd b hb => hb
  | noData now release =>
      obtain ⟨k₁, first, rest⟩ := Kernel.ran_cons_append.mp ran
      exact Held.release (h.fresh first fun fd b hb => hb) release rest
  | addFailed now release =>
      obtain ⟨k₁, first, rest⟩ := Kernel.ran_cons_append.mp ran
      exact Held.release (h.fresh first fun fd b hb => hb) release rest
  | created now => exact h.fresh ran fun fd b hb => hb

/-- The calls of others leave open what they leave open. -/
theorem other {s : Option ClientState} {who : Party} (h : Held c s k) (ran : k.Ran who tr k')
    (hwho : who ≠ .client c) : Held c s k' := by
  cases s with
  | none => exact ⟨ran.wf h.1, fun fd hopen => h.2 fd (ran.open_other hwho hopen)⟩
  | some st => exact ⟨ran.wf h.1, h.2.1, fun fd hopen => h.2.2 fd (ran.open_other hwho hopen)⟩

/-- An event of a client is a chain of moves. -/
theorem moves (h : Held c (some st) k) (moves : Moves ev st tr st') (ran : k.Ran (.client c) tr k') :
    Held c (some st') k' := by
  induction moves generalizing k with
  | ignored _ => exact Kernel.ran_nil.mp ran ▸ h
  | last _ move => exact h.move move ran
  | again _ move _ ih =>
      obtain ⟨k₁, first, rest⟩ := Kernel.ran_append.mp ran
      exact ih (h.move move first) rest

end Held

/-! ## All clients -/

variable {mem mem' : Memory}

/-- Every client, those that are gone and those to come among them. -/
structure AllHeld (mem : Memory) (k : Kernel) : Prop where
  held : ∀ c, Held c (mem.heap c) k
  unborn : ∀ c, mem.nextId ≤ c → mem.heap c = none

namespace AllHeld

/-- One client acts, and the others stay as they are. -/
theorem act (all : AllHeld mem k) (ran : k.Ran (.client c) tr k')
    (heap : ∀ d, d ≠ c → mem'.heap d = mem.heap d) (born : ∀ d, mem'.nextId ≤ d → d ≠ c)
    (next : mem.nextId ≤ mem'.nextId) (mine : Held c (mem'.heap c) k') : AllHeld mem' k' := by
  refine ⟨fun d => ?_, fun d hd => ?_⟩
  · by_cases hdc : d = c
    · exact hdc ▸ mine
    · rw [heap d hdc]
      exact (all.held d).other ran (by simpa using Ne.symm hdc)
  · rw [heap d (born d hd)]
    exact all.unborn d (le_trans next hd)

theorem birth (all : AllHeld mem k) (birth : Birth mem k mem' k') : AllHeld mem' k' := by
  have none' : mem.heap mem.nextId = none := all.unborn _ (le_refl _)
  have fresh : Held mem.nextId none k := none' ▸ all.held mem.nextId
  have born : ∀ d, mem.nextId + 1 ≤ d → d ≠ mem.nextId := fun _ => Nat.ne_of_gt
  have freed : { mem with nextId := mem.nextId + 1 }.free mem.nextId =
      { mem with nextId := mem.nextId + 1 } := Memory.free_of_absent none'
  cases birth with
  | @refused r _ refusal ran =>
      refine all.act ran (fun _ _ => rfl) born (Nat.le_succ _) ?_
      have still : ∀ fd b, OpenAfter fd b [(⟨.accept, r⟩ : Io)] → b := by
        intro fd b hb
        rcases refusal with rfl | rfl <;> exact hb
      rw [none']
      exact ⟨ran.wf fresh.1, fun fd hopen => fresh.2 fd (still _ _ (ran.open' hopen))⟩
  | unregistered failed left ran =>
      rw [freed, or_self] at left
      rw [left]
      refine all.act ran (fun _ _ => rfl) born (Nat.le_succ _) ?_
      rw [none']
      exact fresh.born failed ran
  | turnedAway created full release ran =>
      rw [freed]
      refine all.act ran (fun _ _ => rfl) born (Nat.le_succ _) ?_
      rw [none']
      obtain ⟨k₁, first, rest⟩ := Kernel.ran_append.mp ran
      exact (fresh.born created first).release release rest
  | registered created added ran =>
      refine all.act ran (fun d hd => by simp [Memory.write, hd]) born (Nat.le_succ _) ?_
      have held := fresh.born created ran
      simp only [Memory.write, Function.update_self]
      exact held

theorem kept : Kept AllHeld where
  birth := birth
  readTimer all ran := ⟨fun c => (all.held c).other ran (by simp), all.unborn⟩
  sweep := by
    intro slot mem k mem' k' all sweep
    cases sweep with
    | empty => exact all
    | @kept c st st' tr _ _ live ticked ran =>
        have held : Held c (some st) k := live ▸ all.held c
        refine all.act ran (fun d hd => by simp [Memory.write, hd]) ?_ (le_refl _) ?_
        · rintro d hd rfl
          rw [all.unborn d hd] at live
          cases live
        · simpa [Memory.write] using held.tick ticked ran
    | @freed c st tr _ _ live ticked ran =>
        have held : Held c (some st) k := live ▸ all.held c
        refine all.act ran (fun d hd => by simp [Memory.free, hd]) ?_ (le_refl _) ?_
        · rintro d hd rfl
          rw [all.unborn d hd] at live
          cases live
        · simpa [Memory.free] using held.tick ticked ran
  event := by
    intro mem k c st ev tr st' k' all live moves ran
    have held : Held c (some st) k := live ▸ all.held c
    refine all.act ran (fun d hd => by simp [Memory.write, hd]) ?_ (le_refl _) ?_
    · rintro d hd rfl
      rw [all.unborn d hd] at live
      cases live
    · simpa [Memory.write] using held.moves moves ran

theorem boot {w : World} (h : w.Booted) : AllHeld w.mem w.kernel := by
  have wf := Kernel.boot_wf h
  obtain ⟨serverSock, epollFd, timerFd, -, -, -, -, rfl⟩ := h
  refine ⟨fun c => ⟨wf, fun fd hopen => ?_⟩, fun _ _ => rfl⟩
  simp only [World.boot] at hopen
  split at hopen <;> cases hopen

end AllHeld

/-- In every reachable world, what is open for a client is in a field of its state. -/
theorem held_reachable {w : World} (h : proxy.Reachable w) (c : ClientId) :
    Held c (w.mem.heap c) w.kernel :=
  (AllHeld.kept.reachable (fun _ => AllHeld.boot) h).held c

end SimpleProxy
