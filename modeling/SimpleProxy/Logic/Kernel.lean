import SimpleProxy.Main.RunLoop

/-!
# Runs of one party in the kernel

A handler makes its calls on behalf of one party. `Kernel.Ran` is such a run of
calls, seen from the kernel; `Kernel.Effect` says once what a single call
can do to it.
-/

namespace SimpleProxy

open Interact CString

/-- From `k`, party `who` made the calls `tr`, and the kernel is `k'` then. -/
def Kernel.Ran (k : Kernel) (who : Party) (tr : History) (k' : Kernel) : Prop :=
  Kernel.env.run k (tr.map (Exchange.by who)) = some k'

/-- All results are within the socket contract. -/
def Admitted (tr : History) : Prop := ∀ e ∈ tr, Admits e.call e.answer = true

theorem Admitted.append {t₁ t₂ : History} (h : Admitted (t₁ ++ t₂)) : Admitted t₁ ∧ Admitted t₂ :=
  ⟨fun e he => h e (List.mem_append_left _ he), fun e he => h e (List.mem_append_right _ he)⟩

theorem Admitted.tail {e : Io} {t : History} (h : Admitted (e :: t)) : Admitted t :=
  (List.forall_mem_cons.mp h).2

/-- The calls made for client `c`. -/
def Kernel.history (k : Kernel) (c : ClientId) : History :=
  k.trace.filterMap fun entry => if entry.who = .client c then some entry.io else none

/-! ## What a call does to the kernel -/

/-- What a call can do to the descriptors. -/
inductive FdEffect
  | opens (fd : Fd)
  | closes (fd : Fd)
  | registers (fd : Fd) (events : EpollMask) (data : Option EpollFdType)
  | unregisters (fd : Fd)
  | nothing

def Io.fdEffect : Io → FdEffect
  | ⟨.socket, some fd⟩ => .opens fd
  | ⟨.accept, .conn fd⟩ => .opens fd
  | ⟨.close _ fd, ()⟩ => .closes fd
  | ⟨.epollAdd _ fd events data, true⟩ => .registers fd events data
  | ⟨.epollMod _ fd events data, true⟩ => .registers fd events data
  | ⟨.epollDel _ fd, true⟩ => .unregisters fd
  | _ => .nothing

namespace Kernel

/-- One case for each thing a call can do. -/
inductive Effect (k : Kernel) (who : Party) (e : Io) : Kernel → Prop
  | opened {fd : Fd} (eff : e.fdEffect = .opens fd) (nonneg : 0 ≤ fd) (free : k.fds fd = none) :
      Effect k who e (k.openFd fd who)
  | closed {fd : Fd} (eff : e.fdEffect = .closes fd) : Effect k who e (k.closeFd fd)
  | registered {fd : Fd} {events : EpollMask} {data : Option EpollFdType}
      (eff : e.fdEffect = .registers fd events data)
      (known : k.fds fd ≠ none ∨ k.interest fd ≠ none) :
      Effect k who e
        (k.register fd (some ⟨events, data.map fun t => ⟨t, who.clientState⟩⟩))
  | unregistered {fd : Fd} (eff : e.fdEffect = .unregisters fd) (known : k.interest fd ≠ none) :
      Effect k who e (k.register fd none)
  | nothing (eff : e.fdEffect = .nothing) : Effect k who e k

variable {k k₁ k' : Kernel} {who : Party} {e : Io} {tr t₁ t₂ : History}

theorem ran_nil : k.Ran who [] k' ↔ k' = k :=
  ⟨fun h => (Option.some.inj h).symm, fun h => congrArg some h.symm⟩

theorem ran_cons :
    k.Ran who (e :: tr) k' ↔
      ∃ k₁, env.step k (who, e.call) e.answer = some k₁ ∧ k₁.Ran who tr k' := by
  simp only [Ran, List.map_cons, Env.run, Exchange.by, Option.bind_eq_some_iff]

theorem ran_append : k.Ran who (t₁ ++ t₂) k' ↔ ∃ k₁, k.Ran who t₁ k₁ ∧ k₁.Ran who t₂ k' := by
  simp only [Ran, List.map_append, Env.run_append, Option.bind_eq_some_iff]

theorem ran_cons_iff : k.Ran who (e :: tr) k' ↔ ∃ k₁, k.Ran who [e] k₁ ∧ k₁.Ran who tr k' :=
  show k.Ran who ([e] ++ tr) k' ↔ _ from ran_append

theorem ran_cons_append :
    k.Ran who (e :: (t₁ ++ t₂)) k' ↔ ∃ k₁, k.Ran who (e :: t₁) k₁ ∧ k₁.Ran who t₂ k' := by
  rw [← List.cons_append, ran_append]

theorem step_eq_some {c : Party × Call} {r : Answer c.2} (h : env.step k c r = some k') :
    Admits c.2 r = true ∧ ∃ k₁, k.effect c.1 c.2 r = some k₁ ∧
      k' = k₁.record ⟨c.1, c.2.fd?.bind k.fds, c.2, r⟩ := by
  simp only [env] at h
  split at h
  · rename_i hok
    obtain ⟨k₁, heff, hrec⟩ := Option.map_eq_some_iff.mp h
    exact ⟨hok, k₁, heff, hrec.symm⟩
  · cases h

theorem effect_of_eq_some {c : Call} {r : Answer c} (h : k.effect who c r = some k₁) :
    Effect k who ⟨c, r⟩ k₁ := by
  -- `socket` and `accept` open a descriptor in the same way
  have opened : ∀ {fd : Fd} {e : Io}, e.fdEffect = .opens fd →
      (if 0 ≤ fd ∧ k.fds fd = none then some (k.openFd fd who) else none) = some k₁ →
      Effect k who e k₁ := by
    intro fd e eff h
    obtain ⟨hfree, ⟨⟩⟩ := Option.ite_none_right_eq_some.mp h
    exact .opened eff hfree.1 hfree.2
  cases c with
  | socket =>
      cases r with
      | none => exact Option.some.inj h ▸ .nothing rfl
      | some fd => exact opened rfl h
  | accept =>
      cases r with
      | conn fd => exact opened rfl h
      | again => exact Option.some.inj h ▸ .nothing rfl
      | error => exact Option.some.inj h ▸ .nothing rfl
  | close side fd => exact Option.some.inj h ▸ .closed rfl
  | epollAdd side fd events data =>
      cases r with
      | false => exact Option.some.inj h ▸ .nothing rfl
      | true =>
          obtain ⟨known, ⟨⟩⟩ := Option.ite_none_right_eq_some.mp h
          exact .registered rfl (.inl known.1)
  | epollMod side fd events data =>
      cases r with
      | false => exact Option.some.inj h ▸ .nothing rfl
      | true =>
          obtain ⟨known, ⟨⟩⟩ := Option.ite_none_right_eq_some.mp h
          exact .registered rfl (.inr known)
  | epollDel side fd =>
      cases r with
      | false => exact Option.some.inj h ▸ .nothing rfl
      | true =>
          obtain ⟨known, ⟨⟩⟩ := Option.ite_none_right_eq_some.mp h
          exact .unregistered rfl known
  | _ => exact Option.some.inj h ▸ .nothing rfl

theorem effect_trace {c : Call} {r : Answer c} (h : k.effect who c r = some k₁) :
    k₁.trace = k.trace := by
  cases effect_of_eq_some h <;> rfl

/-- One call is one more entry of the record. -/
theorem step_trace {c : Party × Call} {r : Answer c.2} (h : env.step k c r = some k') :
    k'.trace = k.trace ++ [⟨c.1, c.2.fd?.bind k.fds, c.2, r⟩] := by
  obtain ⟨-, k₁, heff, rfl⟩ := step_eq_some h
  simp [record, effect_trace heff]

/-- What every call of a party keeps, its programs keep. -/
theorem Ran.induct {J : Kernel → Prop} (h : k.Ran who tr k') (start : J k)
    (step : ∀ {k e k'}, e ∈ tr → J k → env.step k (who, e.call) e.answer = some k' → J k') :
    J k' := by
  induction tr generalizing k with
  | nil => exact ran_nil.mp h ▸ start
  | cons e tr ih =>
      obtain ⟨k₁, hstep, hrest⟩ := ran_cons.mp h
      exact ih hrest (step List.mem_cons_self start hstep)
        fun he => step (List.mem_cons_of_mem _ he)

theorem Ran.admitted (h : k.Ran who tr k') : Admitted tr := by
  induction tr generalizing k with
  | nil => simp [Admitted]
  | cons e tr ih =>
      obtain ⟨k₁, hstep, hrest⟩ := ran_cons.mp h
      exact List.forall_mem_cons.mpr ⟨(step_eq_some hstep).1, ih hrest⟩

/-- The calls of a client are added to its history. -/
theorem Ran.history {c : ClientId} (h : k.Ran (.client c) tr k') :
    k'.history c = k.history c ++ tr := by
  induction tr generalizing k with
  | nil => rw [ran_nil.mp h, List.append_nil]
  | cons e tr ih =>
      obtain ⟨k₁, hstep, hrest⟩ := ran_cons.mp h
      rw [ih hrest]
      simp [Kernel.history, step_trace hstep]

/-- The histories of the others stay as they are. -/
theorem Ran.history_other {c : ClientId} (h : k.Ran who tr k') (hwho : who ≠ .client c) :
    k'.history c = k.history c :=
  h.induct (J := fun k' => k'.history c = k.history c) rfl fun _ hk hstep => by
    rw [← hk]
    simp [Kernel.history, step_trace hstep, hwho]

/-! ## Well-formed kernels -/

/-- Only open descriptors are registered, and they are not negative. -/
structure Wf (k : Kernel) : Prop where
  nonneg : ∀ fd, k.fds fd ≠ none → 0 ≤ fd
  watched : ∀ fd, k.interest fd ≠ none → k.fds fd ≠ none

theorem Effect.wf (h : Effect k who e k₁) (wf : k.Wf) : k₁.Wf := by
  cases h with
  | @opened fd _ nonneg _ =>
      refine ⟨fun f hf => ?_, fun f hf => ?_⟩
      · by_cases hfd : f = fd
        · exact hfd ▸ nonneg
        · exact wf.nonneg f (by simpa [openFd, hfd] using hf)
      · by_cases hfd : f = fd
        · simp [openFd, hfd]
        · simpa [openFd, hfd] using wf.watched f hf
  | @closed fd _ =>
      refine ⟨fun f hf => ?_, fun f hf => ?_⟩
      · by_cases hfd : f = fd
        · simp [closeFd, hfd] at hf
        · exact wf.nonneg f (by simpa [closeFd, hfd] using hf)
      · by_cases hfd : f = fd
        · simp [closeFd, hfd] at hf
        · simpa [closeFd, hfd] using wf.watched f (by simpa [closeFd, hfd] using hf)
  | @registered fd events data _ known =>
      refine ⟨wf.nonneg, fun f hf => ?_⟩
      by_cases hfd : f = fd
      · subst hfd
        exact known.elim id (wf.watched f)
      · exact wf.watched f (by simpa [register, hfd] using hf)
  | @unregistered fd _ known =>
      refine ⟨wf.nonneg, fun f hf => ?_⟩
      by_cases hfd : f = fd
      · simp [register, hfd] at hf
      · exact wf.watched f (by simpa [register, hfd] using hf)
  | nothing => exact wf

/-- What a call did, and its entry in the record. -/
theorem step_effect {c : Party × Call} {r : Answer c.2} (h : env.step k c r = some k') :
    ∃ k₁, Effect k c.1 ⟨c.2, r⟩ k₁ ∧ k'.fds = k₁.fds ∧ k'.interest = k₁.interest := by
  obtain ⟨-, k₁, heff, rfl⟩ := step_eq_some h
  exact ⟨k₁, effect_of_eq_some heff, rfl, rfl⟩

theorem Ran.wf (h : k.Ran who tr k') (wf : k.Wf) : k'.Wf :=
  h.induct wf fun _ hk hstep => by
    obtain ⟨k₁, heff, hfds, hinterest⟩ := step_effect hstep
    have := heff.wf hk
    exact ⟨fun fd => hfds ▸ this.nonneg fd, fun fd => hfds ▸ hinterest ▸ this.watched fd⟩

theorem boot_wf {w : World} (h : w.Booted) : w.kernel.Wf := by
  obtain ⟨serverSock, epollFd, timerFd, hserver, hepoll, htimer, -, rfl⟩ := h
  refine ⟨fun fd hfd => ?_, fun fd hfd => ?_⟩
  · have : fd = serverSock ∨ fd = epollFd ∨ fd = timerFd := by
      by_contra hnot
      simp [World.boot, hnot] at hfd
    obtain rfl | rfl | rfl := this <;> assumption
  · simp only [World.boot] at hfd ⊢
    split at hfd
    · simp [*]
    · split at hfd
      · simp [*]
      · exact absurd rfl hfd

end Kernel

end SimpleProxy
