import SimpleProxy.Logic.Steps
import Mathlib.Data.List.Perm.Subperm

/-!
# Descriptor ownership

`holding` follows the descriptors a client holds through a list of calls: it
gets the ones it opens, gives up the ones it closes, and fails when a call
closes or unregisters one it does not hold; `KeepsTo` says so of any other use,
which the owner then makes (`Ran.byOwner`). Every handler stays within what is
in the two fields of the state, except after an `epoll_ctl` that could not add
the target (`Move.leaves`). In a run without this failure the fields of all
clients own their descriptors (`owned_reachable`).
-/

namespace SimpleProxy

open Interact CString

/-- The descriptor a call closes or takes out of the interest set. -/
def Call.releases? : Call → Option Fd
  | .epollDel _ fd => some fd
  | .close _ fd => some fd
  | _ => none

/-- The descriptors held after a call; `none` if it releases one that is not
held. -/
def Io.holding (held : List Fd) (e : Io) : Option (List Fd) :=
  if e.call.releases?.all (· ∈ held) then
    match e.fdEffect with
    | .opens fd => some (fd :: held)
    | .closes fd => some (held.erase fd)
    | _ => some held
  else none

/-- The descriptors held after a list of calls. -/
def holding (held : List Fd) (tr : History) : Option (List Fd) := tr.foldlM Io.holding held

/-- From the descriptors `held`, the calls use no others. -/
def KeepsTo (uses : Io → Option Fd) : List Fd → History → Prop
  | _, [] => True
  | held, e :: tr =>
      (∀ fd ∈ uses e, fd ∈ held) ∧ ∀ held' ∈ e.holding held, KeepsTo uses held' tr

/-- `epoll_ctl` could not add the target. -/
def Io.addFailed : Io → Bool
  | ⟨.epollAdd .target _ _ _, ok⟩ => !ok
  | _ => false

variable {held held' held₁ : List Fd} {tr t₁ t₂ : History} {e : Io} {fd : Fd}

@[simp] theorem holding_nil : holding held [] = some held := rfl

@[simp] theorem holding_cons : holding held (e :: tr) = (e.holding held).bind (holding · tr) := rfl

theorem holding_append : holding held (t₁ ++ t₂) = (holding held t₁).bind (holding · t₂) := by
  rw [holding, List.foldlM_append]
  rfl

section KeepsTo

variable {uses : Io → Option Fd}

theorem keepsTo_append (h₁ : KeepsTo uses held t₁)
    (h₂ : ∀ held', holding held t₁ = some held' → KeepsTo uses held' t₂) :
    KeepsTo uses held (t₁ ++ t₂) := by
  induction t₁ generalizing held with
  | nil => exact h₂ held rfl
  | cons e t ih =>
      refine ⟨h₁.1, fun held₁ hheld => ih (h₁.2 held₁ hheld) fun held' hhold => h₂ held' ?_⟩
      rw [holding_cons, hheld]
      exact hhold

/-- Calls that use nothing. -/
theorem keepsTo_of_none (h : ∀ e ∈ tr, uses e = none) : KeepsTo uses held tr := by
  induction tr generalizing held with
  | nil => trivial
  | cons e tr ih =>
      refine ⟨?_, fun _ _ => ih fun e' he => h e' (List.mem_cons_of_mem _ he)⟩
      rw [h e List.mem_cons_self]
      simp

end KeepsTo

/-- What is released is held. -/
theorem keepsTo_releases (h : holding held tr = some held') :
    KeepsTo (fun e => e.call.releases?) held tr := by
  induction tr generalizing held with
  | nil => trivial
  | cons e tr ih =>
      obtain ⟨held₁, hfirst, hrest⟩ := Option.bind_eq_some_iff.mp h
      have mine := (Option.ite_none_right_eq_some.mp hfirst).1
      refine ⟨fun fd hfd => ?_, fun held₂ hheld => ?_⟩
      · simpa [Option.mem_def.mp hfd] using mine
      · obtain rfl := Option.some.inj (hfirst.symm.trans hheld)
        exact ih hrest

theorem Call.fd?_of_releases {c : Call} (h : c.releases? = some fd) : c.fd? = some fd := by
  cases c <;> first | exact h | cases h

theorem Io.releases_of_closes (h : e.fdEffect = .closes fd) : e.call.releases? = some fd := by
  obtain ⟨call, r⟩ := e
  cases call <;> cases r <;> cases h
  rfl

/-! ## The kernel's side -/

namespace Kernel

/-- `who` holds these descriptors. -/
structure Owns (k : Kernel) (who : Party) (held : List Fd) : Prop where
  nodup : held.Nodup
  open' : ∀ fd ∈ held, k.fds fd = some who

theorem Owns.of_subperm {k : Kernel} {who : Party} (h : k.Owns who held)
    (sub : held'.Subperm held) :
    k.Owns who held' := by
  obtain ⟨l, perm, sub⟩ := sub
  exact ⟨perm.nodup_iff.mp (sub.nodup h.nodup),
    fun fd hfd => h.open' fd (sub.subset (perm.mem_iff.mpr hfd))⟩

/-- What `who` does to the descriptors of others: nothing. -/
def Apart (who : Party) (k k' : Kernel) : Prop :=
  ∀ fd p, p ≠ who → k.fds fd = some p → k'.fds fd = some p

/-- Whoever made such a use of a descriptor held it. -/
def ByOwner (uses : Io → Option Fd) (k : Kernel) : Prop :=
  ∀ entry ∈ k.trace, (uses entry.io).isSome = true → entry.owner = some entry.who

/-- Whoever released a descriptor held it. -/
def Lawful (k : Kernel) : Prop :=
  ∀ entry ∈ k.trace, entry.io.call.releases?.isSome = true → entry.owner = some entry.who

variable {k k₁ k' : Kernel} {who : Party}

theorem Effect.owns (h : Effect k who e k₁) (owns : k.Owns who held)
    (hold : e.holding held = some held') : k₁.Owns who held' ∧ Apart who k k₁ := by
  obtain ⟨hrel, hold⟩ := Option.ite_none_right_eq_some.mp hold
  cases h with
  | @opened fd eff _ free =>
      rw [eff] at hold
      cases hold
      have fresh : ∀ f, k.fds f ≠ none → f ≠ fd := by
        rintro f hf rfl
        exact hf free
      -- a descriptor is opened under a number that nobody has
      refine ⟨⟨List.nodup_cons.mpr ⟨fun hmem => ?_, owns.nodup⟩, fun f hf => ?_⟩,
        fun f p _ hf => ?_⟩
      · exact fresh fd (by simp [owns.open' fd hmem]) rfl
      · obtain rfl | hf := List.mem_cons.mp hf
        · simp [openFd]
        · have hopen := owns.open' f hf
          simpa [openFd, fresh f (by simp [hopen])] using hopen
      · simpa [openFd, fresh f (by simp [hf])] using hf
  | @closed fd eff =>
      rw [eff] at hold
      cases hold
      -- only what is held is closed, so nobody else loses anything
      have mine : fd ∈ held := by simpa [Io.releases_of_closes eff] using hrel
      refine ⟨⟨owns.nodup.erase fd, fun f hf => ?_⟩, fun f p hp hf => ?_⟩
      · obtain ⟨hne, hf⟩ := owns.nodup.mem_erase_iff.mp hf
        simpa [closeFd, hne] using owns.open' f hf
      · have hne : f ≠ fd := by
          rintro rfl
          exact hp (Option.some.inj (hf.symm.trans (owns.open' f mine)))
        simpa [closeFd, hne] using hf
  | registered eff =>
      rw [eff] at hold
      cases hold
      exact ⟨⟨owns.nodup, owns.open'⟩, fun _ _ _ => id⟩
  | unregistered eff =>
      rw [eff] at hold
      cases hold
      exact ⟨⟨owns.nodup, owns.open'⟩, fun _ _ _ => id⟩
  | nothing eff =>
      rw [eff] at hold
      cases hold
      exact ⟨owns, fun _ _ _ => id⟩

/-- Calls within what `who` holds. -/
theorem Ran.owned (h : k.Ran who tr k') (owns : k.Owns who held)
    (hold : holding held tr = some held') : k'.Owns who held' ∧ Apart who k k' := by
  induction tr generalizing k held with
  | nil =>
      cases hold
      obtain rfl := ran_nil.mp h
      exact ⟨owns, fun _ _ _ => id⟩
  | cons e tr ih =>
      obtain ⟨k₁, hstep, hrest⟩ := ran_cons.mp h
      obtain ⟨held₁, hfirst, hold⟩ := Option.bind_eq_some_iff.mp hold
      obtain ⟨k₂, heff, hfds, -⟩ := step_effect hstep
      obtain ⟨owns₁, apart₁⟩ := heff.owns owns hfirst
      have owns₁ : k₁.Owns who held₁ := ⟨owns₁.nodup, fun f hf => hfds ▸ owns₁.open' f hf⟩
      obtain ⟨owns', apart'⟩ := ih hrest owns₁ hold
      exact ⟨owns', fun f p hp hf => apart' f p hp (hfds ▸ apart₁ f p hp hf)⟩

/-- What calls keep to, they use as the owner. -/
theorem Ran.byOwner {uses : Io → Option Fd} (h : k.Ran who tr k') (owns : k.Owns who held)
    (hold : holding held tr = some held') (own : KeepsTo uses held tr)
    (used : ∀ e fd, uses e = some fd → e.call.fd? = some fd) (before : k.ByOwner uses) :
    k'.ByOwner uses := by
  induction tr generalizing k held with
  | nil =>
      obtain rfl := ran_nil.mp h
      exact before
  | cons e tr ih =>
      obtain ⟨k₁, ran₁, hrest⟩ := ran_cons_iff.mp h
      obtain ⟨held₁, hfirst, hold⟩ := Option.bind_eq_some_iff.mp hold
      obtain ⟨owns₁, -⟩ := ran₁.owned owns (show holding held [e] = some held₁ by simp [hfirst])
      refine ih hrest owns₁ hold (own.2 held₁ hfirst) fun entry hentry huse => ?_
      obtain ⟨k₂, hstep, hnil⟩ := ran_cons.mp ran₁
      rw [ran_nil.mp hnil, step_trace hstep] at hentry
      obtain hentry | hentry := List.mem_append.mp hentry
      · exact before entry hentry huse
      · obtain rfl := List.mem_singleton.mp hentry
        obtain ⟨f, hf⟩ := Option.isSome_iff_exists.mp huse
        show e.call.fd?.bind k.fds = some who
        rw [used e f hf]
        exact owns.open' f (own.1 f hf)

theorem Ran.owns (h : k.Ran who tr k') (owns : k.Owns who held)
    (hold : holding held tr = some held') :
    k'.Owns who held' ∧ Apart who k k' ∧ (Lawful k → Lawful k') := by
  obtain ⟨owns', apart⟩ := h.owned owns hold
  exact ⟨owns', apart,
    h.byOwner owns hold (keepsTo_releases hold) fun _ _ => Call.fd?_of_releases⟩

/-- What every call on record satisfies, the calls of a run satisfy. -/
theorem Ran.forall_calls {c : ClientId} {P : Io → Prop} (h : k.Ran (.client c) tr k')
    (all : ∀ entry ∈ k'.trace, P entry.io) : ∀ e ∈ tr, P e := by
  intro e he
  have hmem : e ∈ k'.history c := h.history ▸ List.mem_append_right _ he
  obtain ⟨entry, hentry, heq⟩ := List.mem_filterMap.mp hmem
  split at heq
  · cases heq
    exact all entry hentry
  · cases heq

/-- What `accept` returned is not negative. -/
theorem Ran.accepted_real (h : k.Ran who (⟨.accept, .conn fd⟩ :: tr) k') : fd ≠ -1 := by
  rintro rfl
  obtain ⟨k₁, hstep, -⟩ := ran_cons.mp h
  obtain ⟨k₂, heff, -⟩ := step_effect hstep
  cases heff with
  | opened eff nonneg =>
      cases eff
      exact absurd nonneg (by decide)
  | closed eff => cases eff
  | registered eff => cases eff
  | unregistered eff => cases eff
  | nothing eff => cases eff

end Kernel

/-! ## The handlers' side -/

/-- The descriptors in the two fields. -/
def ClientState.fds (st : ClientState) : List Fd := [st.clientFd, st.targetFd].filter (· ≠ -1)

/-- From the descriptors `held`, the calls are in order and leave those of `s`, if
there is a state after them. -/
def Leaves (held : List Fd) (tr : History) (s : Option ClientState) : Prop :=
  ∃ all, holding held tr = some all ∧ ∀ st ∈ s, st.fds.Subperm all ∧
    (st.state = .connecting → st.targetFd ∈ all)

/-- Calls that neither open nor release anything. -/
def Idle (tr : History) : Prop := ∀ e ∈ tr, ∀ held, Io.holding held e = some held

theorem Idle.append (h₁ : Idle t₁) (h₂ : Idle t₂) : Idle (t₁ ++ t₂) := fun e he =>
  (List.mem_append.mp he).elim (h₁ e) (h₂ e)

theorem Idle.holding_eq (h : Idle tr) : holding held tr = some held := by
  induction tr with
  | nil => rfl
  | cons e tr ih =>
      rw [holding_cons, h e List.mem_cons_self]
      exact ih fun e' he => h e' (List.mem_cons_of_mem _ he)

theorem Idle.keepsTo {uses : Io → Option Fd} (h : Idle tr)
    (own : ∀ e ∈ tr, ∀ fd ∈ uses e, fd ∈ held) : KeepsTo uses held tr := by
  induction tr with
  | nil => trivial
  | cons e tr ih =>
      refine ⟨own e List.mem_cons_self, fun held' hold => ?_⟩
      obtain rfl := Option.some.inj ((h e List.mem_cons_self held).symm.trans hold)
      exact ih (fun e' he => h e' (List.mem_cons_of_mem _ he))
        fun e' he => own e' (List.mem_cons_of_mem _ he)

variable {st st' : ClientState} {side : Side}

theorem fds_eq (h : st'.clientFd = st.clientFd ∧ st'.targetFd = st.targetFd) :
    st'.fds = st.fds := by
  rw [ClientState.fds, h.1, h.2, ClientState.fds]

theorem MadeRoom.idle (h : MadeRoom st tr st') : Idle tr := by
  cases h <;> simp [Idle, Io.holding, Call.releases?, Io.fdEffect]

theorem Replied.idle (h : Replied st tr st') : Idle tr := by
  cases h <;> simp [Idle, Io.holding, Call.releases?, Io.fdEffect]

theorem Registering.idle {clientFd targetFd : Fd} (h : Registering clientFd targetFd tr) :
    Idle tr := by
  cases h with
  | both ok => cases ok <;> simp [Idle, Io.holding, Call.releases?, Io.fdEffect]
  | _ => simp [Idle, Io.holding, Call.releases?, Io.fdEffect]

theorem TransferSpec.idle (h : TransferSpec st st' tr) : Idle tr := by
  intro ⟨call, r⟩ he held
  have := h.calls _ he
  cases call <;> first | cases r <;> rfl | cases this

theorem Opened.holding_eq (h : Opened st tr st') :
    holding held tr = some (st'.targetFd :: held) := by
  cases h with
  | inProgress => rfl
  | atOnce _ _ reply =>
      rw [reply.fds_eq.2, holding_append]
      exact reply.idle.holding_eq

/-- Closing a side gives up its descriptor. -/
theorem SideClosed.holding_eq (h : SideClosed side fd tr) (mine : fd ≠ -1 → fd ∈ held) :
    holding held tr = some (if fd = -1 then held else held.erase fd) := by
  cases h with
  | absent hfd => simp [hfd]
  | closed hfd ok =>
      have mem := mine hfd
      cases ok <;> simp [Io.holding, Call.releases?, Io.fdEffect, mem, hfd]

theorem ClientClosed.holding_eq (h : ClientClosed fd tr) (mine : fd ≠ -1 → fd ∈ held) :
    holding held tr = some (if fd = -1 then held else held.erase fd) := by
  cases h with
  | absent hfd => simp [hfd]
  | closed hfd => simp [Io.holding, Call.releases?, Io.fdEffect, mine hfd, hfd]

/-- After the client side, the target is still held. -/
theorem target_mem (nodup : st.fds.Nodup) (h : st.targetFd ≠ -1) :
    st.targetFd ∈ if st.clientFd = -1 then st.fds else st.fds.erase st.clientFd := by
  by_cases hclient : st.clientFd = -1
  · simp [hclient, ClientState.fds, h]
  · have hne : st.clientFd ≠ st.targetFd := by
      simpa [ClientState.fds, hclient, h] using nodup
    rw [if_neg hclient, List.mem_erase_of_ne hne.symm]
    simp [ClientState.fds, h]

theorem client_mem (h : st.clientFd ≠ -1) : st.clientFd ∈ st.fds := by
  simp [ClientState.fds, h]

theorem mem_fds (h : st.fd side ≠ -1) : st.fd side ∈ st.fds := by
  cases side with
  | client => exact client_mem h
  | target =>
      have h : st.targetFd ≠ -1 := h
      simp [ClientState.fds, ClientState.fd, h]

/-- Both sides can be closed, one after the other. -/
theorem holding_closed (nodup : st.fds.Nodup)
    (client : holding st.fds t₁ =
      some (if st.clientFd = -1 then st.fds else st.fds.erase st.clientFd))
    (target : SideClosed .target st.targetFd t₂) : ∃ all, holding st.fds (t₁ ++ t₂) = some all := by
  rw [holding_append, client, Option.bind_some]
  exact ⟨_, target.holding_eq (target_mem nodup)⟩

theorem Released.leaves (h : Released st tr) (nodup : st.fds.Nodup) : Leaves st.fds tr none := by
  obtain ⟨client, target⟩ := h
  obtain ⟨all, hall⟩ := holding_closed nodup (client.holding_eq client_mem) target
  exact ⟨all, hall, by simp⟩

/-- Without its target, a client holds less. -/
theorem fds_dropped (hclient : st'.clientFd = st.clientFd) (htarget : st'.targetFd = -1) :
    st'.fds.Subperm st.fds := by
  have : st'.fds = [st.clientFd].filter (· ≠ -1) := by
    simp [ClientState.fds, hclient, htarget, List.filter_cons]
  rw [this]
  exact (((List.nil_sublist [st.targetFd]).cons_cons st.clientFd).filter _).subperm

/-- Giving up the target leaves the client side. -/
theorem fds_disconnected (nodup : st.fds.Nodup) (target : st.targetFd ≠ -1) :
    st.fds.erase st.targetFd = ({ st with targetFd := -1, state := .closing } : ClientState).fds := by
  by_cases hclient : st.clientFd = -1
  · simp [ClientState.fds, hclient, target]
  · have hne : st.clientFd ≠ st.targetFd := by
      simpa [ClientState.fds, hclient, target] using nodup
    simp [ClientState.fds, hclient, target, hne]

/-- A new target adds at most one descriptor. -/
theorem fds_added (hclient : st'.clientFd = st.clientFd) :
    st'.fds.Subperm (st'.targetFd :: st.fds) := by
  have swap : st'.fds.Perm ([st'.targetFd, st.clientFd].filter (· ≠ -1)) := by
    rw [ClientState.fds, hclient]
    exact (List.Perm.swap _ _ []).filter _
  have drop : ([st.clientFd].filter (· ≠ -1)).Sublist st.fds :=
    ((List.nil_sublist [st.targetFd]).cons_cons st.clientFd).filter _
  refine swap.subperm.trans (List.Sublist.subperm ?_)
  by_cases h : st'.targetFd = -1
  · simpa [List.filter_cons, h] using drop.cons st'.targetFd
  · simpa [List.filter_cons, h] using drop.cons_cons st'.targetFd

theorem leaves_of_eq {l : List Fd} (hold : holding held tr = some l) (sub : st.fds.Subperm l)
    (connecting : st.state = .connecting → st.targetFd ∈ l) : Leaves held tr (some st) :=
  ⟨l, hold, fun _ h => Option.some.inj h ▸ ⟨sub, connecting⟩⟩

theorem Move.leaves {ev : ClientEvent} {again : Bool} (h : Move ev st tr st' again)
    (nodup : st.fds.Nodup) (connecting : st.state = .connecting → st.targetFd ≠ -1)
    (ok : Admitted tr) (added : ∀ e ∈ tr, e.addFailed = false) :
    Leaves st.fds tr (some st') := by
  have idle : ∀ {tr : History} {st' : ClientState}, Idle tr →
      st'.clientFd = st.clientFd ∧ st'.targetFd = st.targetFd → st'.state ≠ .connecting →
      Leaves st.fds tr (some st') :=
    fun hidle same hstate => leaves_of_eq hidle.holding_eq (fds_eq same ▸ List.Subperm.refl _)
      fun h => absurd h hstate
  have single : ∀ {e : Io}, e.call.releases? = none → e.fdEffect = .nothing → Idle [e] := by
    intro e hrel heff
    simp [Idle, Io.holding, hrel, heff]
  cases h with
  | growFailed => exact idle (single rfl rfl) ⟨rfl, rfl⟩ (by simp)
  | readFailed _ room => exact idle (room.idle.append (single rfl rfl)) room.fds_eq (by simp)
  | readNothing phase room =>
      exact idle (room.idle.append (single rfl rfl)) room.fds_eq (by cases room <;> simp [phase])
  | readPart _ phase room =>
      exact idle (room.idle.append (single rfl rfl)) room.fds_eq (by cases room <;> simp [phase])
  | readHeader _ _ room => exact idle (room.idle.append (single rfl rfl)) room.fds_eq (by simp)
  | rejected => exact idle (.append (single rfl rfl) (single rfl rfl)) ⟨rfl, rfl⟩ (by simp)
  | noHost => exact idle (single rfl rfl) ⟨rfl, rfl⟩ (by simp)
  | accepted => exact idle (single rfl rfl) ⟨rfl, rfl⟩ (by simp)
  | unresolved => exact idle (single rfl rfl) ⟨rfl, rfl⟩ (by simp)
  | noSocket =>
      exact leaves_of_eq (l := st.fds) (by simp [Io.holding, Call.releases?, Io.fdEffect])
        (fds_dropped rfl rfl) (by simp)
  | refused =>
      exact leaves_of_eq (l := st.fds) (by simp [Io.holding, Call.releases?, Io.fdEffect])
        (fds_dropped rfl rfl) (by simp)
  | @started o st₁ room _ opened =>
      refine leaves_of_eq ?_ (fds_added opened.clientFd_eq) fun _ => List.mem_cons_self
      -- the new descriptor is held from `socket` on
      rw [holding_append, opened.holding_eq]
      cases room <;> rfl
  | addFailed room _ opened =>
      exact absurd (added _ (List.mem_append_right _ (List.mem_cons_of_mem _ List.mem_cons_self)))
        (by simp [Io.addFailed])
  | connectFailed phase failed =>
      have mine : st.targetFd ∈ st.fds := by simp [ClientState.fds, connecting phase]
      refine leaves_of_eq (l := st.fds.erase st.targetFd)
        (by simp [Io.holding, Call.releases?, Io.fdEffect, mine]) ?_ (by simp)
      rw [fds_disconnected nodup (connecting phase)]
  | connected phase reply register =>
      exact idle (.append (.append (single rfl rfl) reply.idle) register.idle) reply.fds_eq (by simp)
  | relayed phase run =>
      have spec : TransferSpec st st' tr := (connectionForward_runs run ok).1
      exact idle spec.idle spec.fds_eq (by rw [spec.frame]; simp [phase])
  | relayEnded phase ended run =>
      have spec := (connectionForward_runs run ok).1
      exact idle spec.idle spec.fds_eq (by simp)
  | closed phase client target =>
      obtain ⟨all, hall⟩ := holding_closed nodup (client.holding_eq client_mem) target
      exact leaves_of_eq hall List.nil_subperm (by simp [phase])

theorem Ticked.leaves {s : Option ClientState} (h : Ticked st tr s) (nodup : st.fds.Nodup)
    (connecting : st.state = .connecting → st.targetFd ≠ -1) : Leaves st.fds tr s := by
  have same : st.state = .connecting → st.targetFd ∈ st.fds := fun h => by
    simp [ClientState.fds, connecting h]
  cases h with
  | active => exact leaves_of_eq rfl (List.Subperm.refl _) same
  | released _ release => exact release.leaves nodup
  | silenced stale live client target ok₁ ok₂ =>
      refine leaves_of_eq (l := st.fds) ?_ (List.Subperm.refl _) same
      have mine : st.targetFd ∈ st.fds := by simp [ClientState.fds, target]
      cases ok₁ <;> cases ok₂ <;>
        simp [Io.holding, Call.releases?, Io.fdEffect, client_mem client, mine]
  | expired => exact leaves_of_eq rfl (List.Subperm.refl _) same

/-- A new client holds the descriptor it was accepted on, or nothing. -/
theorem Registered.leaves {s : Option ClientState} (h : Registered fd tr s) (hfd : fd ≠ -1) :
    Leaves [] (⟨.accept, .conn fd⟩ :: tr) s := by
  have fresh : ∀ now, (ClientState.create fd now).fds = [fd] := fun now => by
    simp [ClientState.fds, ClientState.create, hfd]
  have released : ∀ {now : Int} {t₁ t₂ : History}, Idle t₁ →
      Released (ClientState.create fd now) t₂ →
      Leaves [] (⟨.accept, .conn fd⟩ :: (t₁ ++ t₂)) none := by
    intro now t₁ t₂ idle release
    obtain ⟨all, hall, -⟩ := release.leaves (by simp [fresh])
    refine ⟨all, ?_, by simp⟩
    rw [fresh] at hall
    rw [holding_cons]
    show holding [fd] (t₁ ++ t₂) = some all
    rw [holding_append, idle.holding_eq]
    exact hall
  cases h with
  | noState => exact ⟨[], by simp [Io.holding, Call.releases?, Io.fdEffect], by simp⟩
  | noBuffers => exact ⟨[], by simp [Io.holding, Call.releases?, Io.fdEffect], by simp⟩
  | noData now release =>
      exact released (by simp [Idle, Io.holding, Call.releases?, Io.fdEffect]) release
  | addFailed now release =>
      exact released (by simp [Idle, Io.holding, Call.releases?, Io.fdEffect]) release
  | created now =>
      refine leaves_of_eq (l := [fd]) (by simp [Io.holding, Call.releases?, Io.fdEffect]) ?_
        (by simp [ClientState.create])
      rw [fresh]

/-! ## All clients -/

/-- No target could not be added so far. -/
def NoAddFailed (k : Kernel) : Prop := ∀ entry ∈ k.trace, entry.io.addFailed = false

instance (k : Kernel) : Decidable (NoAddFailed k) :=
  inferInstanceAs (Decidable (∀ entry ∈ k.trace, entry.io.addFailed = false))

/-- The fields of a client own their descriptors, and everybody so far released
only what was theirs. -/
structure Owned (c : ClientId) (s : Option ClientState) (k : Kernel) : Prop where
  wf : k.Wf
  lawful : k.Lawful
  fields : ∀ st ∈ s, k.Owns (.client c) st.fds
  connecting : ∀ st ∈ s, st.state = .connecting → st.targetFd ≠ -1

namespace Owned

variable {c : ClientId} {k k' : Kernel} {s : Option ClientState}

/-- The rest of the world keeps its descriptors, unless a target could not be
added. -/
structure Guarantee (who : Party) (k k' : Kernel) : Prop where
  grows : k.trace <+: k'.trace
  wf : k.Wf → k'.Wf
  apart : NoAddFailed k' → Kernel.Apart who k k' ∧ (k.Lawful → k'.Lawful)

theorem Guarantee.noAddFailed {who : Party} (h : Guarantee who k k') (fine : NoAddFailed k') :
    NoAddFailed k := fun entry hentry => fine entry (h.grows.subset hentry)

/-- One party acts within what it holds. -/
theorem act {s₀ : Option ClientState} {tr : History} (h : NoAddFailed k → Owned c s₀ k)
    (ran : k.Ran (.client c) tr k')
    (leaves : (∀ e ∈ tr, e.addFailed = false) → Owned c s₀ k →
      ∃ held, k.Owns (.client c) held ∧ Leaves held tr s) :
    (NoAddFailed k' → Owned c s k') ∧ Guarantee (.client c) k k' := by
  have both : NoAddFailed k' →
      Owned c s k' ∧ Kernel.Apart (.client c) k k' ∧ (k.Lawful → k'.Lawful) := by
    intro fine
    have owned := h fun entry hentry => fine entry (ran.trace_grows.subset hentry)
    obtain ⟨held, owns, all, hold, hs⟩ := leaves (ran.forall_calls fine) owned
    obtain ⟨owns', apart, lawful⟩ := ran.owns owns hold
    have wf := ran.wf owned.wf
    refine ⟨⟨wf, lawful owned.lawful, fun st hst => owns'.of_subperm (hs st hst).1,
      fun st hst hstate hnone => ?_⟩, apart, lawful⟩
    have hopen := owns'.open' _ ((hs st hst).2 hstate)
    have := wf.nonneg _ (by rw [hopen]; exact Option.some_ne_none _)
    rw [hnone] at this
    exact absurd this (by decide)
  exact ⟨fun fine => (both fine).1, ⟨ran.trace_grows, ran.wf, fun fine => (both fine).2⟩⟩

/-- Nothing held, nothing released. -/
theorem owns_nil {who : Party} : k.Owns who [] := ⟨List.nodup_nil, by simp⟩

theorem relyGuarantee : RelyGuarantee (fun c k => NoAddFailed k → Owned c none k)
    (fun c s k => NoAddFailed k → Owned c s k) Guarantee where
  refl := ⟨List.prefix_rfl, id, fun _ => ⟨fun _ _ _ => id, id⟩⟩
  trans h₁ h₂ := by
    refine ⟨h₁.grows.trans h₂.grows, h₂.wf ∘ h₁.wf, fun fine => ?_⟩
    obtain ⟨apart₂, lawful₂⟩ := h₂.apart fine
    obtain ⟨apart₁, lawful₁⟩ := h₁.apart (h₂.noAddFailed fine)
    exact ⟨fun fd p hp hf => apart₂ fd p hp (apart₁ fd p hp hf), lawful₂ ∘ lawful₁⟩
  apart := by
    intro who c s k k' hF hwho h fine
    have owned := h (hF.noAddFailed fine)
    obtain ⟨apart, lawful⟩ := hF.apart fine
    exact ⟨hF.wf owned.wf, lawful owned.lawful, fun st hst => ⟨(owned.fields st hst).nodup,
      fun fd hfd => apart fd _ hwho.symm ((owned.fields st hst).open' fd hfd)⟩, owned.connecting⟩
  unborn := by
    intro who c k k' hF hwho h fine
    have owned := h (hF.noAddFailed fine)
    exact ⟨hF.wf owned.wf, (hF.apart fine).2 owned.lawful, by simp, by simp⟩
  readTimer := by
    intro k ok k' ran
    refine ⟨ran.trace_grows, ran.wf, fun _ => ?_⟩
    have idle : holding [] [(⟨.readTimer, ok⟩ : Io)] = some [] := rfl
    obtain ⟨-, apart, lawful⟩ := ran.owns owns_nil idle
    exact ⟨apart, lawful⟩
  refused := by
    intro c k r k' h ran
    refine act h ran fun _ _ => ⟨[], owns_nil, ?_⟩
    cases r <;> exact ⟨_, rfl, by simp⟩
  born := by
    intro c k fd tr s k' h registered ran
    exact act h ran fun _ _ => ⟨[], owns_nil, registered.leaves ran.accepted_real⟩
  slot := by
    intro c st k n h fine
    have owned := h fine
    refine ⟨owned.wf, owned.lawful, fun st' hst => ?_, fun st' hst => ?_⟩
    · obtain rfl := Option.some.inj hst
      exact owned.fields st rfl
    · obtain rfl := Option.some.inj hst
      exact owned.connecting st rfl
  move h _ move ran := act h ran fun added owned =>
    ⟨_, owned.fields _ rfl, move.leaves (owned.fields _ rfl).nodup (owned.connecting _ rfl)
      ran.admitted added⟩
  tick h ticked ran := act h ran fun _ owned =>
    ⟨_, owned.fields _ rfl, ticked.leaves (owned.fields _ rfl).nodup (owned.connecting _ rfl)⟩
  release h released ran := act h ran fun _ owned =>
    ⟨_, owned.fields _ rfl, released.leaves (owned.fields _ rfl).nodup⟩

theorem boot {w : World} (h : w.Booted) : Owned c none w.kernel := by
  refine ⟨Kernel.boot_wf h, ?_, by simp, by simp⟩
  obtain ⟨serverSock, epollFd, timerFd, -, -, -, -, rfl⟩ := h
  simp [Kernel.Lawful, World.boot]

end Owned

/-- In every reachable world to which every target could be added, the fields of
all clients own their descriptors. -/
theorem owned_reachable {w : World} (h : proxy.Reachable w) (fine : NoAddFailed w.kernel)
    (c : ClientId) : Owned c (w.mem.heap c) w.kernel := by
  have holds := Owned.relyGuarantee.reachable (fun _ hw _ _ => Owned.boot hw) h
  rcases Nat.lt_or_ge c w.mem.nextId with hborn | hunborn
  · exact holds.clients c hborn fine
  · obtain ⟨hnone, hU⟩ := holds.unborn c hunborn
    exact hnone ▸ hU fine

end SimpleProxy
