import SimpleProxy.Logic.Session
import SimpleProxy.Logic.Forward

/-!
# What epoll watches

Every registration that points to a client is for one of its two descriptors,
as they stand in its state: closing a descriptor ends its registration, and no
path resets a field without closing the descriptor. Hence a client that was
released is not watched any more (`watched_reachable`).
-/

namespace SimpleProxy

open Interact CString

/-- The kind of data the descriptors of a side are registered with. -/
def Side.fdType : Side → EpollFdType
  | .client => .client
  | .target => .target

/-- Descriptor `fd` is registered with data of this kind for client `c`. -/
def Kernel.Watches (k : Kernel) (fd : Fd) (t : EpollFdType) (c : ClientId) : Prop :=
  ∃ events, k.interest fd = some ⟨events, some ⟨t, some c⟩⟩

/-- Whether the acting client watches `fd` as `t` after a call, given whether it
did before. -/
def WatchStep (fd : Fd) (t : EpollFdType) (before : Prop) (e : Io) : Prop :=
  match e.fdEffect with
  | .registers f _ data => if f = fd then data = some t else before
  | .closes f => f ≠ fd ∧ before
  | .unregisters f => f ≠ fd ∧ before
  | _ => before

/-- The same for a list of calls. -/
def WatchAfter (fd : Fd) (t : EpollFdType) (before : Prop) (tr : History) : Prop :=
  tr.foldl (WatchStep fd t) before

variable {fd : Fd} {t : EpollFdType} {b b' : Prop} {tr t₁ t₂ : History}

theorem watchStep_mono {e : Io} (h : b → b') (hb : WatchStep fd t b e) : WatchStep fd t b' e := by
  unfold WatchStep at hb ⊢
  split at hb
  · rename_i f _ data _
    by_cases hf : f = fd
    · rw [if_pos hf] at hb ⊢
      exact hb
    · rw [if_neg hf] at hb ⊢
      exact h hb
  · exact ⟨hb.1, h hb.2⟩
  · exact ⟨hb.1, h hb.2⟩
  · exact h hb

theorem watchAfter_mono (h : b → b') (hb : WatchAfter fd t b tr) : WatchAfter fd t b' tr := by
  induction tr generalizing b b' with
  | nil => exact h hb
  | cons e tr ih => exact ih (watchStep_mono h) hb

theorem watchAfter_append :
    WatchAfter fd t b (t₁ ++ t₂) ↔ WatchAfter fd t (WatchAfter fd t b t₁) t₂ := by
  rw [WatchAfter, List.foldl_append]
  rfl

namespace Kernel

variable {k k₁ k' : Kernel} {who : Party} {c d : ClientId} {e : Io}

theorem Effect.watches (h : Effect k (.client c) e k₁) (hw : k₁.Watches fd t c) :
    WatchStep fd t (k.Watches fd t c) e := by
  obtain ⟨events, hw⟩ := hw
  cases h with
  | opened eff => simpa [WatchStep, eff] using ⟨events, hw⟩
  | @closed f eff =>
      by_cases hf : f = fd
      · simp [closeFd, hf] at hw
      · simpa [WatchStep, eff, hf] using ⟨events, by simpa [closeFd, Ne.symm hf] using hw⟩
  | @registered f events' data eff =>
      by_cases hf : f = fd
      · simp [register, hf, Party.clientState] at hw
        simpa [WatchStep, eff, hf] using hw.2
      · simpa [WatchStep, eff, hf] using ⟨events, by simpa [register, Ne.symm hf] using hw⟩
  | @unregistered f eff =>
      by_cases hf : f = fd
      · simp [register, hf] at hw
      · simpa [WatchStep, eff, hf] using ⟨events, by simpa [register, Ne.symm hf] using hw⟩
  | nothing eff => simpa [WatchStep, eff] using ⟨events, hw⟩

theorem Effect.watches_other (h : Effect k who e k₁) (hwho : who ≠ .client d)
    (hw : k₁.Watches fd t d) : k.Watches fd t d := by
  obtain ⟨events, hw⟩ := hw
  refine ⟨events, ?_⟩
  cases h with
  | opened eff => exact hw
  | @closed f eff =>
      by_cases hf : f = fd
      · simp [closeFd, hf] at hw
      · simpa [closeFd, Ne.symm hf] using hw
  | @registered f events' data eff =>
      by_cases hf : f = fd
      · simp [register, hf] at hw
        cases who with
        | proxy => simp [Party.clientState] at hw
        | client c => simp_all [Party.clientState]
      · simpa [register, Ne.symm hf] using hw
  | @unregistered f eff =>
      by_cases hf : f = fd
      · simp [register, hf] at hw
      · simpa [register, Ne.symm hf] using hw
  | nothing eff => exact hw

theorem Ran.watches (h : k.Ran (.client c) tr k') (hw : k'.Watches fd t c) :
    WatchAfter fd t (k.Watches fd t c) tr := by
  induction tr generalizing k with
  | nil => exact ran_nil.mp h ▸ hw
  | cons e tr ih =>
      obtain ⟨k₁, hstep, hrest⟩ := ran_cons.mp h
      obtain ⟨k₂, heff, -, hinterest⟩ := step_effect hstep
      have first : k₁.Watches fd t c → WatchStep fd t (k.Watches fd t c) e := fun h₁ =>
        heff.watches (by simpa only [Watches, hinterest] using h₁)
      show WatchAfter fd t (WatchStep fd t (k.Watches fd t c) e) tr
      exact watchAfter_mono first (ih hrest)

theorem Ran.watches_other (h : k.Ran who tr k') (hwho : who ≠ .client d) (hw : k'.Watches fd t d) :
    k.Watches fd t d := by
  refine h.induct (J := fun k' => k'.Watches fd t d → k.Watches fd t d) id ?_ hw
  intro k₁ e k₂ _ hk hstep hw₂
  obtain ⟨k₃, heff, -, hinterest⟩ := step_effect hstep
  exact hk (heff.watches_other hwho (by simpa only [Watches, hinterest] using hw₂))

end Kernel

/-! ## Registrations and fields -/

/-- The states in which a client has no target yet. -/
def Untargeted : ClientStateEnum → Bool
  | .readingRequest => true
  | .authenticating => true
  | .initializeConnection => true
  | _ => false

/-- The registrations of a client are for its descriptors, and a client that is
gone has none. -/
def Watched (c : ClientId) : Option ClientState → Kernel → Prop
  | none, k => k.Wf ∧ ∀ fd t, ¬ k.Watches fd t c
  | some st, k => k.Wf ∧ (Untargeted st.state = true → st.targetFd = -1) ∧
      ∀ fd t, k.Watches fd t c → ∃ side : Side, t = side.fdType ∧ st.fd side = fd

/-- A list of calls that neither close descriptors nor change registrations. -/
def Still (tr : History) : Prop :=
  ∀ e ∈ tr, e.fdEffect = .nothing ∨ ∃ fd, e.fdEffect = .opens fd

theorem Still.append (h₁ : Still t₁) (h₂ : Still t₂) : Still (t₁ ++ t₂) := fun e he =>
  (List.mem_append.mp he).elim (h₁ e) (h₂ e)

theorem Still.watchAfter (h : Still tr) (hb : WatchAfter fd t b tr) : b := by
  induction tr generalizing b with
  | nil => exact hb
  | cons e tr ih =>
      have hb : WatchStep fd t b e := ih (fun e' he => h e' (List.mem_cons_of_mem _ he)) hb
      obtain heff | ⟨f, heff⟩ := h e List.mem_cons_self <;> simpa [WatchStep, heff] using hb

variable {c : ClientId} {st st' : ClientState} {k k' : Kernel}

theorem MadeRoom.still (h : MadeRoom st tr st') : Still tr := by
  cases h <;> simp [Still, Io.fdEffect]

theorem Replied.still (h : Replied st tr st') : Still tr := by
  cases h <;> simp [Still, Io.fdEffect]

theorem Opened.still (h : Opened st tr st') : Still tr := by
  cases h with
  | inProgress => simp [Still, Io.fdEffect]
  | atOnce _ _ reply => exact .append (by simp [Still, Io.fdEffect]) reply.still

theorem TransferSpec.still (h : TransferSpec st st' tr) : Still tr := by
  intro ⟨call, r⟩ he
  have := h.calls _ he
  cases call <;> first | exact .inl rfl | exact this.elim

theorem Replied.fds_eq (h : Replied st tr st') :
    st'.clientFd = st.clientFd ∧ st'.targetFd = st.targetFd := by
  cases h <;> exact ⟨rfl, rfl⟩

theorem MadeRoom.fds_eq (h : MadeRoom st tr st') :
    st'.clientFd = st.clientFd ∧ st'.targetFd = st.targetFd := by
  cases h <;> exact ⟨rfl, rfl⟩

theorem TransferSpec.fds_eq (h : TransferSpec st st' tr) :
    st'.clientFd = st.clientFd ∧ st'.targetFd = st.targetFd :=
  ⟨h.fd_eq .client, h.fd_eq .target⟩

theorem Opened.clientFd_eq (h : Opened st tr st') : st'.clientFd = st.clientFd := by
  cases h with
  | inProgress => rfl
  | atOnce _ _ reply => exact reply.fds_eq.1

private theorem ne_of_nonneg (h : 0 ≤ fd) : (-1 : Fd) ≠ fd := by
  rintro rfl
  exact absurd h (by decide)

/-- A closed side is not watched. -/
theorem SideClosed.watchAfter {side : Side} {f : Fd} (h : SideClosed side f tr) (hfd : 0 ≤ fd)
    (hw : WatchAfter fd t b tr) : f ≠ fd ∧ b := by
  cases h with
  | absent hf => exact ⟨hf ▸ ne_of_nonneg hfd, hw⟩
  | closed hf ok =>
      cases ok with
      | false => exact hw
      | true => exact ⟨hw.1, hw.2.2⟩

theorem ClientClosed.watchAfter {f : Fd} (h : ClientClosed f tr) (hfd : 0 ≤ fd)
    (hw : WatchAfter fd t b tr) : f ≠ fd ∧ b := by
  cases h with
  | absent hf => exact ⟨hf ▸ ne_of_nonneg hfd, hw⟩
  | closed hf => exact hw

theorem Registering.watchAfter {clientFd targetFd : Fd} (h : Registering clientFd targetFd tr)
    (hw : WatchAfter fd t b tr) :
    b ∨ t = .client ∧ clientFd = fd ∨ t = .target ∧ targetFd = fd := by
  have registered : ∀ {f : Fd} {t' : EpollFdType} {b : Prop},
      (if f = fd then some t' = some t else b) → b ∨ t = t' ∧ f = fd := by
    intro f t' b h
    split at h
    · exact .inr ⟨(Option.some.inj h).symm, ‹_›⟩
    · exact .inl h
  cases h with
  | noMemory => exact .inl hw
  | clientFailed => exact .inl hw
  | noMoreMemory => exact (registered hw).imp_right .inl
  | both ok =>
      cases ok with
      | false => exact (registered hw).imp_right .inl
      | true =>
          obtain hw | htarget := registered hw
          · exact (registered hw).imp_right .inl
          · exact .inr (.inr htarget)

namespace Watched

theorem nonneg (h : Watched c (some st) k) (ran : k.Ran (.client c) tr k') {d : ClientId}
    (hw : k'.Watches fd t d) : 0 ≤ fd := by
  obtain ⟨events, hw⟩ := hw
  have wf := ran.wf h.1
  exact wf.nonneg fd (wf.watched fd (by simp [hw]))

/-- Calls that register nothing, on a state that keeps its descriptors. -/
theorem fewer (h : Watched c (some st) k) (ran : k.Ran (.client c) tr k')
    (hkept : ∀ {fd t b}, WatchAfter fd t b tr → b)
    (hclient : st'.clientFd = st.clientFd) (htarget : st'.targetFd = st.targetFd)
    (hstate : Untargeted st'.state = true → Untargeted st.state = true) :
    Watched c (some st') k' := by
  obtain ⟨wf, early, fields⟩ := h
  refine ⟨ran.wf wf, fun hst => htarget.trans (early (hstate hst)), fun fd t hw => ?_⟩
  obtain ⟨side, ht, rfl⟩ := fields fd t (hkept (ran.watches hw))
  cases side with
  | client => exact ⟨.client, ht, hclient⟩
  | target => exact ⟨.target, ht, htarget⟩

theorem keep (h : Watched c (some st) k) (ran : k.Ran (.client c) tr k') (still : Still tr)
    (hclient : st'.clientFd = st.clientFd) (htarget : st'.targetFd = st.targetFd)
    (hstate : Untargeted st'.state = true → Untargeted st.state = true) :
    Watched c (some st') k' :=
  h.fewer ran still.watchAfter hclient htarget hstate

/-- Calls after which a client that has had a target is watched for its fields
only. -/
theorem of_fields (h : Watched c (some st) k) (ran : k.Ran (.client c) tr k')
    (hstate : Untargeted st'.state = false)
    (hfields : ∀ fd t, WatchAfter fd t (k.Watches fd t c) tr → 0 ≤ fd →
      ∃ side : Side, t = side.fdType ∧ st'.fd side = fd) : Watched c (some st') k' :=
  ⟨ran.wf h.1, fun hst => absurd hst (by simp [hstate]), fun fd t hw =>
    hfields fd t (ran.watches hw) (h.nonneg ran hw)⟩

/-- Calls that end the registration of the target, whose field may change. -/
theorem dropTarget (h : Watched c (some st) k) (ran : k.Ran (.client c) tr k')
    (hclient : st'.clientFd = st.clientFd) (hstate : Untargeted st'.state = false)
    (hlost : ∀ fd t, WatchAfter fd t (k.Watches fd t c) tr → 0 ≤ fd →
      k.Watches fd t c ∧ st.targetFd ≠ fd ∨ t = .target ∧ st'.targetFd = fd) :
    Watched c (some st') k' := by
  refine h.of_fields ran hstate fun fd t hw hfd => ?_
  obtain ⟨hbefore, htarget⟩ | ⟨rfl, htarget⟩ := hlost fd t hw hfd
  · obtain ⟨side, ht, hside⟩ := h.2.2 fd t hbefore
    cases side with
    | client => exact ⟨.client, ht, hclient.trans hside⟩
    | target => exact absurd hside htarget
  · exact ⟨.target, rfl, htarget⟩

theorem move {ev : ClientEvent} {again : Bool} (h : Watched c (some st) k)
    (move : Move ev st tr st' again) (ran : k.Ran (.client c) tr k') : Watched c (some st') k' := by
  have quiet : ∀ {e : Io}, e.fdEffect = .nothing → Still [e] := fun he => by simp [Still, he]
  cases move with
  | growFailed => exact h.keep ran (quiet rfl) rfl rfl (by simp [Untargeted])
  | readFailed phase room =>
      exact h.keep ran (room.still.append (quiet rfl)) room.fds_eq.1 room.fds_eq.2
        (by simp [Untargeted])
  | readNothing phase room =>
      exact h.keep ran (room.still.append (quiet rfl)) room.fds_eq.1 room.fds_eq.2
        (by simp [phase, Untargeted])
  | readPart bs phase room =>
      exact h.keep ran (room.still.append (quiet rfl)) room.fds_eq.1 room.fds_eq.2
        (by simp [phase, Untargeted])
  | readHeader bs phase room =>
      exact h.keep ran (room.still.append (quiet rfl)) room.fds_eq.1 room.fds_eq.2
        (by simp [phase, Untargeted])
  | rejected => exact h.keep ran (by simp [Still, Io.fdEffect]) rfl rfl (by simp [Untargeted])
  | noHost => exact h.keep ran (quiet rfl) rfl rfl (by simp [Untargeted])
  | accepted phase => exact h.keep ran (quiet rfl) rfl rfl (by simp [phase, Untargeted])
  | unresolved => exact h.keep ran (quiet rfl) rfl rfl (by simp [Untargeted])
  | noSocket addr phase =>
      -- in the early states there is no target to lose
      have hearly : st.targetFd = -1 := h.2.1 (by rw [phase]; rfl)
      exact h.keep ran (by simp [Still, Io.fdEffect]) rfl hearly.symm (by simp [Untargeted])
  | refused fd addr phase =>
      have hearly : st.targetFd = -1 := h.2.1 (by rw [phase]; rfl)
      refine h.dropTarget ran rfl rfl fun f t hw hf => .inl ⟨?_, hearly ▸ ne_of_nonneg hf⟩
      exact hw.2
  | @started o st₁ room phase opened =>
      have hearly : st.targetFd = -1 := h.2.1 (by rw [phase]; rfl)
      refine h.dropTarget ran opened.clientFd_eq rfl fun f t hw hf => ?_
      have hw : if st₁.targetFd = f then (if room then some .target else none) = some t
          else WatchAfter f t (k.Watches f t c) o := watchAfter_append.mp hw
      -- the new descriptor is watched as the target if there was room for its data
      by_cases hfd : st₁.targetFd = f
      · rw [if_pos hfd] at hw
        cases room with
        | false => cases hw
        | true =>
            cases hw
            exact .inr ⟨rfl, hfd⟩
      · rw [if_neg hfd] at hw
        exact .inl ⟨opened.still.watchAfter hw, hearly ▸ ne_of_nonneg hf⟩
  | addFailed room phase opened =>
      have hearly : st.targetFd = -1 := h.2.1 (by rw [phase]; rfl)
      refine h.dropTarget ran opened.clientFd_eq rfl fun f t hw hf => ?_
      exact .inl ⟨opened.still.watchAfter (watchAfter_append.mp hw).2, hearly ▸ ne_of_nonneg hf⟩
  | connectFailed phase failed =>
      exact h.dropTarget ran rfl rfl fun f t hw hf => .inl ⟨hw.2, hw.1⟩
  | @connected g t₁ st₁ phase reply register =>
      refine h.of_fields ran rfl fun f t hw hf => ?_
      have still : Still (⟨.getsockopt st.targetFd, .code 0⟩ :: g) :=
        Still.append (quiet rfl) reply.still
      obtain hbefore | ⟨rfl, hclient⟩ | ⟨rfl, htarget⟩ :=
        register.watchAfter (watchAfter_append.mp hw)
      · obtain ⟨side, ht, rfl⟩ := h.2.2 f t (still.watchAfter hbefore)
        refine ⟨side, ht, ?_⟩
        cases side with
        | client => exact reply.fds_eq.1
        | target => exact reply.fds_eq.2
      · exact ⟨.client, rfl, hclient⟩
      · exact ⟨.target, rfl, htarget⟩
  | relayed phase run =>
      have spec : TransferSpec st st' tr := (connectionForward_runs run ran.admitted).1
      exact h.keep ran spec.still spec.fds_eq.1 spec.fds_eq.2 (by rw [spec.frame]; exact id)
  | relayEnded phase ended run =>
      have spec := (connectionForward_runs run ran.admitted).1
      exact h.keep ran spec.still spec.fds_eq.1 spec.fds_eq.2 (by simp [Untargeted])
  | closed phase client target =>
      refine h.of_fields ran (by rw [phase]; rfl) fun f t hw hf => ?_
      -- both sides are closed, and a closed descriptor is not watched
      obtain ⟨htarget, hw⟩ := target.watchAfter hf (watchAfter_append.mp hw)
      obtain ⟨hclient, hw⟩ := client.watchAfter hf hw
      obtain ⟨side, -, rfl⟩ := h.2.2 f t hw
      cases side with
      | client => exact absurd rfl hclient
      | target => exact absurd rfl htarget

/-- A client that was released is not watched. -/
theorem release (h : Watched c (some st) k) (released : Released st tr)
    (ran : k.Ran (.client c) tr k') : Watched c none k' := by
  refine ⟨ran.wf h.1, fun fd t hw => ?_⟩
  have hfd := h.nonneg ran hw
  obtain ⟨client, target⟩ := released
  obtain ⟨htarget, hw⟩ := target.watchAfter hfd (watchAfter_append.mp (ran.watches hw))
  obtain ⟨hclient, hw⟩ := client.watchAfter hfd hw
  obtain ⟨side, -, rfl⟩ := h.2.2 fd t hw
  cases side with
  | client => exact hclient rfl
  | target => exact htarget rfl

theorem tick {s : Option ClientState} (h : Watched c (some st) k) (ticked : Ticked st tr s)
    (ran : k.Ran (.client c) tr k') : Watched c s k' := by
  cases ticked with
  | active => exact h.keep ran (by simp [Still, Io.fdEffect]) rfl rfl id
  | released dead release =>
      obtain ⟨k₁, first, rest⟩ := Kernel.ran_cons_iff.mp ran
      exact (h.keep first (by simp [Still, Io.fdEffect]) rfl rfl id).release release rest
  | silenced stale live client target ok₁ ok₂ =>
      refine h.fewer ran (fun hw => ?_) rfl rfl id
      cases ok₁ <;> cases ok₂
      · exact hw
      · exact hw.2
      · exact hw.2
      · exact hw.2.2
  | expired => exact h.keep ran (by simp [Still, Io.fdEffect]) rfl rfl id

/-- A client that is not watched, and registers nothing. -/
theorem unwatched (h : Watched c none k) (ran : k.Ran (.client c) tr k')
    (hkept : ∀ {fd t b}, WatchAfter fd t b tr → b) : Watched c none k' :=
  ⟨ran.wf h.1, fun fd t hw => h.2 fd t (hkept (ran.watches hw))⟩

/-- A fresh state that is not registered yet. -/
theorem fresh (h : Watched c none k) (fd : Fd) (now : Int) :
    Watched c (some (ClientState.create fd now)) k :=
  ⟨h.1, fun _ => rfl, fun fd t hw => (h.2 fd t hw).elim⟩

theorem born {fd : Fd} {s : Option ClientState} (h : Watched c none k)
    (registered : Registered fd tr s)
    (ran : k.Ran (.client c) (⟨.accept, .conn fd⟩ :: tr) k') : Watched c s k' := by
  cases registered with
  | noState => exact h.unwatched ran And.right
  | noBuffers now failed => exact h.unwatched ran And.right
  | noData now release =>
      obtain ⟨k₁, first, rest⟩ := Kernel.ran_cons_append.mp ran
      exact ((h.unwatched first id).fresh fd now).release release rest
  | addFailed now release =>
      obtain ⟨k₁, first, rest⟩ := Kernel.ran_cons_append.mp ran
      exact ((h.unwatched first id).fresh fd now).release release rest
  | created now =>
      refine ⟨ran.wf h.1, fun _ => rfl, fun f t hw => ?_⟩
      have hw : if fd = f then some EpollFdType.client = some t else k.Watches f t c :=
        ran.watches hw
      split at hw
      · rename_i hfd
        cases hw
        exact ⟨.client, rfl, hfd⟩
      · exact (h.2 f t hw).elim

/-- What the calls of one party do to the registrations of the others. -/
def Guarantee (who : Party) (k k' : Kernel) : Prop :=
  (k.Wf → k'.Wf) ∧ ∀ c, who ≠ .client c → ∀ fd t, k'.Watches fd t c → k.Watches fd t c

theorem guarantee {who : Party} (ran : k.Ran who tr k') : Guarantee who k k' :=
  ⟨ran.wf, fun _ hwho _ _ => ran.watches_other hwho⟩

theorem relyGuarantee : RelyGuarantee (fun c => Watched c none) Watched Guarantee where
  refl := ⟨id, fun _ _ _ _ => id⟩
  trans h₁ h₂ := ⟨h₂.1 ∘ h₁.1, fun c hc fd t hw => h₁.2 c hc fd t (h₂.2 c hc fd t hw)⟩
  apart := by
    intro who c s k k' hF hwho h
    cases s with
    | none => exact ⟨hF.1 h.1, fun fd t hw => h.2 fd t (hF.2 c hwho fd t hw)⟩
    | some st => exact ⟨hF.1 h.1, h.2.1, fun fd t hw => h.2.2 fd t (hF.2 c hwho fd t hw)⟩
  unborn hF hwho h := ⟨hF.1 h.1, fun fd t hw => h.2 fd t (hF.2 _ hwho fd t hw)⟩
  readTimer := guarantee
  refused {c k r k'} h ran := ⟨h.unwatched ran (by cases r <;> exact id), guarantee ran⟩
  born h registered ran := ⟨h.born registered ran, guarantee ran⟩
  slot _ := id
  move h _ move ran := ⟨h.move move ran, guarantee ran⟩
  tick h ticked ran := ⟨h.tick ticked ran, guarantee ran⟩
  release h released ran := ⟨h.release released ran, guarantee ran⟩

end Watched

/-- **Registrations.** In every reachable world epoll watches a client only on
the descriptors in its state, and does not watch a client that is gone. -/
theorem watched_reachable {w : World} (h : proxy.Reachable w) (c : ClientId) :
    Watched c (w.mem.heap c) w.kernel := by
  have holds := Watched.relyGuarantee.reachable (fun w hw c => ⟨Kernel.boot_wf hw, ?_⟩) h
  · rcases Nat.lt_or_ge c w.mem.nextId with hborn | hunborn
    · exact holds.clients c hborn
    · obtain ⟨hnone, hU⟩ := holds.unborn c hunborn
      exact hnone ▸ hU
  · obtain ⟨serverSock, epollFd, timerFd, -, -, -, -, rfl⟩ := hw
    rintro fd t ⟨events, hw⟩
    simp only [World.boot] at hw
    split at hw
    · cases hw
    · split at hw <;> cases hw

end SimpleProxy
