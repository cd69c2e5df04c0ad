import SimpleProxy.Logic.Kernel
import SimpleProxy.Logic.Rewrites
import SimpleProxy.Logic.Server
import SimpleProxy.Logic.Start

/-!
# From `main` to the loop

Every result about the event loop begins with a booted world. The start leads to one, or the
process exits; what it leaves open then is the connection to the database, if it was made, and
at most one descriptor that it lost sight of.
-/

namespace SimpleProxy.Theorems.Start

open Interact CString

variable {base k k₁ k' : Kernel} {tr : StartHistory} {fd serverSock epollFd : Fd} {who : Party}

/-! ## Opening and closing again -/

theorem kernel_ext (fds : ∀ fd, k.fds fd = k'.fds fd)
    (interest : ∀ fd, k.interest fd = k'.interest fd) (trace : k.trace = k'.trace) : k = k' := by
  cases k
  cases k'
  simp only [Kernel.mk.injEq]
  exact ⟨funext fds, funext interest, trace⟩

theorem ran_cons {c : StartCall} {r : StartAnswer c} :
    Kernel.startEnv.run k (startIo c r :: tr) = some k' ↔
      ∃ k₁, k.startEffect c r = some k₁ ∧ Kernel.startEnv.run k₁ tr = some k' :=
  Option.bind_eq_some_iff

theorem ran_append {t₁ t₂ : StartHistory} : Kernel.startEnv.run k (t₁ ++ t₂) = some k' ↔
    ∃ k₁, Kernel.startEnv.run k t₁ = some k₁ ∧ Kernel.startEnv.run k₁ t₂ = some k' := by
  rw [Env.run_append]
  exact Option.bind_eq_some_iff

theorem opened_eq_some : k.opened fd = some k₁ ↔ fd = -1 ∧ k₁ = k ∨
    0 ≤ fd ∧ k.fds fd = none ∧ k₁ = k.openFd fd .proxy := by
  unfold Kernel.opened
  by_cases failed : fd = -1
  · subst failed
    simp [eq_comm]
  · simp [failed, and_assoc, eq_comm]

theorem onOpen_eq_some {ok : Bool} : k.onOpen fd ok = some k₁ ↔
    (ok = true → k.fds fd ≠ none) ∧ k₁ = k := by
  unfold Kernel.onOpen
  split <;> simp_all [eq_comm]

theorem absent_of_closed (wf : k.Wf) (closed : k.fds fd = none) : k.interest fd = none := by
  by_contra registered
  exact wf.watched fd registered closed

/-- Closing two descriptors that are all there is beyond `base`. -/
theorem closed_both (wf : base.Wf) (server : base.fds serverSock = none)
    (epoll : base.fds epollFd = none)
    (fds : ∀ fd, fd ≠ serverSock → fd ≠ epollFd → k.fds fd = base.fds fd)
    (interest : ∀ fd, fd ≠ serverSock → fd ≠ epollFd → k.interest fd = base.interest fd)
    (trace : k.trace = base.trace) : (k.closeFd serverSock).closeFd epollFd = base := by
  have server' := absent_of_closed wf server
  have epoll' := absent_of_closed wf epoll
  refine kernel_ext (fun f => ?_) (fun f => ?_) trace
  · by_cases he : f = epollFd
    · simp [Kernel.closeFd, he, epoll]
    · by_cases hs : f = serverSock
      · subst hs
        simp [Kernel.closeFd, he, server]
      · simpa [Kernel.closeFd, he, hs] using fds f hs he
  · by_cases he : f = epollFd
    · simp [Kernel.closeFd, he, epoll']
    · by_cases hs : f = serverSock
      · subst hs
        simp [Kernel.closeFd, he, server']
      · simpa [Kernel.closeFd, he, hs] using interest f hs he

theorem closeFd_openFd (wf : k.Wf) (free : k.fds fd = none) : (k.openFd fd who).closeFd fd = k := by
  have absent := absent_of_closed wf free
  refine kernel_ext (fun f => ?_) (fun f => ?_) rfl
  · by_cases h : f = fd <;> simp [Kernel.closeFd, Kernel.openFd, h, free]
  · by_cases h : f = fd <;> simp [Kernel.closeFd, Kernel.openFd, h, absent]

/-- A descriptor that was asked for is closed again, whether there was one or not. -/
theorem closed_again (wf : k.Wf) (opened : k.opened fd = some k₁) : k₁.closeFd fd = k := by
  rcases opened_eq_some.mp opened with ⟨failed, same⟩ | ⟨-, free, rfl⟩
  · rw [failed, same]
    have closed : k.fds (-1) = none := by
      by_contra hopen
      exact absurd (wf.nonneg _ hopen) (by decide)
    have absent := absent_of_closed wf closed
    refine kernel_ext (fun f => ?_) (fun f => ?_) rfl
    · by_cases h : f = -1 <;> simp [Kernel.closeFd, h, closed]
    · by_cases h : f = -1 <;> simp [Kernel.closeFd, h, absent]
  · exact closeFd_openFd wf free

theorem fresh_wf : Kernel.fresh.Wf :=
  ⟨fun _ hopen => absurd rfl hopen, fun _ registered => absurd rfl registered⟩

theorem openFd_wf (wf : k.Wf) (nonneg : 0 ≤ fd) (free : k.fds fd = none) :
    (k.openFd fd who).Wf :=
  Kernel.Effect.wf (.opened (e := ⟨.socket, some fd⟩) rfl nonneg free) wf

/-! ## The two functions -/

/-- What `create_server_socket` leaves open. -/
theorem opening_ran {port : Int} (h : Opening port tr fd)
    (ran : Kernel.startEnv.run .fresh tr = some k) :
    fd = -1 ∧ (k = .fresh ∨ startIo .socket (0 : Int) ∈ tr ∧ k = Kernel.fresh.openFd 0 .proxy) ∨
      0 < fd ∧ k = Kernel.fresh.openFd fd .proxy := by
  cases h with
  | zero =>
      obtain ⟨k₁, opened, ran⟩ := ran_cons.mp ran
      obtain rfl := Option.some.inj ran
      rcases opened_eq_some.mp opened with ⟨failed, -⟩ | ⟨-, -, rfl⟩
      · cases failed
      · exact .inl ⟨rfl, .inr ⟨List.mem_singleton_self _, rfl⟩⟩
  | noOption fd =>
      obtain ⟨k₁, opened, ran⟩ := ran_cons.mp ran
      obtain ⟨k₂, option, ran⟩ := ran_cons.mp ran
      obtain ⟨k₃, closed, ran⟩ := ran_cons.mp ran
      obtain rfl := Option.some.inj ran
      obtain ⟨-, rfl⟩ := onOpen_eq_some.mp option
      obtain rfl := Option.some.inj closed
      exact .inl ⟨rfl, .inl (closed_again fresh_wf opened)⟩
  | notBound fd =>
      obtain ⟨k₁, opened, ran⟩ := ran_cons.mp ran
      obtain ⟨k₂, option, ran⟩ := ran_cons.mp ran
      obtain ⟨k₃, bound, ran⟩ := ran_cons.mp ran
      obtain ⟨k₄, closed, ran⟩ := ran_cons.mp ran
      obtain rfl := Option.some.inj ran
      obtain ⟨-, rfl⟩ := onOpen_eq_some.mp option
      obtain ⟨-, rfl⟩ := onOpen_eq_some.mp bound
      obtain rfl := Option.some.inj closed
      exact .inl ⟨rfl, .inl (closed_again fresh_wf opened)⟩
  | notListening fd =>
      obtain ⟨k₁, opened, ran⟩ := ran_cons.mp ran
      obtain ⟨k₂, option, ran⟩ := ran_cons.mp ran
      obtain ⟨k₃, bound, ran⟩ := ran_cons.mp ran
      obtain ⟨k₄, listening, ran⟩ := ran_cons.mp ran
      obtain ⟨k₅, closed, ran⟩ := ran_cons.mp ran
      obtain rfl := Option.some.inj ran
      obtain ⟨-, rfl⟩ := onOpen_eq_some.mp option
      obtain ⟨-, rfl⟩ := onOpen_eq_some.mp bound
      obtain ⟨-, rfl⟩ := onOpen_eq_some.mp listening
      obtain rfl := Option.some.inj closed
      exact .inl ⟨rfl, .inl (closed_again fresh_wf opened)⟩
  | made fd nonzero =>
      obtain ⟨k₁, opened, ran⟩ := ran_cons.mp ran
      obtain ⟨k₂, option, ran⟩ := ran_cons.mp ran
      obtain ⟨k₃, bound, ran⟩ := ran_cons.mp ran
      obtain ⟨k₄, listening, ran⟩ := ran_cons.mp ran
      obtain rfl := Option.some.inj ran
      obtain ⟨there, rfl⟩ := onOpen_eq_some.mp option
      obtain ⟨-, rfl⟩ := onOpen_eq_some.mp bound
      obtain ⟨-, rfl⟩ := onOpen_eq_some.mp listening
      rcases opened_eq_some.mp opened with ⟨-, rfl⟩ | ⟨nonneg, -, rfl⟩
      -- `setsockopt` does not succeed on -1
      · exact absurd rfl (there rfl)
      · exact .inr ⟨Int.lt_iff_le_and_ne.mpr ⟨nonneg, Ne.symm nonzero⟩, rfl⟩

/-- The descriptor of a timer that was created, and not registered. -/
def Lost (tr : StartHistory) (fd : Fd) : Prop :=
  startIo .timerfdCreate fd ∈ tr ∧
    (startIo .malloc false ∈ tr ∨ startIo (.epollAdd fd ⟨true, false⟩ .timer) false ∈ tr)

theorem Lost.mono {tr' : StartHistory} (lost : Lost tr fd) (more : tr ⊆ tr') : Lost tr' fd :=
  ⟨more lost.1, lost.2.imp (fun h => more h) fun h => more h⟩

/-- What `register_timer` leaves open. -/
theorem timerSet_ran (h : TimerSet tr fd) (wf : k.Wf) (ran : Kernel.startEnv.run k tr = some k') :
    fd = -1 ∧ (k' = k ∨ ∃ f, Lost tr f ∧ 0 ≤ f ∧ k.fds f = none ∧ k' = k.openFd f .proxy) ∨
      0 ≤ fd ∧ k.fds fd = none ∧ k' = (k.openFd fd .proxy).register fd
        (some ⟨⟨true, false⟩, some ⟨.timer, none⟩⟩) := by
  cases h with
  | none =>
      obtain ⟨k₁, opened, ran⟩ := ran_cons.mp ran
      obtain rfl := Option.some.inj ran
      rcases opened_eq_some.mp opened with ⟨-, rfl⟩ | ⟨nonneg, -⟩
      · exact .inl ⟨rfl, .inl rfl⟩
      · exact absurd nonneg (by decide)
  | notSet fd =>
      obtain ⟨k₁, opened, ran⟩ := ran_cons.mp ran
      obtain ⟨k₂, set, ran⟩ := ran_cons.mp ran
      obtain ⟨k₃, closed, ran⟩ := ran_cons.mp ran
      obtain rfl := Option.some.inj ran
      obtain ⟨-, rfl⟩ := onOpen_eq_some.mp set
      obtain rfl := Option.some.inj closed
      exact .inl ⟨rfl, .inl (closed_again wf opened)⟩
  | noMemory fd =>
      obtain ⟨k₁, opened, ran⟩ := ran_cons.mp ran
      obtain ⟨k₂, set, ran⟩ := ran_cons.mp ran
      obtain ⟨k₃, room, ran⟩ := ran_cons.mp ran
      obtain rfl := Option.some.inj ran
      obtain ⟨there, rfl⟩ := onOpen_eq_some.mp set
      obtain rfl := Option.some.inj room
      rcases opened_eq_some.mp opened with ⟨rfl, rfl⟩ | ⟨nonneg, free, rfl⟩
      · exact absurd (wf.nonneg _ (there rfl)) (by decide)
      · exact .inl ⟨rfl, .inr ⟨fd, by simp [Lost], nonneg, free, rfl⟩⟩
  | notAdded fd =>
      obtain ⟨k₁, opened, ran⟩ := ran_cons.mp ran
      obtain ⟨k₂, set, ran⟩ := ran_cons.mp ran
      obtain ⟨k₃, room, ran⟩ := ran_cons.mp ran
      obtain ⟨k₄, added, ran⟩ := ran_cons.mp ran
      obtain rfl := Option.some.inj ran
      obtain ⟨there, rfl⟩ := onOpen_eq_some.mp set
      obtain rfl := Option.some.inj room
      obtain rfl := Option.some.inj added
      rcases opened_eq_some.mp opened with ⟨rfl, rfl⟩ | ⟨nonneg, free, rfl⟩
      · exact absurd (wf.nonneg _ (there rfl)) (by decide)
      · exact .inl ⟨rfl, .inr ⟨fd, by simp [Lost], nonneg, free, rfl⟩⟩
  | made fd real =>
      obtain ⟨k₁, opened, ran⟩ := ran_cons.mp ran
      obtain ⟨k₂, set, ran⟩ := ran_cons.mp ran
      obtain ⟨k₃, room, ran⟩ := ran_cons.mp ran
      obtain ⟨k₄, added, ran⟩ := ran_cons.mp ran
      obtain rfl := Option.some.inj ran
      obtain ⟨-, rfl⟩ := onOpen_eq_some.mp set
      obtain rfl := Option.some.inj room
      obtain ⟨-, added⟩ := Option.ite_none_right_eq_some.mp added
      obtain rfl := Option.some.inj added
      rcases opened_eq_some.mp opened with ⟨absent, -⟩ | ⟨nonneg, free, rfl⟩
      · exact absurd absent real
      · exact .inr ⟨nonneg, free, rfl⟩

/-! ## The end of the start -/

/-- `cleanup_resources` on descriptors that are real. -/
theorem cleaned_ran (server : serverSock ≠ -1) (epoll : epollFd ≠ -1)
    (ran : Kernel.startEnv.run k (cleaned serverSock epollFd) = some k') :
    k' = (k.closeFd serverSock).closeFd epollFd := by
  rw [cleaned, closedIf, if_pos server, closedIf, if_pos epoll] at ran
  exact (Option.some.inj ran).symm

/-- The descriptors of `main` that are open when the process exits: none, the listening socket if
it has the number 0, or a timer that could not be registered. -/
def FdsLeft (tr : StartHistory) (k : Kernel) : Prop :=
  k = .fresh ∨ startIo .socket (0 : Int) ∈ tr ∧ k = Kernel.fresh.openFd 0 .proxy ∨
    ∃ fd, Lost tr fd ∧ k = Kernel.fresh.openFd fd .proxy

theorem FdsLeft.mono {tr' : StartHistory} (left : FdsLeft tr k) (more : tr ⊆ tr') :
    FdsLeft tr' k := by
  rcases left with fresh | ⟨zero, hk⟩ | ⟨fd, lost, hk⟩
  · exact .inl fresh
  · exact .inr (.inl ⟨more zero, hk⟩)
  · exact .inr (.inr ⟨fd, lost.mono more, hk⟩)

/-- The listening socket is registered with epoll. -/
def listening (serverSock epollFd : Fd) : Kernel :=
  ((Kernel.fresh.openFd serverSock .proxy).openFd epollFd .proxy).register serverSock
    (some ⟨⟨true, false⟩, some ⟨.listener, none⟩⟩)

theorem listening_ran (epoll : epollFd ≠ -1)
    (ran : Kernel.startEnv.run (Kernel.fresh.openFd serverSock .proxy)
      (startIo .epollCreate epollFd :: startIo .malloc true ::
        startIo (.epollAdd serverSock ⟨true, false⟩ .listener) true :: tr) = some k) :
    0 ≤ epollFd ∧ epollFd ≠ serverSock ∧
      Kernel.startEnv.run (listening serverSock epollFd) tr = some k := by
  obtain ⟨k₁, opened, ran⟩ := ran_cons.mp ran
  obtain ⟨k₂, room, ran⟩ := ran_cons.mp ran
  obtain ⟨k₃, added, ran⟩ := ran_cons.mp ran
  obtain rfl := Option.some.inj room
  obtain ⟨-, added⟩ := Option.ite_none_right_eq_some.mp added
  obtain rfl := Option.some.inj added
  obtain ⟨nonneg, free, rfl⟩ := (opened_eq_some.mp opened).resolve_left fun h => epoll h.1
  refine ⟨nonneg, ?_, ran⟩
  rintro rfl
  simp [Kernel.openFd] at free

theorem listening_wf (server : 0 ≤ serverSock) (epoll : 0 ≤ epollFd)
    (other : epollFd ≠ serverSock) : (listening serverSock epollFd).Wf := by
  have opened : (Kernel.fresh.openFd serverSock .proxy).Wf := openFd_wf fresh_wf server rfl
  have both : ((Kernel.fresh.openFd serverSock .proxy).openFd epollFd .proxy).Wf :=
    openFd_wf opened epoll (by simp [Kernel.openFd, other, Kernel.fresh])
  refine ⟨both.nonneg, fun f registered => ?_⟩
  by_cases h : f = serverSock
  · subst h
    simp [listening, Kernel.register, Kernel.openFd, other.symm]
  · simp [listening, Kernel.register, Kernel.openFd, h, Kernel.fresh] at registered

/-- What `run_loop` begins with, or leaves open. -/
def EntersOrExits (tr : StartHistory) (k : Kernel) : StartResult → Prop
  | .exit code => code = 1 ∧ (k = .fresh ∨ ∃ fd, Lost tr fd ∧ k = Kernel.fresh.openFd fd .proxy)
  | .loop serverSock epollFd timerFd => 0 ≤ epollFd ∧ 0 ≤ timerFd ∧
      [serverSock, epollFd, timerFd].Nodup ∧ k = (World.boot serverSock epollFd timerFd).kernel

theorem entering_ran {result : StartResult} (h : Entering serverSock tr result)
    (pos : 0 < serverSock)
    (ran : Kernel.startEnv.run (Kernel.fresh.openFd serverSock .proxy) tr = some k) :
    EntersOrExits tr k result := by
  have real : serverSock ≠ -1 := by
    rintro rfl
    exact absurd pos (by decide)
  have wf : (Kernel.fresh.openFd serverSock .proxy).Wf :=
    openFd_wf fresh_wf (Int.le_of_lt pos) rfl
  cases h with
  | noEpoll =>
      obtain ⟨k₁, opened, ran⟩ := ran_cons.mp ran
      rcases opened_eq_some.mp opened with ⟨-, rfl⟩ | ⟨nonneg, -⟩
      · rw [cleaned, closedIf, if_pos real] at ran
        obtain rfl := Option.some.inj ran
        exact ⟨rfl, .inl (closeFd_openFd fresh_wf rfl)⟩
      · exact absurd nonneg (by decide)
  | noMemory epollFd epoll =>
      obtain ⟨k₁, opened, ran⟩ := ran_cons.mp ran
      obtain ⟨k₂, room, ran⟩ := ran_cons.mp ran
      obtain rfl := Option.some.inj room
      obtain ⟨-, other, rfl⟩ := (opened_eq_some.mp opened).resolve_left fun h => epoll h.1
      obtain rfl := cleaned_ran real epoll ran
      refine ⟨rfl, .inl (closed_both fresh_wf rfl rfl (fun f hs he => ?_) (fun f _ _ => rfl) rfl)⟩
      simp [Kernel.openFd, hs, he]
  | notAdded epollFd epoll =>
      obtain ⟨k₁, opened, ran⟩ := ran_cons.mp ran
      obtain ⟨k₂, room, ran⟩ := ran_cons.mp ran
      obtain ⟨k₃, added, ran⟩ := ran_cons.mp ran
      obtain rfl := Option.some.inj room
      obtain rfl := Option.some.inj added
      obtain ⟨-, other, rfl⟩ := (opened_eq_some.mp opened).resolve_left fun h => epoll h.1
      obtain rfl := cleaned_ran real epoll ran
      refine ⟨rfl, .inl (closed_both fresh_wf rfl rfl (fun f hs he => ?_) (fun f _ _ => rfl) rfl)⟩
      simp [Kernel.openFd, hs, he]
  | @noTimer epollFd epoll t timer =>
      simp only [List.cons_append, List.nil_append] at ran
      obtain ⟨nonneg, other, ran⟩ := listening_ran epoll ran
      obtain ⟨k₁, set, ran⟩ := ran_append.mp ran
      obtain rfl := cleaned_ran real epoll ran
      have wf' := listening_wf (Int.le_of_lt pos) nonneg other
      rcases timerSet_ran timer wf' set with ⟨-, rfl | ⟨f, lost, low, free, rfl⟩⟩ | ⟨absent, -⟩
      · refine ⟨rfl, .inl (closed_both fresh_wf rfl rfl (fun f hs he => ?_) (fun f hs _ => ?_) rfl)⟩
        · simp [listening, Kernel.register, Kernel.openFd, hs, he]
        · simp [listening, Kernel.register, Kernel.openFd, hs]
      · have hs : f ≠ serverSock := by
          rintro rfl
          simp [listening, Kernel.register, Kernel.openFd, other.symm] at free
        have he : f ≠ epollFd := by
          rintro rfl
          simp [listening, Kernel.register, Kernel.openFd] at free
        refine ⟨rfl, .inr ⟨f, lost.mono fun e he => by simp [he], ?_⟩⟩
        refine closed_both (openFd_wf fresh_wf low rfl) ?_ ?_ (fun g gs ge => ?_)
          (fun g gs _ => ?_) rfl
        · simp [Kernel.openFd, hs.symm, Kernel.fresh]
        · simp [Kernel.openFd, he.symm, Kernel.fresh]
        · by_cases h : g = f
          · simp [Kernel.openFd, h]
          · simp [listening, Kernel.register, Kernel.openFd, h, gs, ge]
        · simp [listening, Kernel.register, Kernel.openFd, gs]
      · exact absurd absent (by decide)
  | @entered epollFd epoll t timerFd timer set =>
      obtain ⟨nonneg, other, ran⟩ := listening_ran epoll ran
      have wf' := listening_wf (Int.le_of_lt pos) nonneg other
      rcases timerSet_ran timer wf' ran with ⟨absent, -⟩ | ⟨low, free, rfl⟩
      · exact absurd absent set
      · have hs : timerFd ≠ serverSock := by
          rintro rfl
          simp [listening, Kernel.register, Kernel.openFd, other.symm] at free
        have he : timerFd ≠ epollFd := by
          rintro rfl
          simp [listening, Kernel.register, Kernel.openFd] at free
        refine ⟨nonneg, low, by simp [other.symm, hs.symm, he.symm], ?_⟩
        refine kernel_ext (fun f => ?_) (fun f => ?_) rfl
        · by_cases ht : f = timerFd <;> by_cases hs : f = serverSock <;>
            by_cases he : f = epollFd <;>
              simp_all [World.boot, listening, Kernel.register, Kernel.openFd, Kernel.fresh]
        · by_cases ht : f = timerFd <;> by_cases hs : f = serverSock <;>
            simp_all [World.boot, listening, Kernel.register, Kernel.openFd, Kernel.fresh]

/-! ## The files -/

theorem run_files (t : List Files.FileIo) :
    Kernel.startEnv.run k (t.map Exchange.inLeft) = some k := by
  induction t with
  | nil => rfl
  | cons e t ih => exact ih

section Sides

variable {sound : Bool} {m m' : StartState}

/-- The sides do not see each other. -/
theorem run_kernel (ran : (startHost sound).run m tr = some m') :
    Kernel.startEnv.run m.kernel tr = some m'.kernel := by
  induction tr generalizing m with
  | nil =>
      cases ran
      rfl
  | cons e tr ih =>
      obtain ⟨c | c, r⟩ := e
      · obtain ⟨m₁, step, ran⟩ := Option.bind_eq_some_iff.mp ran
        obtain ⟨_, -, rfl⟩ := Option.map_eq_some_iff.mp step
        have later := ih ran
        exact later
      · obtain ⟨m₁, step, ran⟩ := Option.bind_eq_some_iff.mp ran
        obtain ⟨_, effect, rfl⟩ := Option.map_eq_some_iff.mp step
        exact ran_cons.mpr ⟨_, effect, ih ran⟩

theorem run_disk {t : List Files.FileIo}
    (ran : (startHost sound).run m (t.map Exchange.inLeft ++ tr) = some m') :
    ∃ d₁, (Files.storage sound).run m.disk t = some d₁ := by
  induction t generalizing m with
  | nil => exact ⟨m.disk, rfl⟩
  | cons e t ih =>
      obtain ⟨m₁, step, ran⟩ := Option.bind_eq_some_iff.mp ran
      obtain ⟨_, after, rfl⟩ := Option.map_eq_some_iff.mp step
      obtain ⟨d₂, rest⟩ := ih ran
      exact ⟨d₂, Option.bind_eq_some_iff.mpr ⟨_, after, rest⟩⟩

theorem connects_iff {c : StartCall} {r : StartAnswer c} :
    connects c r = true ↔ ∃ config, startIo (.dbCreate config) true = startIo c r := by
  constructor
  · intro h
    cases c with
    | dbCreate config =>
        obtain rfl : r = true := h
        exact ⟨config, rfl⟩
    | _ => cases h
  · rintro ⟨config, same⟩
    cases same
    rfl

/-- Once it is made, the connection stays. -/
theorem run_connected (ran : (startHost sound).run m tr = some m') :
    m'.connected = true ↔
      m.connected = true ∨ ∃ config, startIo (.dbCreate config) true ∈ tr := by
  induction tr generalizing m with
  | nil =>
      cases ran
      simp
  | cons e tr ih =>
      obtain ⟨c | c, r⟩ := e
      · obtain ⟨m₁, step, ran⟩ := Option.bind_eq_some_iff.mp ran
        obtain ⟨_, -, rfl⟩ := Option.map_eq_some_iff.mp step
        rw [ih ran]
        refine or_congr_right (exists_congr fun config => ?_)
        rw [List.mem_cons]
        exact (or_iff_right fun same => by cases same).symm
      · obtain ⟨m₁, step, ran⟩ := Option.bind_eq_some_iff.mp ran
        obtain ⟨_, -, rfl⟩ := Option.map_eq_some_iff.mp step
        have first : (m.connected || connects c r) = true ↔
            m.connected = true ∨ ∃ config, startIo (.dbCreate config) true = startIo c r :=
          Bool.or_eq_true_iff.trans (or_congr_right connects_iff)
        refine (ih ran).trans ((or_congr_left first).trans ?_)
        rw [or_assoc, ← exists_or]
        exact or_congr_right (exists_congr fun config => List.mem_cons.symm)

/-- A configuration that passes was read from the file, or from the part of it in front of a
read error. -/
theorem read_from_file {rounds : Nat} {path : Bytes} {config : Config} {d d' : Files.Disk}
    {t : List Files.FileIo}
    (h : (loadConfig rounds path).Ends (Files.storage sound) d t config d')
    (checked : checkConfig config = true) : ∃ f part, d.content path = some f ∧ part <+: f ∧
      (sound = true → part = f) ∧ config = loaded part := by
  obtain ⟨opened, d₁, rest, rfl, hopen, load⟩ := Prog.ends_perform_bind.mp h
  cases opened with
  | false =>
      obtain ⟨-, rfl, -⟩ := Prog.ends_ret.mp load
      exact absurd checked (by decide)
  | true =>
      obtain ⟨config', d₂, t₁, t₂, rfl, hlines, load⟩ := Prog.ends_bind.mp load
      obtain ⟨_, d₃, _, -, -, load⟩ := Prog.ends_perform_bind.mp load
      obtain ⟨-, rfl, -⟩ := Prog.ends_ret.mp load
      obtain ⟨front, hfront, rfl, whole⟩ := loadLines_storage hlines
      obtain ⟨-, hf⟩ := Files.after_fopenRead (Files.storage_after hopen)
      obtain ⟨same, fits⟩ := pieces_of_prefix two_le_maxLine hfront
      refine ⟨d₁.unread, front.flatten, hf, fits, fun sound => ?_, ?_⟩
      · rw [whole sound, flatten_pieces two_le_maxLine]
      · rw [loaded, same]

end Sides

/-! ## All of it -/

/-- The calls of a start that succeeds, after the configuration is read. -/
def upCalls (config : Config) (serverSock epollFd timerFd : Fd) : StartHistory :=
  [startIo (.dbCreate config) true, startIo .socket serverSock, startIo (.setsockopt serverSock) true,
    startIo (.bind serverSock (htons config.port)) true, startIo (.listen serverSock 128) true,
    startIo .epollCreate epollFd, startIo .malloc true,
    startIo (.epollAdd serverSock ⟨true, false⟩ .listener) true,
    startIo .timerfdCreate timerFd, startIo (.timerfdSettime timerFd 5) true, startIo .malloc true,
    startIo (.epollAdd timerFd ⟨true, false⟩ .timer) true]

/-- The loop is entered after these calls only. -/
theorem loop_calls {config : Config} {t₁ t₂ : StartHistory} {s timerFd : Fd}
    (opening : Opening config.port t₁ serverSock)
    (entering : Entering serverSock t₂ (.loop s epollFd timerFd)) (pos : 0 < serverSock) :
    s = serverSock ∧ startIo (.dbCreate config) true :: (t₁ ++ t₂) =
      upCalls config serverSock epollFd timerFd := by
  have real : serverSock ≠ -1 := by
    rintro rfl
    exact absurd pos (by decide)
  cases opening with
  | zero => exact absurd rfl real
  | noOption => exact absurd rfl real
  | notBound => exact absurd rfl real
  | notListening => exact absurd rfl real
  | made _ nonzero =>
      cases entering with
      | entered _ _ timer set =>
          cases timer with
          | made => exact ⟨rfl, rfl⟩
          | none => exact absurd rfl set
          | notSet => exact absurd rfl set
          | noMemory => exact absurd rfl set
          | notAdded => exact absurd rfl set

/-- What a run of `main` that exits leaves open. -/
theorem exit_ran {rounds : Nat} {argv : List Bytes} {code : Int}
    (h : Starting rounds argv tr (.exit code)) (ran : Kernel.startEnv.run .fresh tr = some k) :
    code = (if checkPrintVersion argv then 0 else 1) ∧ FdsLeft tr k := by
  generalize hresult : StartResult.exit code = result at h
  cases h with
  | version asked =>
      cases hresult
      obtain rfl := Option.some.inj ran
      exact ⟨by rw [if_pos asked], .inl rfl⟩
  | notConfigured proper =>
      cases hresult
      rw [run_files] at ran
      obtain rfl := Option.some.inj ran
      exact ⟨by rw [if_neg proper], .inl rfl⟩
  | notConnected proper =>
      cases hresult
      obtain ⟨k₁, files, ran⟩ := ran_append.mp ran
      rw [run_files] at files
      cases files
      obtain rfl := Option.some.inj ran
      exact ⟨by rw [if_neg proper], .inl rfl⟩
  | notListening proper loads complete opening negative =>
      cases hresult
      obtain ⟨k₁, files, ran⟩ := ran_append.mp ran
      rw [run_files] at files
      cases files
      obtain ⟨k₂, connect, ran⟩ := ran_cons.mp ran
      cases connect
      refine ⟨by rw [if_neg proper], ?_⟩
      rcases opening_ran opening ran with ⟨-, rfl | ⟨zero, rfl⟩⟩ | ⟨pos, -⟩
      · exact .inl rfl
      · exact .inr (.inl ⟨by simp [zero], rfl⟩)
      · exact absurd negative (Int.not_lt.mpr (Int.le_of_lt pos))
  | listening proper loads complete opening nonneg entering =>
      cases hresult
      obtain ⟨k₁, files, ran⟩ := ran_append.mp ran
      rw [run_files] at files
      cases files
      obtain ⟨k₂, connect, ran⟩ := ran_cons.mp ran
      cases connect
      obtain ⟨k₃, opened, ran⟩ := ran_append.mp ran
      rcases opening_ran opening opened with ⟨rfl, -⟩ | ⟨pos, rfl⟩
      · exact absurd (show (-1 : Int) < 0 by decide) nonneg
      · obtain ⟨rfl, left⟩ := entering_ran entering pos ran
        refine ⟨by rw [if_neg proper], FdsLeft.mono (left.imp_right .inr) fun e he => ?_⟩
        simp [he]

/-- What a run of `main` that enters the loop has done. The configuration is the one of the file,
or of a part of it if a read may fail. -/
structure Entered (sound : Bool) (d : Files.Disk) (tr : StartHistory) (m : StartState)
    (serverSock epollFd timerFd : Fd) : Prop where
  calls : ∃ (f part : Bytes) (t : List Files.FileIo), d.content confPath = some f ∧ part <+: f ∧
    (sound = true → part = f) ∧ checkConfig (loaded part) = true ∧
    tr = t.map Exchange.inLeft ++ upCalls (loaded part) serverSock epollFd timerFd
  connected : m.connected = true
  booted : World.mk .boot m.kernel [] = .boot serverSock epollFd timerFd
  initial : proxy.init (World.mk .boot m.kernel [])

theorem loop_ran {sound : Bool} {rounds : Nat} {argv : List Bytes} {d : Files.Disk}
    {m : StartState} {timerFd : Fd}
    (h : Starting rounds argv tr (.loop serverSock epollFd timerFd))
    (host : (startHost sound).run (.fresh d) tr = some m) :
    Entered sound d tr m serverSock epollFd timerFd := by
  have ran := run_kernel host
  have connected := run_connected host
  generalize hresult : StartResult.loop serverSock epollFd timerFd = result at h
  cases h with
  | version => cases hresult
  | notConfigured => cases hresult
  | notConnected => cases hresult
  | notListening => cases hresult
  | @listening _ t config loads complete t₁ t₂ s _ opening nonneg entering =>
      subst hresult
      obtain ⟨k₁, files, ran⟩ := ran_append.mp ran
      rw [run_files] at files
      cases files
      obtain ⟨k₂, connect, ran⟩ := ran_cons.mp ran
      cases connect
      obtain ⟨k₃, opened, ran⟩ := ran_append.mp ran
      rcases opening_ran opening opened with ⟨rfl, -⟩ | ⟨pos, rfl⟩
      · exact absurd (show (-1 : Int) < 0 by decide) nonneg
      · obtain ⟨epoll, timer, apart, hk⟩ := entering_ran entering pos ran
        obtain ⟨rfl, calls⟩ := loop_calls opening entering pos
        obtain ⟨d₁, disk⟩ := run_disk host
        obtain ⟨f, part, there, fits, whole, rfl⟩ := read_from_file ⟨loads, disk⟩ complete
        refine ⟨⟨f, part, t, there, fits, whole, complete, by rw [calls]⟩,
          connected.mpr (.inr ⟨loaded part, by simp⟩), by rw [hk]; rfl, ?_⟩
        exact ⟨serverSock, epollFd, timerFd, Int.le_of_lt pos, epoll, timer, apart, by rw [hk]; rfl⟩

/-- What is open when the process exits: at most one descriptor, and the connection to the database
if it was made. -/
structure LeftOpen (tr : StartHistory) (m : StartState) : Prop where
  fds : FdsLeft tr m.kernel
  connection : m.connected = true ↔ ∃ config, startIo (.dbCreate config) true ∈ tr

/-- What `main` comes to with the calls `tr`. -/
def StartsOrExits (sound : Bool) (argv : List Bytes) (d : Files.Disk) (tr : StartHistory)
    (m : StartState) : StartResult → Prop
  | .exit code => code = (if checkPrintVersion argv then 0 else 1) ∧ LeftOpen tr m
  | .loop serverSock epollFd timerFd => Entered sound d tr m serverSock epollFd timerFd

/-- **The start.** `main` exits, or it enters the loop in a state that the runs of the proxy begin
with, after every call succeeded whose result it looks at; a read error passes for the end of the
file. The socket it listens on is bound to the port of the configuration modulo 65536. -/
theorem starts_or_exits (sound : Bool) (rounds : Nat) (argv : List Bytes) (d : Files.Disk)
    (m : StartState) (tr : StartHistory) (result : StartResult)
    (h : (proxyMain rounds argv).Ends (startHost sound) (.fresh d) tr result m) :
    StartsOrExits sound argv d tr m result := by
  obtain ⟨h, host⟩ := h
  cases result with
  | exit code =>
      obtain ⟨hcode, left⟩ := exit_ran (proxyMain_runs h) (run_kernel host)
      refine ⟨hcode, left, (run_connected host).trans (or_iff_right ?_)⟩
      exact Bool.false_ne_true
  | loop serverSock epollFd timerFd => exact loop_ran (proxyMain_runs h) host

/-- Nothing fails, and the descriptors come in order. -/
def smoothStart (m : StartState) : (c : Files.Call ⊕ StartCall) → SetupAnswer c
  | .inl (.fopenRead path) => (m.disk.content path).isSome
  | .inl (.fopenWrite _) => true
  | .inl (.fgets size) => (fgets size m.disk.unread).map Prod.fst
  | .inl (.fputs text) => text.length
  | .inl .fcloseRead => ()
  | .inl .fcloseWrite => (0 : Nat)
  | .inl (.remove _) => true
  | .inl (.rename ..) => true
  | .inr .socket => (3 : Int)
  | .inr .epollCreate => (4 : Int)
  | .inr .timerfdCreate => (5 : Int)
  | .inr (.close _) => ()
  | .inr (.dbCreate _) => true
  | .inr (.setsockopt _) => true
  | .inr (.bind ..) => true
  | .inr (.listen ..) => true
  | .inr (.timerfdSettime ..) => true
  | .inr .malloc => true
  | .inr (.epollAdd ..) => true

/-- A start with a complete configuration on which nothing fails. -/
theorem starts_or_exits_loop :
    ∃ tr m, StartsOrExits true [bytes "simpleproxy"] configured tr m (.loop 3 4 5) := by
  have run : ((proxyMain 8 [bytes "simpleproxy"]).drive (startHost true) smoothStart
      (.fresh configured)).any (fun r => r.2.1 = .loop 3 4 5) = true := by
    decide +kernel
  obtain ⟨⟨tr, result, m⟩, ends, loop⟩ := (Option.any_eq_true _ _).mp run
  obtain rfl := of_decide_eq_true loop
  exact ⟨tr, m, starts_or_exits _ _ _ _ _ _ _ (Prog.ends_of_drive ends)⟩

end SimpleProxy.Theorems.Start
