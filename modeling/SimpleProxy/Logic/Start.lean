import SimpleProxy.Main.Start

/-!
# What the start does

The functions of the start as relations, with the calls they make, and what each of their ends
leaves open. `Opening` and `TimerSet` are `create_server_socket` and `register_timer`.
-/

namespace SimpleProxy

open Interact CString

/-- `create_server_socket`. It takes 0 for a failure, and -1 for a descriptor. -/
inductive Opening (port : Int) : StartHistory → Fd → Prop
  | zero : Opening port [startIo .socket (0 : Int)] (-1)
  | noOption (fd : Fd) : Opening port
      [startIo .socket fd, startIo (.setsockopt fd) false, startIo (.close fd) ()] (-1)
  | notBound (fd : Fd) : Opening port
      [startIo .socket fd, startIo (.setsockopt fd) true, startIo (.bind fd (htons port)) false,
        startIo (.close fd) ()] (-1)
  | notListening (fd : Fd) : Opening port
      [startIo .socket fd, startIo (.setsockopt fd) true, startIo (.bind fd (htons port)) true,
        startIo (.listen fd backlog) false, startIo (.close fd) ()] (-1)
  | made (fd : Fd) (nonzero : fd ≠ 0) : Opening port
      [startIo .socket fd, startIo (.setsockopt fd) true, startIo (.bind fd (htons port)) true,
        startIo (.listen fd backlog) true] fd

/-- `register_timer`. What it created stays open when it cannot be registered. -/
inductive TimerSet : StartHistory → Fd → Prop
  | none : TimerSet [startIo .timerfdCreate (-1 : Int)] (-1)
  | notSet (fd : Fd) : TimerSet
      [startIo .timerfdCreate fd, startIo (.timerfdSettime fd 5) false, startIo (.close fd) ()] (-1)
  | noMemory (fd : Fd) : TimerSet
      [startIo .timerfdCreate fd, startIo (.timerfdSettime fd 5) true, startIo .malloc false] (-1)
  | notAdded (fd : Fd) : TimerSet
      [startIo .timerfdCreate fd, startIo (.timerfdSettime fd 5) true, startIo .malloc true,
        startIo (.epollAdd fd ⟨true, false⟩ .timer) false] (-1)
  | made (fd : Fd) (real : fd ≠ -1) : TimerSet
      [startIo .timerfdCreate fd, startIo (.timerfdSettime fd 5) true, startIo .malloc true,
        startIo (.epollAdd fd ⟨true, false⟩ .timer) true] fd

/-- `cleanup_resources` on one variable. -/
def closedIf (fd : Fd) : StartHistory := if fd ≠ -1 then [startIo (.close fd) ()] else []

/-- `cleanup_resources` without a timer. -/
def cleaned (serverSock epollFd : Fd) : StartHistory := closedIf serverSock ++ closedIf epollFd

/-- `run_loop` up to its loop. -/
inductive Entering (serverSock : Fd) : StartHistory → StartResult → Prop
  | noEpoll : Entering serverSock
      (startIo .epollCreate (-1 : Int) :: cleaned serverSock (-1)) (.exit 1)
  | noMemory (epollFd : Fd) (real : epollFd ≠ -1) : Entering serverSock
      ([startIo .epollCreate epollFd, startIo .malloc false] ++ cleaned serverSock epollFd) (.exit 1)
  | notAdded (epollFd : Fd) (real : epollFd ≠ -1) : Entering serverSock
      ([startIo .epollCreate epollFd, startIo .malloc true,
        startIo (.epollAdd serverSock ⟨true, false⟩ .listener) false] ++
          cleaned serverSock epollFd) (.exit 1)
  | noTimer (epollFd : Fd) (real : epollFd ≠ -1) {t : StartHistory} (timer : TimerSet t (-1)) :
      Entering serverSock
        ([startIo .epollCreate epollFd, startIo .malloc true,
          startIo (.epollAdd serverSock ⟨true, false⟩ .listener) true] ++ t ++
            cleaned serverSock epollFd) (.exit 1)
  | entered (epollFd : Fd) (real : epollFd ≠ -1) {t : StartHistory} {timerFd : Fd}
      (timer : TimerSet t timerFd) (set : timerFd ≠ -1) :
      Entering serverSock
        ([startIo .epollCreate epollFd, startIo .malloc true,
          startIo (.epollAdd serverSock ⟨true, false⟩ .listener) true] ++ t)
        (.loop serverSock epollFd timerFd)

/-- `main` -/
inductive Starting (rounds : Nat) (argv : List Bytes) : StartHistory → StartResult → Prop
  | version (asked : checkPrintVersion argv = true) : Starting rounds argv [] (.exit 0)
  | notConfigured (proper : ¬ checkPrintVersion argv = true) {t : List Files.FileIo}
      {config : Config} (loads : (loadConfig rounds confPath).Runs t config)
      (incomplete : ¬ checkConfig config = true) :
      Starting rounds argv (t.map Exchange.inLeft) (.exit 1)
  | notConnected (proper : ¬ checkPrintVersion argv = true) {t : List Files.FileIo}
      {config : Config} (loads : (loadConfig rounds confPath).Runs t config)
      (complete : checkConfig config = true) :
      Starting rounds argv (t.map Exchange.inLeft ++ [startIo (.dbCreate config) false]) (.exit 1)
  | notListening (proper : ¬ checkPrintVersion argv = true) {t : List Files.FileIo}
      {config : Config} (loads : (loadConfig rounds confPath).Runs t config)
      (complete : checkConfig config = true) {t₁ : StartHistory} {fd : Fd}
      (opening : Opening config.port t₁ fd) (negative : fd < 0) :
      Starting rounds argv
        (t.map Exchange.inLeft ++ startIo (.dbCreate config) true :: t₁) (.exit 1)
  | listening (proper : ¬ checkPrintVersion argv = true) {t : List Files.FileIo}
      {config : Config} (loads : (loadConfig rounds confPath).Runs t config)
      (complete : checkConfig config = true) {t₁ t₂ : StartHistory} {fd : Fd}
      {result : StartResult} (opening : Opening config.port t₁ fd) (nonneg : ¬ fd < 0)
      (entering : Entering fd t₂ result) :
      Starting rounds argv
        (t.map Exchange.inLeft ++ startIo (.dbCreate config) true :: (t₁ ++ t₂)) result

/-! ## The functions make these calls -/

variable {tr : StartHistory} {fd serverSock epollFd : Fd} {result : StartResult} {α : Type}

theorem runs_startPerform {c : StartCall} {f : StartAnswer c → StartProc α} {a : α} :
    (startPerform c >>= f).Runs tr a ↔
      ∃ r rest, tr = startIo c r :: rest ∧ (f r).Runs rest a := Iff.rfl

theorem createServerSocket_runs {port : Int} (h : (createServerSocket port backlog).Runs tr fd) :
    Opening port tr fd := by
  rw [createServerSocket, runs_startPerform] at h
  obtain ⟨serverFd, rest, rfl, h⟩ := h
  by_cases zero : serverFd = 0
  · rw [if_pos zero] at h
    obtain ⟨rfl, rfl⟩ := h
    exact zero ▸ .zero
  · rw [if_neg zero] at h
    rw [runs_startPerform] at h
    obtain ⟨option, rest, rfl, h⟩ := h
    cases option with
    | false =>
        rw [if_neg Bool.false_ne_true, runs_startPerform] at h
        obtain ⟨_, rest, rfl, rfl, rfl⟩ := h
        exact .noOption serverFd
    | true =>
        rw [if_pos rfl, runs_startPerform] at h
        obtain ⟨bound, rest, rfl, h⟩ := h
        cases bound with
        | false =>
            rw [if_neg Bool.false_ne_true, runs_startPerform] at h
            obtain ⟨_, rest, rfl, rfl, rfl⟩ := h
            exact .notBound serverFd
        | true =>
            rw [if_pos rfl, runs_startPerform] at h
            obtain ⟨listening, rest, rfl, h⟩ := h
            cases listening with
            | false =>
                rw [if_neg Bool.false_ne_true, runs_startPerform] at h
                obtain ⟨_, rest, rfl, rfl, rfl⟩ := h
                exact .notListening serverFd
            | true =>
                obtain ⟨rfl, rfl⟩ := h
                exact .made fd zero

theorem registerTimer_runs (h : (registerTimer 5).Runs tr fd) : TimerSet tr fd := by
  rw [registerTimer, Prog.runs_bind] at h
  obtain ⟨timerFd, t₁, t₂, rfl, create, h⟩ := h
  rw [createTimerFd, runs_startPerform] at create
  obtain ⟨created, rest, rfl, create⟩ := create
  by_cases failed : created = -1
  · rw [if_pos failed] at create
    obtain ⟨rfl, rfl⟩ := create
    obtain ⟨rfl, rfl⟩ := h
    exact failed ▸ .none
  · rw [if_neg failed] at create
    rw [runs_startPerform] at create
    obtain ⟨set, rest, rfl, create⟩ := create
    cases set with
    | false =>
        rw [if_neg Bool.false_ne_true, runs_startPerform] at create
        obtain ⟨_, rest, rfl, rfl, rfl⟩ := create
        obtain ⟨rfl, rfl⟩ := h
        exact .notSet created
    | true =>
        obtain ⟨rfl, rfl⟩ := create
        rw [if_neg failed] at h
        rw [runs_startPerform] at h
        obtain ⟨room, rest, rfl, h⟩ := h
        cases room with
        | false =>
            obtain ⟨rfl, rfl⟩ := h
            exact .noMemory timerFd
        | true =>
            rw [if_pos rfl, runs_startPerform] at h
            obtain ⟨added, rest, rfl, h⟩ := h
            cases added with
            | false =>
                obtain ⟨rfl, rfl⟩ := h
                exact .notAdded timerFd
            | true =>
                obtain ⟨rfl, rfl⟩ := h
                exact .made fd failed

theorem cleanupResource_runs {u : Unit} (h : (cleanupResource fd).Runs tr u) :
    tr = closedIf fd := by
  unfold cleanupResource at h
  unfold closedIf
  split at h
  · rename_i real
    obtain ⟨_, rest, rfl, rfl, -⟩ := h
    rw [if_pos real]
    rfl
  · rename_i absent
    rw [if_neg absent]
    exact h.1

theorem exitWithError_runs (h : (exitWithError serverSock epollFd (-1)).Runs tr result) :
    tr = cleaned serverSock epollFd ∧ result = .exit 1 := by
  rw [exitWithError, Prog.runs_bind] at h
  obtain ⟨_, t₁, t₂, rfl, clean, rfl, rfl⟩ := h
  rw [cleanupResources, Prog.runs_bind] at clean
  obtain ⟨_, t₁, t₂, rfl, server, clean⟩ := clean
  rw [Prog.runs_bind] at clean
  obtain ⟨_, t₂, t₃, rfl, epoll, timer⟩ := clean
  rw [cleanupResource_runs server, cleanupResource_runs epoll, cleanupResource_runs timer]
  simp [cleaned, closedIf]

theorem enterLoop_runs (h : (enterLoop serverSock).Runs tr result) :
    Entering serverSock tr result := by
  rw [enterLoop, runs_startPerform] at h
  obtain ⟨epollFd, rest, rfl, h⟩ := h
  by_cases failed : epollFd = -1
  · subst failed
    obtain ⟨rfl, rfl⟩ := exitWithError_runs h
    exact .noEpoll
  · rw [if_neg failed] at h
    rw [runs_startPerform] at h
    obtain ⟨room, rest, rfl, h⟩ := h
    cases room with
    | false =>
        obtain ⟨rfl, rfl⟩ := exitWithError_runs h
        exact .noMemory epollFd failed
    | true =>
        rw [if_pos rfl, runs_startPerform] at h
        obtain ⟨added, rest, rfl, h⟩ := h
        cases added with
        | false =>
            obtain ⟨rfl, rfl⟩ := exitWithError_runs h
            exact .notAdded epollFd failed
        | true =>
            rw [if_pos rfl, Prog.runs_bind] at h
            obtain ⟨timerFd, t₁, t₂, rfl, timer, h⟩ := h
            have timer := registerTimer_runs timer
            by_cases unset : timerFd = -1
            · subst unset
              obtain ⟨rfl, rfl⟩ := exitWithError_runs h
              exact .noTimer epollFd failed timer
            · rw [if_neg unset] at h
              obtain ⟨rfl, rfl⟩ := h
              simpa using Entering.entered epollFd failed timer unset

theorem proxyMain_runs {rounds : Nat} {argv : List Bytes}
    (h : (proxyMain rounds argv).Runs tr result) : Starting rounds argv tr result := by
  rw [proxyMain] at h
  split at h
  · rename_i version
    obtain ⟨rfl, rfl⟩ := h
    exact .version version
  · rename_i proper
    rw [Prog.runs_bind] at h
    obtain ⟨config, t₁, t₂, rfl, load, h⟩ := h
    rw [Prog.runs_inLeft] at load
    obtain ⟨t, rfl, loads⟩ := load
    split at h
    · rename_i complete
      rw [runs_startPerform] at h
      obtain ⟨connected, rest, rfl, h⟩ := h
      cases connected with
      | false =>
          obtain ⟨rfl, rfl⟩ := h
          exact .notConnected proper loads complete
      | true =>
          rw [if_pos rfl, Prog.runs_bind] at h
          obtain ⟨serverSock, t₁, t₂, rfl, opening, h⟩ := h
          have opening := createServerSocket_runs opening
          split at h
          · rename_i negative
            obtain ⟨rfl, rfl⟩ := h
            rw [List.append_nil]
            exact .notListening proper loads complete opening negative
          · rename_i nonneg
            exact .listening proper loads complete opening nonneg (enterLoop_runs h)
    · rename_i incomplete
      obtain ⟨rfl, rfl⟩ := h
      rw [List.append_nil]
      exact .notConfigured proper loads incomplete

end SimpleProxy
