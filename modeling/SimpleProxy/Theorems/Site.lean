import SimpleProxy.Logic.Speech
import SimpleProxy.Logic.Steps
import SimpleProxy.Theorems.Revocation

/-!
# The proxy and its accounts

The event loop takes the answers of `has_valid_auth` as they come. Here they come from
`has_valid_auth` itself, with its cache, on the database that the tool changes at the same time:
between any two checks it can execute any statement that reads as one of its own. What is
sent to a target is then sent for somebody who was added.
-/

namespace SimpleProxy.Theorems.Site

open Interact CString Cache Revocation

variable {D : Type} {E : Engine D} {d₀ : D}

/-- The check in an entry of the record; `has_valid_auth` is given a C string. -/
def checkOf (entry : TraceEntry) : Option (Bytes × Bool) :=
  match entry.io with
  | ⟨.hasValidAuth request, ok⟩ => some (cstr request, ok)
  | _ => none

/-- The checks that were made, and their answers. -/
def checks (trace : List TraceEntry) : List (Bytes × Bool) := trace.filterMap checkOf

/-- The database and the cache, and how they came about. -/
structure Accounts (D : Type) where
  past : List Event
  db : D
  map : Option (HashMap Int)

/-- `has_valid_auth` gives these answers, while the tool is at work. -/
inductive Answers (E : Engine D) : Accounts D → List (Bytes × Bool) → Accounts D → Prop
  | done {a : Accounts D} : Answers E a [] a
  | statement {a a' : Accounts D} {text : Bytes} {r : DbResult} {d' : D}
      {answers : List (Bytes × Bool)} (reads : ∃ s, Says text s)
      (step : E.step a.db text r = some d')
      (rest : Answers E ⟨a.past ++ [.statement text r], d', a.map⟩ answers a') :
      Answers E a answers a'
  | check {a a' : Accounts D} {request : Bytes} {io : AuthHistory} {ok : Bool}
      {map' : HashMap Int} {d' : D} {answers : List (Bytes × Bool)}
      (run : (hasValidAuth a.map request).Runs io (ok, map'))
      (asked : E.auth.run a.db io = some d')
      (rest : Answers E ⟨a.past ++ [.visit ⟨request, io, ok⟩], d', some map'⟩ answers a') :
      Answers E a ((request, ok) :: answers) a'

structure State (D : Type) where
  world : World
  accounts : Accounts D

/-- The event loop takes a step, and the checks in it are answered; or only the tool does
something. -/
inductive Step (E : Engine D) : State D → State D → Prop
  | turn {s : State D} {w' : World} {a' : Accounts D} (loop : World.Step s.world w')
      (answers : Answers E s.accounts (checks (s.world.newCalls w')) a') : Step E s ⟨w', a'⟩
  | tool {s : State D} {a' : Accounts D} (answers : Answers E s.accounts [] a') :
      Step E s ⟨s.world, a'⟩

/-- The proxy on a database. -/
def site (E : Engine D) (d₀ : D) : System (State D) where
  init s := s.world.Booted ∧ s.accounts = ⟨[], d₀, none⟩
  step := Step E

/-- What the checks so far have to do with the accounts. -/
structure Accounted (E : Engine D) (d₀ : D) (a : Accounts D) (answers : List (Bytes × Bool)) :
    Prop where
  happens : Happens E d₀ a.past a.db a.map
  readable : Readable a.past
  answers : answers = (visitsOf a.past).map fun v => (v.request, v.granted)

theorem Accounted.answered {a a' : Accounts D} {before answers : List (Bytes × Bool)}
    (h : Accounted E d₀ a before) (more : Answers E a answers a') :
    Accounted E d₀ a' (before ++ answers) := by
  induction more generalizing before with
  | done => rwa [List.append_nil]
  | @statement a a' text r d' answers reads step rest ih =>
      refine ih ⟨.statement h.happens step, fun text' r' mem => ?_, ?_⟩
      · rcases List.mem_append.mp mem with mem | mem
        · exact h.readable text' r' mem
        · cases List.mem_singleton.mp mem
          exact reads
      · rw [h.answers, visitsOf, visitsOf, List.filterMap_append, List.filterMap_cons_none rfl,
          List.filterMap_nil, List.append_nil]
  | @check a a' request io ok map' d' answers run asked rest ih =>
      rw [List.append_cons]
      refine ih ⟨.visit h.happens run asked, fun text' r' mem => ?_, ?_⟩
      · rcases List.mem_append.mp mem with mem | mem
        · exact h.readable text' r' mem
        · cases List.mem_singleton.mp mem
      · simp [h.answers, visitsOf]

variable {s : State D}

/-- The event loop runs as it does by itself, and every check was answered by the program. -/
theorem reachable (h : (site E d₀).Reachable s) :
    proxy.Reachable s.world ∧ Accounted E d₀ s.accounts (checks s.world.kernel.trace) := by
  refine System.invariant (fun s => proxy.Reachable s.world ∧
    Accounted E d₀ s.accounts (checks s.world.kernel.trace)) ?_ ?_ h
  · rintro s ⟨booted, accounts⟩
    refine ⟨.start booted, ?_⟩
    obtain ⟨serverSock, epollFd, timerFd, -, -, -, -, boot⟩ := booted
    rw [boot, accounts]
    exact ⟨.start, by simp [Readable], rfl⟩
  · rintro s s' - ⟨reach, accounted⟩ step
    cases step with
    | turn loop answers =>
        refine ⟨reach.next loop, ?_⟩
        rw [loop.trace_eq, checks, List.filterMap_append]
        exact accounted.answered answers
    | tool answers => exact ⟨reach, List.append_nil (checks _) ▸ accounted.answered answers⟩

/-- An accepted request of a client is among the checks. -/
theorem check_of_grant {k : Kernel} {c : ClientId} {request : Bytes}
    (h : request ∈ grants (k.history c)) : (cstr request, true) ∈ checks k.trace := by
  have mem := mem_grants.mp h
  obtain ⟨entry, hentry, hio⟩ := List.mem_filterMap.mp mem
  refine List.mem_filterMap.mpr ⟨entry, hentry, ?_⟩
  obtain ⟨-, hio⟩ := Option.ite_none_right_eq_some.mp hio
  rw [checkOf, Option.some.inj hio]

/-- A session, after what happened to the accounts: nothing beyond a refusal, or that of somebody
who was added with the credentials of the one request that was granted. -/
inductive Served (E : Engine D) (past : List Event) (h : History) : Prop
  | refused (target : wired .target h = []) (client : wired .client h <+: proxyAuthRequired)
  | admitted (request : Bytes) (sent : request <+: received .client h) (only : grants h = [request])
      (presents : Presents E (cstr request) past)

theorem served_history (documented : E.Documented) (empty : (E.book d₀).users = [])
    (h : (site E d₀).Reachable s) (c : ClientId) :
    Served E s.accounts.past (s.world.kernel.history c) := by
  obtain ⟨reach, accounted⟩ := reachable h
  obtain ⟨⟨stage, run⟩, -⟩ := plays_inv.reachable reach c
  have wire : proxyRules.Wire (streamsOf (s.world.kernel.history c)) := by
    rw [← streams_deeds]
    exact Rules.wire_of_run run
  cases wire with
  | refused grants heard target client => exact .refused target client
  | relayed request told only complete begins =>
      have only : grants (s.world.kernel.history c) = [request] := only
      have checked := check_of_grant (only ▸ List.mem_singleton_self request)
      rw [accounted.answers] at checked
      obtain ⟨v, hv, heq⟩ := List.mem_map.mp checked
      obtain ⟨hrequest, hgranted⟩ := Prod.mk.inj heq
      obtain ⟨-, -, entered⟩ := added_of_happens documented empty accounted.happens accounted.readable
      refine .admitted request begins only ?_
      rw [← hrequest]
      exact entered v hv hgranted

/-- **Nobody else.** In every reachable state of the event loop, its credential checks and the
database together, if the database began without users and answers as documented: a client was
refused, or has presented the name and, up to a NUL, the password of a user that was added. This
is so of the calls made for the client, and, if every target could be added so far, of what its
descriptors carried. -/
theorem served_added (E : Engine D) (documented : E.Documented) (d₀ : D)
    (empty : (E.book d₀).users = []) (s : State D) (h : (site E d₀).Reachable s) (c : ClientId) :
    Served E s.accounts.past (s.world.kernel.history c) ∧
      (NoAddFailed s.world.kernel → Served E s.accounts.past (s.world.kernel.carried c)) := by
  refine ⟨served_history documented empty h c, fun fine => ?_⟩
  rw [Kernel.carried_eq_history (byOwner_reachable (reachable h).1 fine)]
  exact served_history documented empty h c

/-- Steps without a check leave the accounts alone. -/
theorem reachable_of_script {w w' : World} {a : Accounts D} {script : List Cmd}
    (h : (site E d₀).Reachable ⟨w, a⟩)
    (run : script.foldlM (World.execIf fun w w' => (checks (w.newCalls w')).isEmpty) w = some w') :
    (site E d₀).Reachable ⟨w', a⟩ := by
  induction script generalizing w with
  | nil =>
      cases run
      exact h
  | cons cmd script ih =>
      rw [List.foldlM_cons] at run
      obtain ⟨w₁, hfirst, hrest⟩ := Option.bind_eq_some_iff.mp run
      obtain ⟨hexec, hnone⟩ := Option.filter_eq_some_iff.mp hfirst
      have loop := World.step_of_exec hexec
      refine ih (h.next (.turn loop ?_)) hrest
      rw [List.isEmpty_iff.mp hnone]
      exact .done

/-- A request with the credentials of `u`. -/
def request : Bytes :=
  bytes "GET / HTTP/1.0\r\nHost: h:80\r\nProxy-Authorization: Basic dTpw\r\n\r\n"

/-- The user `u` is added while the request is on its way, and is served. -/
theorem served_added_first : ∃ s : State Book,
    Served (server 1024) s.accounts.past (s.world.kernel.carried 0) ∧
      grants (s.world.kernel.history 0) = [request] := by
  have script : ((acceptScript 0 6 ++ (requestScript 0 6 7 request [104] 80).take 1).foldlM
      (World.execIf fun w w' => (checks (w.newCalls w')).isEmpty) (World.boot 3 4 5)).any (fun w =>
        ((requestScript 0 6 7 request [104] 80).drop 1).head?.any fun cmd =>
          (w.exec cmd).any fun w' => checks (w.newCalls w') = [(cstr request, true)] ∧
            NoAddFailed w'.kernel ∧ grants (w'.kernel.history 0) = [request]) = true := by
    decide +kernel
  obtain ⟨w, hw, h⟩ := (Option.any_eq_true _ _).mp script
  obtain ⟨cmd, -, h⟩ := (Option.any_eq_true _ _).mp h
  obtain ⟨w', hexec, h⟩ := (Option.any_eq_true _ _).mp h
  obtain ⟨hchecks, fine, hseen⟩ := of_decide_eq_true h
  have asked : ((server 1024).step .none usersTable.statement .done).any (fun b =>
      (((server 1024).step b (dbUserAdd (bytes "u") (bytes "p")) .done).any fun b' =>
        ((server 1024).auth.run b' firstVisit).isSome)) = true := by
    decide +kernel
  obtain ⟨b₁, step₁, h₁⟩ := (Option.any_eq_true _ _).mp asked
  obtain ⟨b₂, step₂, h₂⟩ := (Option.any_eq_true _ _).mp h₁
  obtain ⟨b₃, step₃⟩ := Option.isSome_iff_exists.mp h₂
  have visit : ((hasValidAuth none (cstr request)).replay firstVisit).any Prod.fst = true := by
    decide +kernel
  obtain ⟨⟨granted, cache⟩, hvisit, hgranted⟩ := (Option.any_eq_true _ _).mp visit
  obtain rfl : granted = true := hgranted
  have name : Sql.body (bytes "u") = some (bytes "u") := by decide
  have pass : Sql.body (bytes "p") = some (bytes "p") := by decide
  have reads : Says (dbUserAdd (bytes "u") (bytes "p")) (.query (.add (bytes "u") (bytes "p"))) :=
    .query ((Query.lexes_add (by decide) (by decide) name).mpr pass)
  have start : (site (server 1024) .none).Reachable ⟨World.boot 3 4 5, ⟨[], .none, none⟩⟩ :=
    .start ⟨World.booted, rfl⟩
  have waiting := reachable_of_script start hw
  have answers : Answers (server 1024) ⟨[], .none, none⟩ [(cstr request, true)]
      ⟨[.statement usersTable.statement .done,
        .statement (dbUserAdd (bytes "u") (bytes "p")) .done,
        .visit ⟨cstr request, firstVisit, true⟩], b₃, some cache⟩ :=
    .statement ⟨_, .create⟩ step₁ (.statement ⟨_, reads⟩ step₂
      (.check (Prog.runs_of_replay hvisit) step₃ .done))
  rw [← hchecks] at answers
  have served := waiting.next (.turn (World.step_of_exec hexec) answers)
  exact ⟨_, (served_added (server 1024) (server_documented 1024) .none rfl _ served 0).2 fine, hseen⟩

end SimpleProxy.Theorems.Site
