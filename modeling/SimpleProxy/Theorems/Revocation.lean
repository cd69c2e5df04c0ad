import SimpleProxy.Logic.Server
import SimpleProxy.Theorems.Cache

/-!
# Accounts and the cache

One proxy and any number of clients of the same database, statement by statement. If they say
what the tool says, whoever gets in has been added with the password that was presented. When a
user was removed, and nobody brings the name back, the credentials are still good for what is left
of the hour after their last check, and no longer.
-/

namespace SimpleProxy.Theorems.Revocation

open Interact CString Cache

variable {D : Type} {E : Engine D}

/-- What happens to the database, or at the proxy. -/
inductive Event
  | visit (v : Visit)
  | statement (text : Bytes) (r : DbResult)

/-- What happened so far, with the database and the cache it led to. -/
inductive Happens (E : Engine D) (d₀ : D) : List Event → D → Option (HashMap Int) → Prop
  | start : Happens E d₀ [] d₀ none
  | visit {past : List Event} {d d' : D} {map : Option (HashMap Int)} {map' : HashMap Int}
      {request : Bytes} {io : AuthHistory} {granted : Bool} (before : Happens E d₀ past d map)
      (run : (hasValidAuth map request).Runs io (granted, map'))
      (asked : E.auth.run d io = some d') :
      Happens E d₀ (past ++ [.visit ⟨request, io, granted⟩]) d' (some map')
  | statement {past : List Event} {d d' : D} {map : Option (HashMap Int)} {text : Bytes}
      {r : DbResult} (before : Happens E d₀ past d map) (step : E.step d text r = some d') :
      Happens E d₀ (past ++ [.statement text r]) d' map

def visitsOf (past : List Event) : List Visit :=
  past.filterMap fun
    | .visit v => some v
    | .statement .. => none

variable {d₀ d d' : D} {past : List Event} {map : Option (HashMap Int)} {text b : Bytes}
  {r : DbResult} {name value : Bytes} {io : AuthHistory}

theorem visits_of_happens (happens : Happens E d₀ past d map) : Visits (visitsOf past) map := by
  induction happens with
  | start => exact .start
  | visit before run asked ih =>
      rw [visitsOf, List.filterMap_append]
      exact ih.next run
  | statement before step ih =>
      rw [visitsOf, List.filterMap_append, List.filterMap_cons_none rfl, List.filterMap_nil,
        List.append_nil]
      exact ih

/-! ## The proxy only asks -/

/-- The proxy has no other statement than `SELECT`. -/
def Asks : AuthCall → Prop
  | .dbExecute query => bytes "SELECT " <+: query
  | _ => True

theorem asks_dbUserGet (name : Bytes) : Asks (.dbExecute (dbUserGet name)) := by
  refine ⟨(dbUserGet name).drop 7, ?_⟩
  have first : (dbUserGet name).take 7 = bytes "SELECT " := rfl
  rw [← first, List.take_append_drop]

theorem getUserFromB64_asks (base64 : Bytes) : (getUserFromB64 base64).Calls Asks := by
  unfold getUserFromB64
  split
  · trivial
  · apply Prog.Calls.call trivial
    intro room
    split
    · trivial
    · apply Prog.Calls.call trivial
      intro username
      apply Prog.Calls.call trivial
      intro password
      split
      · split
        · trivial
        · exact Prog.Calls.call trivial fun _ => trivial
      · trivial

theorem dbUserGetFromResult_asks (row : Option (Option Bytes × Option Bytes)) :
    (dbUserGetFromResult row).Calls Asks := by
  unfold dbUserGetFromResult
  split
  · apply Prog.Calls.call trivial
    intro user
    split
    · exact Prog.Calls.call trivial fun _ => Prog.Calls.call trivial fun _ => trivial
    · trivial
  · trivial

theorem checkCredentials_asks (authB64 : Bytes) : (checkCredentials authB64).Calls Asks := by
  refine (getUserFromB64_asks authB64).bind fun requestUser => ?_
  cases requestUser with
  | none => trivial
  | some user =>
      apply Prog.Calls.call trivial
      intro room
      split
      · apply Prog.Calls.call (asks_dbUserGet user.username)
        intro res
        cases res with
        | failed => trivial
        | done => trivial
        | rows row =>
            apply Prog.Calls.bind (dbUserGetFromResult_asks row)
            intro validUser
            cases validUser <;> trivial
      · trivial

theorem authenticate_asks (cache : HashMap Int) (authB64 : Bytes) :
    (authenticate cache authB64).Calls Asks := by
  apply Prog.Calls.bind (checkCredentials_asks authB64)
  intro valid
  cases valid with
  | false => trivial
  | true => exact Prog.Calls.call trivial fun _ => trivial

theorem hasValidAuth_asks (map : Option (HashMap Int)) (request : Bytes) :
    (hasValidAuth map request).Calls Asks := by
  unfold hasValidAuth
  dsimp only
  split
  · trivial
  · apply Prog.Calls.call trivial
    intro room
    split
    · split
      · apply Prog.Calls.call trivial
        intro now
        split
        · trivial
        · exact authenticate_asks _ _
      · exact authenticate_asks _ _
    · trivial

/-- The book stays as it is, and every query is put to it. -/
theorem book_of_asks (documented : E.Documented) (asks : ∀ e ∈ io, Asks e.call)
    (run : E.auth.run d io = some d') :
    E.book d' = E.book d ∧ ∀ query r, (⟨.dbExecute query, r⟩ : AuthIo) ∈ io →
      ∃ d₁ d₂, E.book d₁ = E.book d ∧ E.step d₁ query r = some d₂ := by
  induction io generalizing d with
  | nil =>
      obtain rfl := Option.some.inj run
      exact ⟨rfl, by simp⟩
  | cons e io ih =>
      obtain ⟨d₁, step, rest⟩ := Option.bind_eq_some_iff.mp run
      obtain ⟨hfirst, hothers⟩ := List.forall_mem_cons.mp asks
      have kept : E.book d₁ = E.book d := by
        obtain ⟨c, r⟩ := e
        cases c with
        | malloc =>
            obtain rfl := Option.some.inj step
            rfl
        | time =>
            obtain rfl := Option.some.inj step
            rfl
        | dbExecute query => exact documented.select hfirst step
      obtain ⟨same, asked⟩ := ih hothers rest
      refine ⟨same.trans kept, fun query r hmem => ?_⟩
      rcases List.mem_cons.mp hmem with rfl | hmem
      · exact ⟨d, d₁, rfl, step⟩
      · obtain ⟨d₂, d₃, hbook, hstep⟩ := asked query r hmem
        exact ⟨d₂, d₃, hbook.trans kept, hstep⟩

/-! ## What a successful check has found -/

theorem short_of_decodeUser {user : User} (decoded : decodeUser b = some user) :
    user.username.length ≤ 255 := by
  obtain ⟨bytes, -, scanned⟩ := Option.bind_eq_some_iff.mp decoded
  obtain ⟨⟨username, password⟩, scan, rfl⟩ := Option.map_eq_some_iff.mp scanned
  obtain ⟨blank, tail, -, named, -⟩ := scanCredentials_eq_some.mp scan
  exact named.2.1

/-- There was a row with the password that was presented, up to a NUL. -/
theorem row_of_confirms (documented : E.Documented) {v : Visit} {t₀ : Int}
    (confirms : Confirms b t₀ v) (asks : ∀ e ∈ v.io, Asks e.call)
    (asked : E.auth.run d v.io = some d') : ∃ user, decodeUser b = some user ∧
      ∀ name, Sql.body user.username = some name →
        ∃ u ∈ (E.book d).users, E.same name u.username = true ∧
          cstr u.password = user.password := by
  obtain ⟨-, before, check, hio, run⟩ := confirms
  obtain ⟨user, found, pass, decoded, password, answered⟩ := checkCredentials_runs run
  refine ⟨user, decoded, fun name denotes => ?_⟩
  obtain ⟨d₁, d₂, book, step⟩ := (book_of_asks documented asks asked).2 _ _
    (show _ ∈ v.io by rw [hio]; exact List.mem_append_left _ (List.mem_append_right _ answered))
  have reads : Says (dbUserGet user.username) (.query (.get name)) :=
    .query ((Query.lexes_get (short_of_decodeUser decoded)).mpr denotes)
  rcases documented.effect reads step with effect | ⟨failed, -⟩
  · rw [book] at effect
    simp only [Statement.run, Option.ite_none_right_eq_some, Option.some.injEq, Prod.mk.injEq,
      DbResult.rows.injEq] at effect
    obtain ⟨-, row, -⟩ := effect
    obtain ⟨u, hfind, hrow⟩ := Option.map_eq_some_iff.mp row
    have matches' : E.same name u.username = true := by
      have found := hfind
      unfold Book.find at found
      exact (List.find?_eq_some_iff_append.mp found).1
    refine ⟨u, List.mem_of_find?_eq_some hfind, matches', ?_⟩
    rw [← password, Option.some.inj (Prod.mk.inj hrow).2]
  · cases failed

/-! ## A name that is gone -/

/-- No row of that name. -/
def Gone (same : Collation) (name : Bytes) (book : Book) : Prop :=
  ∀ u ∈ book.users, same name u.username = false

/-- The event brings no row of that name, whoever sent the statement. -/
def Spares (E : Engine D) (name : Bytes) : Event → Prop
  | .visit _ => True
  | .statement text r => ∀ d d', Gone E.same name (E.book d) → E.step d text r = some d' →
      Gone E.same name (E.book d')

/-- A row after a statement was there before, or was added by it. -/
theorem row_of_run {same : Collation} {limit : Nat} {s : Statement} {book book' : Book}
    (run : s.run same limit book = some (r, book')) {u : User} (hu : u ∈ book'.users) :
    u ∈ book.users ∨ s = .query (.add u.username u.password) := by
  cases s with
  | query q =>
      cases q with
      | get =>
          simp only [Statement.run, Option.ite_none_right_eq_some, Option.some.injEq,
            Prod.mk.injEq] at run
          obtain ⟨-, -, rfl⟩ := run
          exact .inl hu
      | add name pass =>
          obtain ⟨b', hadd, heq⟩ := Option.map_eq_some_iff.mp run
          obtain ⟨-, rfl⟩ := Prod.mk.inj heq
          simp only [Book.add, Option.dite_none_right_eq_some, Option.some.injEq] at hadd
          obtain ⟨_, rfl⟩ := hadd
          rcases List.mem_append.mp hu with hu | hu
          · exact .inl hu
          · rw [List.mem_singleton.mp hu]
            exact .inr rfl
      | remove name =>
          obtain ⟨b', hremove, heq⟩ := Option.map_eq_some_iff.mp run
          obtain ⟨-, rfl⟩ := Prod.mk.inj heq
          simp only [Book.remove, Option.dite_none_right_eq_some, Option.some.injEq] at hremove
          obtain ⟨_, rfl⟩ := hremove
          exact .inl (List.mem_filter.mp hu).1
  | create =>
      obtain ⟨-, rfl⟩ := Prod.mk.inj (Option.some.inj run)
      unfold Book.create at hu
      split at hu
      · exact .inl hu
      · cases hu
  | drop names =>
      obtain ⟨-, rfl⟩ := Prod.mk.inj (Option.some.inj run)
      have hu : u ∈ if tableName ∈ names then [] else book.users := hu
      split at hu
      · cases hu
      · exact .inl hu
  | list =>
      obtain ⟨-, rfl⟩ := Prod.mk.inj (Option.some.inj run)
      exact .inl hu

/-- The same, for a statement that may have failed. -/
theorem row_of_step (documented : E.Documented) {s : Statement} (reads : Says text s)
    (step : E.step d text r = some d') {u : User} (hu : u ∈ (E.book d').users) :
    u ∈ (E.book d).users ∨ s = .query (.add u.username u.password) := by
  rcases documented.effect reads step with run | ⟨-, same | ⟨r', run⟩⟩
  · exact row_of_run run hu
  · rw [same] at hu
    exact .inl hu
  · exact row_of_run run hu

/-- A statement of the tool that adds no user of that name. -/
theorem spares_of_says (documented : E.Documented) {s : Statement} (reads : Says text s)
    (others : ∀ name' pass, s = .query (.add name' pass) → E.same name name' = false) :
    Spares E name (.statement text r) := by
  intro d d' gone step u hu
  rcases row_of_step documented reads step hu with before | added
  · exact gone u before
  · exact others _ _ added

/-- A removal that was reported as done. -/
theorem gone_of_removed (documented : E.Documented)
    (reads : Says text (.query (.remove value))) (same : E.same value name = true)
    (step : E.step d text .done = some d') : Gone E.same name (E.book d') := by
  rcases documented.effect reads step with run | ⟨failed, -⟩
  · obtain ⟨b', hremove, heq⟩ := Option.map_eq_some_iff.mp run
    obtain ⟨-, rfl⟩ := Prod.mk.inj heq
    simp only [Book.remove, Option.dite_none_right_eq_some, Option.some.injEq] at hremove
    obtain ⟨_, hbook⟩ := hremove
    intro u hu
    rw [← hbook] at hu
    obtain ⟨-, other⟩ := List.mem_filter.mp hu
    rw [Bool.not_eq_true'] at other
    rw [Bool.eq_false_iff]
    intro matches'
    have : E.same value u.username = true := documented.equivalence.trans same matches'
    rw [other] at this
    cases this
  · cases failed

/-! ## After the removal -/

/-- Where the last event of a history is, if another one is at `e`. -/
theorem split_last {ε : Type} {past earlier later : List ε} {e last : ε}
    (h : past ++ [last] = earlier ++ e :: later) :
    past = earlier ∧ last = e ∧ later = [] ∨
      ∃ later', later = later' ++ [last] ∧ past = earlier ++ e :: later' := by
  rcases List.eq_nil_or_concat' later with rfl | ⟨later', x, rfl⟩
  · obtain ⟨rfl, heq⟩ := List.append_inj' h rfl
    exact .inl ⟨rfl, (List.cons.inj heq).1, rfl⟩
  · rw [← List.cons_append, ← List.append_assoc] at h
    obtain ⟨rfl, heq⟩ := List.append_inj' h rfl
    obtain rfl := (List.cons.inj heq).1
    exact .inr ⟨later', rfl, rfl⟩

/-- From the removal on there is no row of the name, and no check succeeds. -/
theorem gone_of_happens (documented : E.Documented) {user : User}
    (decoded : decodeUser b = some user) (denotes : Sql.body user.username = some name)
    (reads : Says text (.query (.remove value))) (same : E.same value name = true)
    (happens : Happens E d₀ past d map) {earlier later : List Event}
    (split : past = earlier ++ .statement text .done :: later)
    (spared : ∀ e ∈ later, Spares E name e) :
    Gone E.same name (E.book d) ∧ ∀ v ∈ visitsOf later, ∀ t₀, ¬ Confirms b t₀ v := by
  induction happens generalizing later with
  | start => simp at split
  | @visit past d d' map map' request io granted before run asked ih =>
      rcases split_last split with ⟨-, other, -⟩ | ⟨later', rfl, rfl⟩
      · cases other
      · obtain ⟨gone, unconfirmed⟩ := ih rfl fun e he => spared e (List.mem_append_left _ he)
        have asks := (hasValidAuth_asks map request).runs run
        refine ⟨?_, ?_⟩
        · rw [(book_of_asks documented asks asked).1]
          exact gone
        · intro v hv t₀ confirms
          rw [visitsOf, List.filterMap_append] at hv
          rcases List.mem_append.mp hv with hv | hv
          · exact unconfirmed v hv t₀ confirms
          · obtain rfl := List.mem_singleton.mp hv
            obtain ⟨user', decoded', row⟩ := row_of_confirms documented confirms asks asked
            obtain rfl := Option.some.inj (decoded.symm.trans decoded')
            obtain ⟨u, hu, there, -⟩ := row name denotes
            rw [gone u hu] at there
            cases there
  | @statement past d d' map text' r before step ih =>
      rcases split_last split with ⟨rfl, heq, rfl⟩ | ⟨later', rfl, rfl⟩
      · cases heq
        exact ⟨gone_of_removed documented reads same step, by simp [visitsOf]⟩
      · obtain ⟨gone, unconfirmed⟩ := ih rfl fun e he => spared e (List.mem_append_left _ he)
        have spares : Spares E name (.statement text' r) := spared _ (by simp)
        refine ⟨spares d d' gone step, ?_⟩
        rw [visitsOf, List.filterMap_append, List.filterMap_cons_none rfl, List.filterMap_nil,
          List.append_nil]
        exact unconfirmed

/-- The one statement of a successful `remove`. -/
theorem cmdRemove_runs {program command option username : Bytes} {tr : List ToolIo}
    (run : (cmdRemove [program, command, option, username]).Runs tr 0) :
    ∀ query r, (⟨.dbExecute query, r⟩ : ToolIo) ∈ tr → query = dbUserRemove username ∧ r = .done := by
  unfold cmdRemove at run
  dsimp only at run
  split at run
  · cases run.2
  · rw [allocated, Prog.runs_bind] at run
    obtain ⟨text, t₁, t₂, rfl, ⟨room, rest, rfl, rfl, rfl⟩, run⟩ := run
    cases room with
    | false => cases run.2
    | true =>
        rw [if_pos rfl, executed, Prog.runs_perform_bind] at run
        obtain ⟨res, rest', rfl, run⟩ := run
        cases res with
        | failed => cases run.2
        | rows => cases run.2
        | done =>
            obtain ⟨rfl, -⟩ := run
            intro query r hmem
            simpa using hmem

/-- **Revocation.** On a documented server, once `simpleproxy-config remove` has succeeded for a
user name of at most 255 bytes that reads as one literal, credentials with a user name that reads
as one and that the database takes for the removed one get in only by a check that was made before
the removal, and within an hour of it, as long as no statement brings a row of that name back. -/
theorem revoked (E : Engine D) (documented : E.Documented) (d₀ d d' : D)
    (earlier later : List Event) (map : Option (HashMap Int)) (map' : HashMap Int)
    (program command option username removed : Bytes) (tr : List ToolIo) (statement : Bytes)
    (r : DbResult) (removal : (cmdRemove [program, command, option, username]).Runs tr 0)
    (executed : ⟨.dbExecute statement, r⟩ ∈ tr) (short : username.length ≤ 255)
    (denotes : Sql.body username = some removed)
    (happens : Happens E d₀ (earlier ++ .statement statement r :: later) d map)
    (request b name : Bytes) (user : User) (decoded : decodeUser b = some user)
    (denotes' : Sql.body user.username = some name) (same : E.same removed name = true)
    (spared : ∀ e ∈ later, Spares E name e) (io : AuthHistory)
    (run : (hasValidAuth map request).Runs io (true, map')) (asked : E.auth.run d io = some d')
    (text : extractBasicAuthB64 request = some b) :
    ∃ t ∈ clockReadings io, ∃ v ∈ visitsOf earlier, ∃ t₀, Confirms b t₀ v ∧ t < t₀ + cacheTtl := by
  obtain ⟨rfl, rfl⟩ := cmdRemove_runs removal _ _ executed
  have reads : Says (dbUserRemove username) (.query (.remove removed)) :=
    .query ((Query.lexes_remove short).mpr denotes)
  obtain ⟨gone, unconfirmed⟩ :=
    gone_of_happens documented decoded denotes' reads same happens rfl spared
  have asks := (hasValidAuth_asks map request).runs run
  rcases granted_sound (cached_of_visits (visits_of_happens happens)) (hasValidAuth_runs run) text rfl
    with ⟨t₀, confirms⟩ | ⟨t, ht, v, hv, t₀, confirms, recent⟩
  · obtain ⟨user', decoded', row⟩ := row_of_confirms documented confirms asks asked
    obtain rfl := Option.some.inj (decoded.symm.trans decoded')
    obtain ⟨u, hu, there, -⟩ := row name denotes'
    rw [gone u hu] at there
    cases there
  · refine ⟨t, ht, v, ?_, t₀, confirms, recent⟩
    rw [visitsOf, List.filterMap_append, List.filterMap_cons_none rfl] at hv
    rcases List.mem_append.mp hv with hv | hv
    · exact hv
    · exact absurd confirms (unconfirmed v hv t₀)

/-- A database with the user `u` and the password `p`. -/
def oneUser : Book := { Book.fresh with users := [⟨bytes "u", bytes "p"⟩], absent := by decide }

/-- The user gets in, is removed, and gets in again within the hour, after another was added. -/
theorem revoked_late :
    ∃ t ∈ clockReadings secondVisit, ∃ v ∈ visitsOf [.visit ⟨plainAuth, firstVisit, true⟩], ∃ t₀,
      Confirms (bytes "dTpw") t₀ v ∧ t < t₀ + cacheTtl := by
  have first : ((hasValidAuth none plainAuth).replay firstVisit).any (fun r =>
      r.1 && ((hasValidAuth (some r.2) plainAuth).replay secondVisit).any Prod.fst) = true := by
    decide
  obtain ⟨⟨granted, cache⟩, hfirst, h⟩ := (Option.any_eq_true _ _).mp first
  obtain ⟨rfl, hagain⟩ := Bool.and_eq_true_iff.mp h
  obtain ⟨⟨granted', cache'⟩, hsecond, hgranted⟩ := (Option.any_eq_true _ _).mp hagain
  obtain rfl : granted' = true := hgranted
  have asked : ((server 1024).auth.run oneUser firstVisit).any (fun b =>
      (((server 1024).step b (dbUserRemove (bytes "u")) .done).any fun b' =>
        ((server 1024).step b' (dbUserAdd (bytes "v") (bytes "q")) .done).any fun b'' =>
          ((server 1024).auth.run b'' secondVisit).isSome)) = true := by
    decide +kernel
  obtain ⟨b₁, step₁, h₁⟩ := (Option.any_eq_true _ _).mp asked
  obtain ⟨b₂, step₂, h₂⟩ := (Option.any_eq_true _ _).mp h₁
  obtain ⟨b₃, step₃, h₃⟩ := (Option.any_eq_true _ _).mp h₂
  obtain ⟨b₄, step₄⟩ := Option.isSome_iff_exists.mp h₃
  have happens : Happens (server 1024) oneUser ([.visit ⟨plainAuth, firstVisit, true⟩] ++
      [.statement (dbUserRemove (bytes "u")) .done] ++
      [.statement (dbUserAdd (bytes "v") (bytes "q")) .done]) b₃ (some cache) :=
    .statement (.statement (.visit .start (Prog.runs_of_replay hfirst) step₁) step₂) step₃
  have another : Spares (server 1024) (bytes "u")
      (.statement (dbUserAdd (bytes "v") (bytes "q")) .done) := by
    have name : Sql.body (bytes "v") = some (bytes "v") := by decide
    have pass : Sql.body (bytes "q") = some (bytes "q") := by decide
    refine spares_of_says (server_documented 1024)
      (.query ((Query.lexes_add (by decide) (by decide) name).mpr pass)) ?_
    rintro name' pass' ⟨⟩
    decide
  have removal : (cmdRemove [bytes "simpleproxy-config", bytes "remove", bytes "-u", bytes "u"]).Runs
      [⟨.malloc, true⟩, ⟨.dbExecute (dbUserRemove (bytes "u")), .done⟩] 0 :=
    Prog.runs_of_replay (by decide)
  exact revoked (server 1024) (server_documented 1024) oneUser b₃ b₄ _ _ (some cache) cache' _ _ _
    (bytes "u") (bytes "u") _ _ _ removal (.tail _ (.head _)) (by decide) (by decide) happens plainAuth
    (bytes "dTpw") (bytes "u") ⟨bytes "u", bytes "p"⟩ (by decide) (by decide) (by decide)
    (List.forall_mem_singleton.mpr another) secondVisit (Prog.runs_of_replay hsecond) step₄
    (by decide)

/-! ## Who gets in at all -/

/-- Every statement is one that the tool has. -/
def Readable (past : List Event) : Prop :=
  ∀ text r, .statement text r ∈ past → ∃ s, Says text s

/-- A statement was sent that adds a user of that name, with a password that is `pass` up to its
first NUL. -/
def AddedWith (E : Engine D) (name pass : Bytes) (past : List Event) : Prop :=
  ∃ text r name' pass', .statement text r ∈ past ∧ Says text (.query (.add name' pass')) ∧
    E.same name name' = true ∧ cstr pass' = pass

theorem AddedWith.append {name pass : Bytes} (h : AddedWith E name pass past) (e : Event) :
    AddedWith E name pass (past ++ [e]) := by
  obtain ⟨text, r, name', pass', mem, rest⟩ := h
  exact ⟨text, r, name', pass', List.mem_append_left _ mem, rest⟩

/-- The request has the credentials of a user who was added with them. -/
def Presents (E : Engine D) (request : Bytes) (past : List Event) : Prop :=
  ∃ b user, extractBasicAuthB64 request = some b ∧ decodeUser b = some user ∧
    ∀ name, Sql.body user.username = some name → AddedWith E name user.password past

theorem Presents.append {request : Bytes} (h : Presents E request past) (e : Event) :
    Presents E request (past ++ [e]) := by
  obtain ⟨b, user, text, decoded, added⟩ := h
  exact ⟨b, user, text, decoded, fun name denotes => (added name denotes).append e⟩

/-- What `added_of_happens` says of every check. -/
def Checked (E : Engine D) (past : List Event) : Prop :=
  ∀ v ∈ visitsOf past, ∀ b t₀, Confirms b t₀ v → ∃ user, decodeUser b = some user ∧
    ∀ name, Sql.body user.username = some name → AddedWith E name user.password past

/-- A call that grants access, after these events. -/
theorem presents_of_run (documented : E.Documented)
    (rows : ∀ u ∈ (E.book d).users, ∀ name, E.same name u.username = true →
      AddedWith E name (cstr u.password) past) (checks : Checked E past)
    (happens : Happens E d₀ past d map) {request : Bytes} {map' : HashMap Int}
    (run : (hasValidAuth map request).Runs io (true, map')) (asked : E.auth.run d io = some d') :
    Presents E request past := by
  have visited := hasValidAuth_runs run
  obtain ⟨b, text⟩ : ∃ b, extractBasicAuthB64 request = some b := by
    cases visited with
    | cached text => exact ⟨_, text⟩
    | confirmed _ text => exact ⟨_, text⟩
  have asks := (hasValidAuth_asks map request).runs run
  rcases granted_sound (cached_of_visits (visits_of_happens happens)) visited text rfl
    with ⟨t₀, confirms⟩ | ⟨t, -, v, hv, t₀, confirms, -⟩
  · obtain ⟨user, decoded, row⟩ := row_of_confirms documented confirms asks asked
    refine ⟨b, user, text, decoded, fun name denotes => ?_⟩
    obtain ⟨u, hu, same, pass⟩ := row name denotes
    rw [← pass]
    exact rows u hu name same
  · obtain ⟨user, decoded, added⟩ := checks v hv b t₀ confirms
    exact ⟨b, user, text, decoded, added⟩

/-- Every row was added, every successful check found one, and whoever got in was added. -/
theorem added_of_happens (documented : E.Documented) (empty : (E.book d₀).users = [])
    (happens : Happens E d₀ past d map) (readable : Readable past) :
    (∀ u ∈ (E.book d).users, ∀ name, E.same name u.username = true →
        AddedWith E name (cstr u.password) past) ∧
      Checked E past ∧ ∀ v ∈ visitsOf past, v.granted = true → Presents E v.request past := by
  induction happens with
  | start =>
      rw [empty]
      exact ⟨by simp, by simp [Checked, visitsOf], by simp [visitsOf]⟩
  | @visit past d d' map map' request io granted before run asked ih =>
      obtain ⟨rows, checks, entered⟩ := ih fun text r h => readable text r (List.mem_append_left _ h)
      have asks := (hasValidAuth_asks map request).runs run
      have last : ∀ v ∈ visitsOf (past ++ [.visit ⟨request, io, granted⟩]),
          v ∈ visitsOf past ∨ v = ⟨request, io, granted⟩ := by
        intro v hv
        rw [visitsOf, List.filterMap_append] at hv
        exact (List.mem_append.mp hv).imp_right List.mem_singleton.mp
      refine ⟨?_, fun v hv b t₀ confirms => ?_, fun v hv hgranted => ?_⟩
      · rw [(book_of_asks documented asks asked).1]
        exact fun u hu name same => (rows u hu name same).append _
      · rcases last v hv with hv | rfl
        · obtain ⟨user, decoded, added⟩ := checks v hv b t₀ confirms
          exact ⟨user, decoded, fun name denotes => (added name denotes).append _⟩
        · obtain ⟨user, decoded, row⟩ := row_of_confirms documented confirms asks asked
          refine ⟨user, decoded, fun name denotes => ?_⟩
          obtain ⟨u, hu, same, pass⟩ := row name denotes
          rw [← pass]
          exact (rows u hu name same).append _
      · rcases last v hv with hv | rfl
        · exact (entered v hv hgranted).append _
        · obtain rfl : granted = true := hgranted
          exact (presents_of_run documented rows checks before run asked).append _
  | @statement past d d' map text r before step ih =>
      obtain ⟨rows, checks, entered⟩ := ih fun text r h => readable text r (List.mem_append_left _ h)
      obtain ⟨s, reads⟩ := readable text r (List.mem_append_right _ (List.mem_singleton_self _))
      have same : visitsOf (past ++ [.statement text r]) = visitsOf past := by
        rw [visitsOf, List.filterMap_append, List.filterMap_cons_none rfl, List.filterMap_nil,
          List.append_nil]
        rfl
      refine ⟨fun u hu name same => ?_, fun v hv b t₀ confirms => ?_, fun v hv hgranted => ?_⟩
      · rcases row_of_step documented reads step hu with hu | rfl
        · exact (rows u hu name same).append _
        · exact ⟨text, r, u.username, u.password, by simp, reads, same, rfl⟩
      · obtain ⟨user, decoded, added⟩ := checks v (same ▸ hv) b t₀ confirms
        exact ⟨user, decoded, fun name denotes => (added name denotes).append _⟩
      · exact (entered v (same ▸ hv) hgranted).append _

/-- **Who gets in.** On a documented server that began without users, and on which nothing but the
statements of the tool was executed, everybody who gets in with a user name that reads as one
literal presents the password of a statement sent before that adds a user of that name, up to its
first NUL. -/
theorem granted_added (E : Engine D) (documented : E.Documented) (d₀ d d' : D)
    (empty : (E.book d₀).users = []) (past : List Event) (map : Option (HashMap Int))
    (map' : HashMap Int) (happens : Happens E d₀ past d map) (readable : Readable past)
    (request : Bytes) (io : AuthHistory) (run : (hasValidAuth map request).Runs io (true, map'))
    (asked : E.auth.run d io = some d') :
    ∃ b user, extractBasicAuthB64 request = some b ∧ decodeUser b = some user ∧
      ∀ name, Sql.body user.username = some name → AddedWith E name user.password past := by
  obtain ⟨rows, checks, -⟩ := added_of_happens documented empty happens readable
  exact presents_of_run documented rows checks happens run asked

/-- The tables are created, the user `u` is added, and gets in. -/
theorem granted_added_first :
    ∃ b user, extractBasicAuthB64 plainAuth = some b ∧ decodeUser b = some user ∧
      ∀ name, Sql.body user.username = some name →
        AddedWith (server 1024) name user.password
          [.statement usersTable.statement .done,
            .statement (dbUserAdd (bytes "u") (bytes "p")) .done] := by
  have asked : ((server 1024).step .none usersTable.statement .done).any (fun b =>
      (((server 1024).step b (dbUserAdd (bytes "u") (bytes "p")) .done).any fun b' =>
        ((server 1024).auth.run b' firstVisit).isSome)) = true := by
    decide +kernel
  obtain ⟨b₁, step₁, h₁⟩ := (Option.any_eq_true _ _).mp asked
  obtain ⟨b₂, step₂, h₂⟩ := (Option.any_eq_true _ _).mp h₁
  obtain ⟨b₃, step₃⟩ := Option.isSome_iff_exists.mp h₂
  have visit : ((hasValidAuth none plainAuth).replay firstVisit).any Prod.fst = true := by decide
  obtain ⟨⟨granted, cache⟩, hvisit, hgranted⟩ := (Option.any_eq_true _ _).mp visit
  obtain rfl : granted = true := hgranted
  have happens : Happens (server 1024) .none ([] ++ [.statement usersTable.statement .done] ++
      [.statement (dbUserAdd (bytes "u") (bytes "p")) .done]) b₂ none :=
    .statement (.statement .start step₁) step₂
  have readable : Readable ([] ++ [.statement usersTable.statement .done] ++
      [.statement (dbUserAdd (bytes "u") (bytes "p")) .done]) := by
    intro text r h
    rcases List.mem_pair.mp h with h | h <;> cases h
    · exact ⟨_, .create⟩
    · have name : Sql.body (bytes "u") = some (bytes "u") := by decide
      have pass : Sql.body (bytes "p") = some (bytes "p") := by decide
      exact ⟨_, .query ((Query.lexes_add (by decide) (by decide) name).mpr pass)⟩
  exact granted_added (server 1024) (server_documented 1024) .none b₂ b₃ rfl _ none cache happens
    readable plainAuth firstVisit (Prog.runs_of_replay hvisit) step₃

end SimpleProxy.Theorems.Revocation
