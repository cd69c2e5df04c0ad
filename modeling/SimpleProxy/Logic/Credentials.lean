import Mathlib.Data.List.TakeWhile
import SimpleProxy.Main.Auth

/-!
# One call of `has_valid_auth`

`Visited` lists what a call can do with the cache: answer from it, or check the
credentials against the database after an expired entry was taken out. A check
makes no use of the cache or the clock, and `checkCredentials_follow` says what it
amounts to when no allocation fails.
-/

namespace SimpleProxy

open Interact CString

variable {authB64 request : Bytes} {map map' : HashMap Int} {io : AuthHistory} {granted : Bool}

/-! ## The text in the request -/

/-- The credentials behind the first `Proxy-Authorization:`, up to the end of their
line. -/
theorem extract_presented {more : Bytes} (oneLine : 13 ∉ authB64)
    (first : strstr request (bytes "Proxy-Authorization:") =
      some (bytes "Proxy-Authorization:" ++
        (bytes " Basic " ++ (authB64 ++ (bytes "\r\n" ++ more))))) :
    extractBasicAuthB64 request = some authB64 := by
  have blank : (bytes " Basic " ++ (authB64 ++ (bytes "\r\n" ++ more))).dropWhile isspace =
      bytes "Basic " ++ (authB64 ++ (bytes "\r\n" ++ more)) := rfl
  have scheme : (bytes "Basic ").isPrefixOf
      (bytes "Basic " ++ (authB64 ++ (bytes "\r\n" ++ more))) = true :=
    List.isPrefixOf_iff_prefix.mpr (List.prefix_append _ _)
  have start : (bytes "Basic " ++ (authB64 ++ (bytes "\r\n" ++ more))).drop 6 =
      authB64 ++ (bytes "\r\n" ++ more) := rfl
  have line : strstr (authB64 ++ (bytes "\r\n" ++ more)) (bytes "\r\n") =
      some (bytes "\r\n" ++ more) := strstr_of_not_mem oneLine
  unfold extractBasicAuthB64
  rw [first]
  dsimp only [Option.bind_eq_bind, Option.bind_some]
  rw [List.drop_left, blank, if_pos scheme, start, line]
  simp

/-! ## The check -/

/-- `malloc` and `db_execute`. -/
def AuthCall.Untimed : AuthCall → Prop
  | .time => False
  | _ => True

theorem getUserFromB64_untimed (base64 : Bytes) :
    (getUserFromB64 base64).Calls AuthCall.Untimed := by
  unfold getUserFromB64
  split
  · trivial
  · apply Prog.Calls.call trivial
    intro room
    split
    · trivial
    · apply Prog.Calls.call trivial
      intro username
      apply Prog.Calls.call trivial
      intro password
      split
      · split
        · trivial
        · exact Prog.Calls.call trivial fun _ => trivial
      · trivial

theorem dbUserGetFromResult_untimed (row : Option (Option Bytes × Option Bytes)) :
    (dbUserGetFromResult row).Calls AuthCall.Untimed := by
  unfold dbUserGetFromResult
  split
  · apply Prog.Calls.call trivial
    intro user
    split
    · exact Prog.Calls.call trivial fun _ => Prog.Calls.call trivial fun _ => trivial
    · trivial
  · trivial

theorem checkCredentials_untimed (authB64 : Bytes) :
    (checkCredentials authB64).Calls AuthCall.Untimed := by
  unfold checkCredentials
  apply Prog.Calls.bind (getUserFromB64_untimed authB64)
  intro requestUser
  cases requestUser with
  | none => trivial
  | some requestUser =>
      apply Prog.Calls.call trivial
      intro room
      split
      · apply Prog.Calls.call trivial
        intro res
        cases res with
        | failed => trivial
        | done => trivial
        | rows row =>
            apply Prog.Calls.bind (dbUserGetFromResult_untimed row)
            intro validUser
            cases validUser <;> trivial
      · trivial

/-! ## Without allocation failures -/

/-- The user in the decoded credentials. -/
def decodeUser (base64 : Bytes) : Option User :=
  (base64Decode base64).bind fun decoded =>
    (scanCredentials (cstr decoded.bytes)).map fun (username, password) => ⟨username, password⟩

/-- Every allocation succeeds, the clock stands at 0, and the database is `db`. -/
def allocating (db : Bytes → DbResult) : (c : AuthCall) → AuthAnswer c
  | .malloc => true
  | .time => (0 : Int)
  | .dbExecute query => db query

/-- The password of `user` is what the proxy reads of the first row that the database finds. -/
def passwordMatches (db : Bytes → DbResult) (user : User) : Bool :=
  match db (dbUserGet user.username) with
  | .rows (some (some _, some password)) => user.password = cstr password
  | _ => false

theorem getUserFromB64_follow (db : Bytes → DbResult) (base64 : Bytes) :
    (getUserFromB64 base64).follow (allocating db) = some (decodeUser base64) := by
  unfold getUserFromB64 decodeUser
  have room : allocating db .malloc = true := rfl
  split
  · rename_i hlength
    rw [base64Decode, if_pos hlength]
    rfl
  · rw [Prog.follow_perform_bind, if_pos room]
    cases base64Decode base64 with
    | none => rfl
    | some decoded =>
        dsimp only
        rw [Prog.follow_perform_bind, Prog.follow_perform_bind, if_pos (by rw [room]; rfl)]
        cases hscan : scanCredentials (cstr decoded.bytes) <;> simp only [Option.bind_some, hscan] <;>
          rfl

theorem checkCredentials_follow (db : Bytes → DbResult) (authB64 : Bytes) :
    (checkCredentials authB64).follow (allocating db) =
      some ((decodeUser authB64).any (passwordMatches db)) := by
  have room : allocating db .malloc = true := rfl
  unfold checkCredentials
  rw [Prog.follow_bind, getUserFromB64_follow]
  cases decodeUser authB64 with
  | none => rfl
  | some user =>
      dsimp only [Option.bind_some]
      rw [Prog.follow_perform_bind, if_pos room, Prog.follow_perform_bind]
      have answer : allocating db (.dbExecute (dbUserGet user.username)) =
        db (dbUserGet user.username) := rfl
      rw [answer, Option.any_some, passwordMatches]
      cases db (dbUserGet user.username) with
      | failed => rfl
      | done => rfl
      | rows row =>
          cases row with
          | none => rfl
          | some row =>
              obtain ⟨username, password⟩ := row
              cases username <;> cases password <;> rfl

theorem hasValidAuth_follow (db : Bytes → DbResult) {map : Option (HashMap Int)}
    (text : extractBasicAuthB64 request = some authB64)
    (miss : (map.getD .create).get authB64 = none) :
    (hasValidAuth map request).follow (allocating db) =
      some (if (decodeUser authB64).any (passwordMatches db) = true
        then (true, (map.getD .create).add authB64 (0 + cacheTtl)) else (false, map.getD .create)) := by
  have room : allocating db .malloc = true := rfl
  unfold hasValidAuth
  dsimp only
  rw [text]
  dsimp only
  rw [Prog.follow_perform_bind, if_pos room, miss]
  dsimp only
  rw [authenticate, Prog.follow_bind, checkCredentials_follow, Option.bind_some]
  split
  · rfl
  · rfl

/-! ## Splitting the decoded text -/

/-- The first conversion reads it whole, as a user name in front of a colon. -/
def Named (username : Bytes) : Prop := username ≠ [] ∧ username.length ≤ 255 ∧ 58 ∉ username

/-- The second conversion reads it whole, as a password. -/
def Solid (password : Bytes) : Prop :=
  password ≠ [] ∧ password.length ≤ 255 ∧ ∀ c ∈ password, isspace c = false

variable {username password : Bytes}

theorem scanRun_username {s rest : Bytes} :
    scanRun 255 (· ≠ 58) s = some (username, 58 :: rest) ↔
      s = username ++ 58 :: rest ∧ Named username := by
  have colonless : (∀ c ∈ username, decide (c ≠ 58) = true) ↔ 58 ∉ username := by
    constructor
    · intro all hmem
      simpa using all 58 hmem
    · intro hnot c hc
      simp only [decide_eq_true_eq]
      rintro rfl
      exact hnot hc
  rw [scanRun_eq_some, colonless]
  constructor
  · rintro ⟨heq, hne, hle, hnot, -⟩
    exact ⟨heq, hne, hle, hnot⟩
  · rintro ⟨heq, hne, hle, hnot⟩
    exact ⟨heq, hne, hle, hnot, .inr (by simp)⟩

theorem scanCredentials_named {rest : Bytes} (named : Named username) :
    scanCredentials (username ++ 58 :: rest) =
      (scanRun 255 (!isspace ·) (rest.dropWhile isspace)).map fun (password, _) =>
        (username, password) := by
  unfold scanCredentials
  rw [scanRun_username.mpr ⟨rfl, named⟩]
  rfl

/-- White space in front of the second conversion is skipped. -/
theorem dropWhile_blank {blank rest : Bytes} (skipped : ∀ c ∈ blank, isspace c = true)
    (solid : ∀ c ∈ rest.head?, isspace c = false) : (blank ++ rest).dropWhile isspace = rest := by
  rw [List.dropWhile_append_of_pos skipped]
  cases rest with
  | nil => rfl
  | cons c rest =>
      have hc : isspace c = false := solid c rfl
      rw [List.dropWhile_cons_of_neg (by simp [hc])]

/-- `sscanf` converts both: the user name up to the first colon, and the password
up to white space, behind any white space. -/
theorem scanCredentials_eq_some {s : Bytes} :
    scanCredentials s = some (username, password) ↔
      ∃ blank tail, s = username ++ 58 :: (blank ++ (password ++ tail)) ∧ Named username ∧
        (∀ c ∈ blank, isspace c = true) ∧ Solid password ∧
        Stops 255 (!isspace ·) password tail := by
  have nonspace : (∀ c ∈ password, (!isspace c) = true) ↔ ∀ c ∈ password, isspace c = false := by
    simp
  constructor
  · intro h
    unfold scanCredentials at h
    split at h
    · rename_i username' rest hfirst
      obtain ⟨⟨password', tail⟩, hsecond, heq⟩ := Option.map_eq_some_iff.mp h
      cases heq
      obtain ⟨rfl, named⟩ := scanRun_username.mp hfirst
      obtain ⟨hrest, hne, hle, hall, hstops⟩ := scanRun_eq_some.mp hsecond
      refine ⟨rest.takeWhile isspace, tail, ?_, named, ?_, ⟨hne, hle, nonspace.mp hall⟩, hstops⟩
      · rw [← hrest, List.takeWhile_append_dropWhile]
      · exact List.all_eq_true.mp List.all_takeWhile
    · cases h
  · rintro ⟨blank, tail, rfl, named, skipped, ⟨hne, hle, hall⟩, hstops⟩
    have solid : ∀ c ∈ (password ++ tail).head?, isspace c = false := by
      cases password with
      | nil => exact absurd rfl hne
      | cons c password =>
          intro c' hc'
          cases hc'
          exact hall c List.mem_cons_self
    rw [scanCredentials_named named, dropWhile_blank skipped solid,
      scanRun_eq_some.mpr ⟨rfl, hne, hle, nonspace.mpr hall, hstops⟩]
    rfl

/-- `sscanf` converts both if there is a name in front of the first colon, and
anything but white space behind it. -/
theorem scanCredentials_isSome {s : Bytes} :
    (scanCredentials s).isSome = true ↔
      ∃ username rest, s = username ++ 58 :: rest ∧ Named username ∧
        ∃ c ∈ rest, isspace c = false := by
  constructor
  · intro h
    obtain ⟨⟨username, password⟩, hscan⟩ := Option.isSome_iff_exists.mp h
    obtain ⟨blank, tail, rfl, named, -, ⟨hne, -, hall⟩, -⟩ := scanCredentials_eq_some.mp hscan
    obtain ⟨c, hc⟩ := List.exists_mem_of_ne_nil _ hne
    exact ⟨username, _, rfl, named, c, by simp [hc], hall c hc⟩
  · rintro ⟨username, rest, rfl, named, c, hc, hspace⟩
    rw [scanCredentials_named named, Option.isSome_map, Option.isSome_iff_ne_none]
    intro hnone
    rw [scanRun_eq_none (by decide)] at hnone
    -- the first byte behind the white space is not white space
    have hne : rest.dropWhile isspace ≠ [] := by
      intro hnil
      rw [List.dropWhile_eq_nil_iff.mp hnil c hc] at hspace
      cases hspace
    have hhead := List.head_dropWhile_not isspace hne
    have := hnone _ (List.head?_eq_some_head hne)
    rw [hhead] at this
    cases this

/-- Neither the name nor the password in credentials has a NUL. -/
theorem nulFree_of_decodeUser {base64 : Bytes} {user : User}
    (decoded : decodeUser base64 = some user) : 0 ∉ user.username ∧ 0 ∉ user.password := by
  obtain ⟨d, -, scanned⟩ := Option.bind_eq_some_iff.mp decoded
  obtain ⟨⟨username, password⟩, scan, rfl⟩ := Option.map_eq_some_iff.mp scanned
  obtain ⟨blank, tail, heq, -⟩ := scanCredentials_eq_some.mp scan
  have nulFree := not_mem_cstr d.bytes
  rw [heq] at nulFree
  simp only [List.mem_append, List.mem_cons, not_or] at nulFree
  exact ⟨nulFree.1, nulFree.2.2.2.1⟩

/-! ## What a successful check has seen -/

theorem getUserFromB64_runs {base64 : Bytes} {tr : AuthHistory} {user : User}
    (run : (getUserFromB64 base64).Runs tr (some user)) : decodeUser base64 = some user := by
  unfold getUserFromB64 at run
  unfold decodeUser
  split at run
  · cases run.2
  · rw [Prog.runs_perform_bind] at run
    obtain ⟨room, rest, rfl, run⟩ := run
    split at run
    · cases run.2
    · rename_i decoded hdecoded
      have hdecoded : base64Decode base64 = some decoded := by
        split at hdecoded
        · exact hdecoded
        · cases hdecoded
      rw [Prog.runs_perform_bind] at run
      obtain ⟨username, rest, rfl, run⟩ := run
      rw [Prog.runs_perform_bind] at run
      obtain ⟨password, rest, rfl, run⟩ := run
      split at run
      · rw [hdecoded, Option.bind_some]
        cases hscan : scanCredentials (cstr decoded.bytes) with
        | none =>
            rw [hscan] at run
            cases run.2
        | some scanned =>
            rw [hscan] at run
            obtain ⟨room, rest, rfl, -, hresult⟩ := run
            split at hresult
            · exact hresult.symm
            · cases hresult
      · cases run.2

theorem dbUserGetFromResult_runs {row : Option (Option Bytes × Option Bytes)} {tr : AuthHistory}
    {user : User} (run : (dbUserGetFromResult row).Runs tr (some user)) :
    ∃ name pass, row = some (some name, some pass) ∧ user = ⟨cstr name, cstr pass⟩ := by
  unfold dbUserGetFromResult at run
  split at run
  · rw [Prog.runs_perform_bind] at run
    obtain ⟨room, rest, rfl, run⟩ := run
    split at run
    · obtain ⟨name, rest, rfl, pass, rest, rfl, -, hresult⟩ := run
      split at hresult
      · cases hresult
        exact ⟨_, _, rfl, rfl⟩
      · cases hresult
    · cases run.2
  · cases run.2

/-- The first row found for the user in the credentials has the password that is
in the credentials, up to a NUL. -/
theorem checkCredentials_runs {tr : AuthHistory}
    (run : (checkCredentials authB64).Runs tr true) :
    ∃ user name pass, decodeUser authB64 = some user ∧ cstr pass = user.password ∧
      (⟨.dbExecute (dbUserGet user.username), .rows (some (some name, some pass))⟩ : AuthIo)
        ∈ tr := by
  rw [checkCredentials, Prog.runs_bind] at run
  obtain ⟨requestUser, t₁, t₂, rfl, hrequest, run⟩ := run
  cases requestUser with
  | none => cases run.2
  | some user =>
      dsimp only at run
      rw [Prog.runs_perform_bind] at run
      obtain ⟨room, rest, rfl, run⟩ := run
      split at run
      · rw [Prog.runs_perform_bind] at run
        obtain ⟨res, rest, rfl, run⟩ := run
        cases res with
        | failed => cases run.2
        | done => cases run.2
        | rows row =>
            dsimp only at run
            rw [Prog.runs_bind] at run
            obtain ⟨validUser, t₃, t₄, rfl, hvalid, run⟩ := run
            cases validUser with
            | none => cases run.2
            | some valid =>
                obtain ⟨-, hsame⟩ := run
                have hpass : user.password = valid.password := of_decide_eq_true hsame.symm
                obtain ⟨name, pass, rfl, rfl⟩ := dbUserGetFromResult_runs hvalid
                exact ⟨user, name, pass, getUserFromB64_runs hrequest, hpass.symm, by simp⟩
      · cases run.2

/-! ## The cache -/

/-- The part of `has_valid_auth` in front of the check: no entry, or an expired
one that is removed. -/
inductive Unanswered (map : HashMap Int) (authB64 : Bytes) : AuthHistory → HashMap Int → Prop
  | absent (miss : map.get authB64 = none) : Unanswered map authB64 [⟨.malloc, true⟩] map
  | expired {ttl now : Int} (hit : map.get authB64 = some ttl) (old : ttl ≤ now) :
      Unanswered map authB64 [⟨.malloc, true⟩, ⟨.time, now⟩] (map.remove authB64)

/-- One call of `has_valid_auth`. -/
inductive Visited (map : HashMap Int) (request : Bytes) : AuthHistory → Bool → HashMap Int → Prop
  | noCredentials (missing : extractBasicAuthB64 request = none) : Visited map request [] false map
  | noMemory {authB64 : Bytes} (text : extractBasicAuthB64 request = some authB64) :
      Visited map request [⟨.malloc, false⟩] false map
  | cached {authB64 : Bytes} {ttl now : Int} (text : extractBasicAuthB64 request = some authB64)
      (hit : map.get authB64 = some ttl) (recent : now < ttl) :
      Visited map request [⟨.malloc, true⟩, ⟨.time, now⟩] true map
  | denied {authB64 : Bytes} {before check : AuthHistory} {map' : HashMap Int}
      (text : extractBasicAuthB64 request = some authB64)
      (first : Unanswered map authB64 before map') (run : (checkCredentials authB64).Runs check false) :
      Visited map request (before ++ check) false map'
  | confirmed {authB64 : Bytes} {before check : AuthHistory} {map' : HashMap Int} (now : Int)
      (text : extractBasicAuthB64 request = some authB64)
      (first : Unanswered map authB64 before map') (run : (checkCredentials authB64).Runs check true) :
      Visited map request (before ++ check ++ [⟨.time, now⟩]) true
        (map'.add authB64 (now + cacheTtl))

theorem authenticate_runs {before : AuthHistory} {map₁ : HashMap Int}
    (text : extractBasicAuthB64 request = some authB64) (first : Unanswered map authB64 before map₁)
    (run : (authenticate map₁ authB64).Runs io (granted, map')) :
    Visited map request (before ++ io) granted map' := by
  rw [authenticate, Prog.runs_bind] at run
  obtain ⟨valid, t₁, t₂, rfl, hcheck, run⟩ := run
  cases valid with
  | true =>
      obtain ⟨now, rest, rfl, rfl, hresult⟩ := run
      cases hresult
      rw [← List.append_assoc]
      exact .confirmed now text first hcheck
  | false =>
      obtain ⟨rfl, hresult⟩ := run
      cases hresult
      rw [List.append_nil]
      exact .denied text first hcheck

theorem hasValidAuth_runs {map : Option (HashMap Int)}
    (run : (hasValidAuth map request).Runs io (granted, map')) :
    Visited (map.getD .create) request io granted map' := by
  unfold hasValidAuth at run
  dsimp only at run
  split at run
  · rename_i missing
    obtain ⟨rfl, hresult⟩ := run
    cases hresult
    exact .noCredentials missing
  · rename_i authB64 text
    rw [Prog.runs_perform_bind] at run
    obtain ⟨room, rest, rfl, run⟩ := run
    cases room with
    | false =>
        obtain ⟨rfl, hresult⟩ := run
        cases hresult
        exact .noMemory text
    | true =>
        rw [if_pos rfl] at run
        split at run
        · rename_i ttl hit
          rw [Prog.runs_perform_bind] at run
          obtain ⟨now, rest, rfl, run⟩ := run
          split at run
          · rename_i recent
            obtain ⟨rfl, hresult⟩ := run
            cases hresult
            exact .cached text hit recent
          · rename_i old
            exact authenticate_runs text (.expired hit (Int.not_lt.mp old)) run
        · rename_i miss
          exact authenticate_runs text (.absent miss) run

end SimpleProxy
