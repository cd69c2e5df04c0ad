import SimpleProxy.Logic.Credentials
import SimpleProxy.ProxyConfig.Commands

/-!
# Accounts

What `simpleproxy-config add` stores, and what the proxy accepts. The two agree on
the user name and the password only if both survive the queries, where quotes and
backslashes have a meaning, and the scan of the decoded credentials, where colons,
white space and lengths have one.
-/

namespace SimpleProxy.Theorems.Accounts

open Interact CString

variable {username stdin password : Bytes} {tr : List ToolIo} {db : Bytes → DbResult}

/-- The password that was typed in. -/
def typedPassword (stdin : Bytes) : Bytes := stdin.takeWhile (· ≠ 10)

/-- What `get_password` returns of it. -/
def keptPassword (password : Bytes) : Bytes := (cstr password).take 255

/-- `simpleproxy-config add` succeeded for a user name, with `stdin` as its input. -/
structure Added (username stdin : Bytes) (tr : List ToolIo) : Prop where
  argument : 0 ∉ username
  exited : ∃ program command option, (cmdAdd [program, command, option, username]).Runs tr 0
  typed : ∀ size r, (⟨.fgets size, r⟩ : ToolIo) ∈ tr → r = (fgets size stdin).map Prod.fst

/-- The statement stored the values of its string literals: a query for a user of
that name, however it is written, finds them. -/
def Stores (statement : Bytes) (db : Bytes → DbResult) : Prop :=
  ∀ name pass, Sql.Lexes statement (Sql.meaning (Query.add name pass).template) →
    ∀ query, Sql.Lexes query (Sql.meaning (Query.get name).template) →
      db query = .rows (some (some name, some pass))

/-- The first `Proxy-Authorization:` of a request is followed by these credentials. -/
def Presents (request credentials : Bytes) : Prop :=
  ∃ more, strstr request (bytes "Proxy-Authorization:") =
    some (bytes "Proxy-Authorization:" ++
      (bytes " Basic " ++ (Base64.encode credentials ++ (bytes "\r\n" ++ more))))

/-- No allocation fails, and the database is `db`. -/
structure Undisturbed (db : Bytes → DbResult) (io : AuthHistory) : Prop where
  room : ∀ ok, (⟨.malloc, ok⟩ : AuthIo) ∈ io → ok = true
  answers : ∀ query r, (⟨.dbExecute query, r⟩ : AuthIo) ∈ io → r = db query

/-- After the statements of `tr`, `has_valid_auth` grants access to every request
with these credentials, whatever is in its cache. -/
def Accepted (tr : List ToolIo) (credentials : Bytes) : Prop :=
  ∀ db, (∀ statement r, (⟨.dbExecute statement, r⟩ : ToolIo) ∈ tr → Stores statement db) →
    ∀ request, Presents request credentials → ∀ map io granted map',
      (hasValidAuth map request).Runs io (granted, map') → Undisturbed db io → granted = true

/-- A user name and a password on which the tool and the proxy agree. -/
structure Agreed (username password : Bytes) : Prop where
  named : Named username
  complete : (Sql.body username).isSome = true
  solid : Solid (keptPassword password)
  verbatim : Sql.verbatim (keptPassword password) = true

/-! ## What was stored -/

theorem chomp_fgets {line rest : Bytes} (h : fgets 256 stdin = some (line, rest)) :
    chomp line = keptPassword (typedPassword stdin) := by
  unfold fgets at h
  split at h
  · cases h
  · cases h
    -- up to the first newline or NUL
    have both : (stdin.takeWhile (· ≠ 0)).takeWhile (· ≠ 10) =
        (stdin.takeWhile (· ≠ 10)).takeWhile (· ≠ 0) := by
      rw [List.takeWhile_takeWhile, List.takeWhile_takeWhile]
      simp only [and_comm]
    have short : ((stdin.takeWhile (· ≠ 10)).takeWhile (· ≠ 0)).length ≤
        (stdin.takeWhile (· ≠ 10)).length := (List.takeWhile_prefix _).length_le
    unfold chomp keptPassword typedPassword cstr
    rw [← List.take_takeWhile, ← List.take_takeWhile, both]
    rcases Nat.lt_or_ge (stdin.takeWhile (· ≠ 10)).length 255 with hlt | hge
    · rw [List.take_of_length_le (by omega), List.take_of_length_le (by omega)]
    · rw [Nat.min_eq_right (by omega)]

/-- The one statement that was executed. -/
theorem statement_of_added (added : Added username stdin tr) (statement : Bytes) :
    (∃ r, (⟨.dbExecute statement, r⟩ : ToolIo) ∈ tr) ↔
      statement = dbUserAdd username (keptPassword (typedPassword stdin)) := by
  obtain ⟨program, command, option, run⟩ := added.exited
  obtain ⟨line, hline, hexecuted⟩ := cmdAdd_runs run
  have hread := added.typed _ _ hline
  obtain ⟨⟨piece, rest⟩, hfgets, hpiece⟩ := Option.map_eq_some_iff.mp hread.symm
  obtain rfl : piece = line := hpiece
  rw [← chomp_fgets hfgets]
  constructor
  · rintro ⟨r, hmem⟩
    exact ((hexecuted statement r).mp hmem).1
  · intro h
    exact ⟨.done, (hexecuted statement .done).mpr ⟨h, rfl⟩⟩

/-! ## What is accepted -/

theorem encode_oneLine (credentials : Bytes) : 13 ∉ Base64.encode credentials := by
  intro h
  exact Base64.forall_mem_encode (P := (· ≠ 13)) (by decide +kernel) (by decide) credentials 13 h
    rfl

/-- The user the proxy finds in the credentials. -/
theorem decodeUser_encode (argument : 0 ∉ username) (password : Bytes) :
    decodeUser (Base64.encode (username ++ 58 :: password)) =
      (scanCredentials (username ++ 58 :: cstr password)).map fun (name, pass) => ⟨name, pass⟩ := by
  obtain ⟨decoded, hdecoded, hbytes⟩ :=
    Option.map_eq_some_iff.mp (base64Decode_encode (username ++ 58 :: password))
  have colon : cstr (58 :: password) = 58 :: cstr password := rfl
  rw [decodeUser, hdecoded, Option.bind_some, hbytes, cstr_append argument, colon]

/-- A check in an undisturbed call does what it does when every allocation
succeeds. -/
theorem check_undisturbed {authB64 : Bytes} {io check : AuthHistory} {valid : Bool}
    (undisturbed : Undisturbed db io) (sub : ∀ e ∈ check, e ∈ io)
    (run : (checkCredentials authB64).Runs check valid) :
    (decodeUser authB64).any (passwordMatches db) = valid := by
  have answered : ∀ e ∈ check, e.answer = allocating db e.call := by
    intro ⟨call, answer⟩ he
    cases call with
    | malloc => exact undisturbed.room answer (sub _ he)
    | time => exact ((checkCredentials_untimed authB64).runs run _ he).elim
    | dbExecute query => exact undisturbed.answers query answer (sub _ he)
  have follows := Prog.follow_of_runs run answered
  rw [checkCredentials_follow] at follows
  exact Option.some.inj follows

/-- The proxy reads the user that was added. -/
theorem decodeUser_of_agreed (argument : 0 ∉ username) (agreed : Agreed username password) :
    decodeUser (Base64.encode (username ++ 58 :: password)) =
      some ⟨username, keptPassword password⟩ := by
  have scan : scanCredentials (username ++ 58 :: cstr password) =
      some (username, keptPassword password) := by
    refine scanCredentials_eq_some.mpr ⟨[], (cstr password).drop 255, ?_, agreed.named, by simp,
      agreed.solid, ?_⟩
    · rw [List.nil_append, keptPassword, List.take_append_drop]
    · rcases Nat.lt_or_ge (cstr password).length 255 with hlt | hge
      · right
        rw [List.drop_of_length_le (Nat.le_of_lt hlt)]
        simp
      · left
        rw [keptPassword, List.length_take_of_le hge]
  rw [decodeUser_encode argument, scan]
  rfl

/-- There is no NUL in what is kept of a password. -/
theorem not_mem_keptPassword (password : Bytes) : 0 ∉ keptPassword password :=
  fun h => not_mem_cstr password (List.mem_of_mem_take h)

/-- The database has the password the proxy asks for. -/
theorem found_of_agreed (added : Added username stdin tr)
    (agreed : Agreed username (typedPassword stdin))
    (stores : ∀ statement r, (⟨.dbExecute statement, r⟩ : ToolIo) ∈ tr → Stores statement db) :
    ∃ value, db (dbUserGet username) =
      .rows (some (some value, some (keptPassword (typedPassword stdin)))) := by
  obtain ⟨value, denotes⟩ := Option.isSome_iff_exists.mp agreed.complete
  obtain ⟨r, hmem⟩ := (statement_of_added added _).mpr rfl
  refine ⟨value, stores _ r hmem _ _ ?_ _ ?_⟩
  · apply (Query.lexes_add agreed.named.2.1 agreed.solid.2.1 denotes).mpr
    exact Sql.body_verbatim.mpr agreed.verbatim
  · exact (Query.lexes_get agreed.named.2.1).mpr denotes

theorem accepted_of_agreed (added : Added username stdin tr)
    (agreed : Agreed username (typedPassword stdin)) :
    Accepted tr (username ++ 58 :: typedPassword stdin) := by
  intro db stores request ⟨more, presented⟩ map io granted map' run undisturbed
  have text := extract_presented (encode_oneLine _) presented
  have valid : (decodeUser (Base64.encode (username ++ 58 :: typedPassword stdin))).any
      (passwordMatches db) = true := by
    obtain ⟨value, found⟩ := found_of_agreed added agreed stores
    rw [decodeUser_of_agreed added.argument agreed, Option.any_some, passwordMatches, found]
    exact decide_eq_true (cstr_of_not_mem (not_mem_keptPassword _)).symm
  cases hasValidAuth_runs run with
  | noCredentials missing =>
      rw [text] at missing
      cases missing
  | noMemory => exact absurd (undisturbed.room false (by simp)) Bool.false_ne_true
  | cached => rfl
  | confirmed => rfl
  | denied text' _ check =>
      obtain rfl := Option.some.inj (text.symm.trans text')
      rw [check_undisturbed undisturbed (fun e he => List.mem_append_right _ he) check] at valid
      exact valid

/-! ## What is not accepted -/

/-- A database that stored the values of a statement, and answers no other query. -/
theorem exists_stores (statement : Bytes) :
    ∃ db, Stores statement db ∧ ∀ query row, db query = .rows (some row) →
      ∃ name pass, row = (some name, some pass) ∧
        Sql.Lexes statement (Sql.meaning (Query.add name pass).template) ∧
        Sql.Lexes query (Sql.meaning (Query.get name).template) := by
  have answer : ∀ query, ∃ result,
      (∀ name pass, Sql.Lexes statement (Sql.meaning (Query.add name pass).template) →
        Sql.Lexes query (Sql.meaning (Query.get name).template) →
        result = DbResult.rows (some (some name, some pass))) ∧
      ∀ row, result = .rows (some row) → ∃ name pass, row = (some name, some pass) ∧
        Sql.Lexes statement (Sql.meaning (Query.add name pass).template) ∧
        Sql.Lexes query (Sql.meaning (Query.get name).template) := by
    intro query
    by_cases found : ∃ name pass,
        Sql.Lexes statement (Sql.meaning (Query.add name pass).template) ∧
        Sql.Lexes query (Sql.meaning (Query.get name).template)
    · obtain ⟨name, pass, hadd, hget⟩ := found
      refine ⟨.rows (some (some name, some pass)), ?_, ?_⟩
      · intro name' pass' hadd' _
        obtain ⟨rfl, rfl⟩ := Query.meaning_add_inj (hadd.unique hadd')
        rfl
      · intro row hrow
        cases hrow
        exact ⟨name, pass, rfl, hadd, hget⟩
    · refine ⟨.failed, ?_, ?_⟩
      · intro name pass hadd hget
        exact absurd ⟨name, pass, hadd, hget⟩ found
      · intro row hrow
        cases hrow
  choose db hdb using answer
  refine ⟨db, ?_, ?_⟩
  · intro name pass hadd query hget
    exact (hdb query).1 name pass hadd hget
  · intro query row hrow
    exact (hdb query).2 row hrow

theorem isspace_unescape (c : UInt8) (h : isspace c = true) : c ∈ Sql.unescape c := by
  have all : ∀ n < 256, isspace (UInt8.ofNat n) = true →
      UInt8.ofNat n ∈ Sql.unescape (UInt8.ofNat n) := by decide +kernel
  have := all c.toNat c.toNat_lt
  rw [UInt8.ofNat_toNat] at this
  exact this h

/-- Bytes that denote what was read out of the credentials have no white space. -/
theorem nospace_of_body {front pass : Bytes} (solid : Solid pass)
    (denotes : Sql.body front = some pass) : ∀ c ∈ front, isspace c = false := by
  intro c hc
  rw [Bool.eq_false_iff]
  intro hspace
  have hmem := Sql.mem_of_body (P := (isspace · = true)) (by decide) (by decide)
    isspace_unescape denotes hc hspace
  rw [solid.2.2 c hmem] at hspace
  cases hspace

/-- A password that is stored as it is read out of the credentials has no white
space, and nothing of it is read as an escape. -/
theorem kept_of_scan {blank tail pass : Bytes}
    (heq : cstr password = blank ++ (pass ++ tail)) (skipped : ∀ c ∈ blank, isspace c = true)
    (solid : Solid pass) (stops : Stops 255 (!isspace ·) pass tail)
    (stored : Sql.body (keptPassword password) = some pass) : keptPassword password = pass := by
  have nospace := nospace_of_body solid stored
  unfold keptPassword at nospace ⊢
  rw [heq] at nospace ⊢
  cases blank with
  | cons w blank =>
      have := nospace w (by simp)
      rw [skipped w List.mem_cons_self] at this
      cases this
  | nil =>
      rw [List.nil_append] at nospace ⊢
      rcases stops with hlength | hstop
      · rw [← hlength, List.take_left]
      · cases tail with
        | nil => rw [List.append_nil, List.take_of_length_le solid.2.1]
        | cons w tail =>
            have hspace : isspace w = true := by simpa using hstop w rfl
            rcases Nat.lt_or_ge pass.length 255 with hlt | hge
            · have hmem : w ∈ (pass ++ w :: tail).take 255 := by
                rw [List.take_append, show 255 - pass.length = (254 - pass.length) + 1 by omega,
                  List.take_succ_cons]
                simp
              rw [nospace w hmem] at hspace
              cases hspace
            · have hlength : pass.length = 255 := Nat.le_antisymm solid.2.1 hge
              rw [← hlength, List.take_left]

/-- A stored password that has a NUL behind what was read out of the credentials has it from an
escape, and that would have been read out of the credentials too. -/
theorem stored_of_scan {blank tail pass stored : Bytes}
    (heq : cstr password = blank ++ (pass ++ tail)) (skipped : ∀ c ∈ blank, isspace c = true)
    (solid : Solid pass) (stops : Stops 255 (!isspace ·) pass tail)
    (denotes : Sql.body (keptPassword password) = some stored) (same : cstr stored = pass) :
    stored = pass := by
  by_cases nul : 0 ∈ stored
  · obtain ⟨read, rest, rfl, clean⟩ := List.eq_append_cons_of_mem nul
    rw [cstr_append clean] at same
    obtain rfl : read = pass := by simpa [cstr] using same
    obtain ⟨front, e, back, hkept, hfront⟩ :=
      Sql.escape_of_body (not_mem_keptPassword password) denotes
    -- `seen` is kept, has no white space, and is longer than what was read
    let seen := front ++ [Sql.backslash]
    have nospace : ∀ c ∈ seen, isspace c = false := by
      intro c hc
      rcases List.mem_append.mp hc with hc | hc
      · exact nospace_of_body solid hfront c hc
      · rw [List.mem_singleton.mp hc]
        decide
    have longer : read.length < seen.length := by
      have := Sql.length_le_of_body hfront
      simp only [seen, List.length_append, List.length_singleton]
      omega
    have short : seen.length < 255 := by
      have hle : (keptPassword password).length ≤ 255 := List.length_take_le _ _
      rw [hkept, List.length_append, List.length_cons, List.length_cons] at hle
      simp only [seen, List.length_append, List.length_singleton]
      omega
    have fits : seen <+: blank ++ (read ++ tail) := by
      rw [← heq]
      refine List.IsPrefix.trans ?_ (List.take_prefix 255 _)
      exact ⟨e :: back, by rw [← keptPassword, hkept]; simp [seen]⟩
    cases blank with
    | cons w blank =>
        obtain ⟨more, hmore⟩ := fits
        cases hseen : seen with
        | nil => rw [hseen] at longer; cases longer
        | cons x _ =>
            rw [hseen] at hmore nospace
            obtain rfl := (List.cons.inj hmore).1
            have := nospace x List.mem_cons_self
            rw [skipped x List.mem_cons_self] at this
            cases this
    | nil =>
        obtain ⟨more, hmore⟩ := List.prefix_of_prefix_length_le (List.prefix_append read tail) fits
          (Nat.le_of_lt longer)
        rw [← hmore, List.nil_append, List.prefix_append_right_inj] at fits
        cases more with
        | nil => rw [List.append_nil] at hmore; rw [hmore] at longer; exact absurd longer (Nat.lt_irrefl _)
        | cons w more =>
            rcases stops with full | stop
            · omega
            · obtain ⟨tail', rfl⟩ := fits
              have hspace : isspace w = true := by simpa using stop w rfl
              rw [nospace w (by rw [← hmore]; simp)] at hspace
              cases hspace
  · rw [← same, cstr_of_not_mem nul]

/-- The proxy scanned a user, and found it with the password that was stored. -/
theorem agreed_of_scan {user : User} {name stored : Bytes} (argument : 0 ∉ username)
    (decoded : decodeUser (Base64.encode (username ++ 58 :: password)) = some user)
    (added : Sql.Lexes (dbUserAdd username (keptPassword password))
      (Sql.meaning (Query.add name stored).template))
    (same : cstr stored = user.password)
    (asked : Sql.Lexes (dbUserGet user.username) (Sql.meaning (Query.get name).template)) :
    Agreed username password := by
  rw [decodeUser_encode argument] at decoded
  obtain ⟨⟨scanned, pass⟩, scan, rfl⟩ := Option.map_eq_some_iff.mp decoded
  obtain ⟨blank, tail, heq, named, skipped, solid, stops⟩ := scanCredentials_eq_some.mp scan
  have denotes : Sql.body scanned = some name := (Query.lexes_get named.2.1).mp asked
  -- the user name ends at the first colon
  obtain ⟨rfl, hpassword⟩ : username = scanned ∧ cstr password = blank ++ (pass ++ tail) := by
    rcases List.append_eq_append_iff.mp heq with ⟨more, rfl, hmore⟩ | ⟨more, rfl, hmore⟩
    · cases more with
      | nil => exact ⟨by rw [List.append_nil], (List.cons.inj hmore).2⟩
      | cons c more =>
          obtain ⟨rfl, -⟩ := List.cons.inj hmore
          exact absurd (by simp) named.2.2
    · cases more with
      | nil => exact ⟨by rw [List.append_nil], (List.cons.inj hmore).2.symm⟩
      | cons c more =>
          obtain ⟨rfl, -⟩ := List.cons.inj hmore
          exact absurd added
            (Query.not_lexes_add_longer named.2.1 denotes (by decide) (by decide) more _ _)
  have short : (keptPassword password).length ≤ 255 := List.length_take_le _ _
  have value : Sql.body (keptPassword password) = some stored :=
    (Query.lexes_add named.2.1 short denotes).mp added
  obtain rfl := stored_of_scan hpassword skipped solid stops value same
  have kept := kept_of_scan hpassword skipped solid stops value
  refine ⟨named, by rw [denotes]; rfl, ?_, ?_⟩
  · rw [kept]
    exact solid
  · rw [kept] at value ⊢
    exact Sql.body_verbatim.mp value

theorem agreed_of_accepted (added : Added username stdin tr)
    (accepted : Accepted tr (username ++ 58 :: typedPassword stdin)) :
    Agreed username (typedPassword stdin) := by
  obtain ⟨db, stores, only⟩ :=
    exists_stores (dbUserAdd username (keptPassword (typedPassword stdin)))
  have stored : ∀ statement r, (⟨.dbExecute statement, r⟩ : ToolIo) ∈ tr → Stores statement db := by
    intro statement r hmem
    rw [(statement_of_added added statement).mp ⟨r, hmem⟩]
    exact stores
  -- one undisturbed call with these credentials and an empty cache
  let credentials := username ++ 58 :: typedPassword stdin
  let request := bytes "Proxy-Authorization:" ++
    (bytes " Basic " ++ (Base64.encode credentials ++ (bytes "\r\n" ++ [])))
  have presented : strstr request (bytes "Proxy-Authorization:") = some request := strstr_self _ _
  have text := extract_presented (encode_oneLine credentials) presented
  have miss : ((none : Option (HashMap Int)).getD .create).get (Base64.encode credentials) = none :=
    HashMap.get_create _
  obtain ⟨io, run, answered⟩ := Prog.runs_of_follow (hasValidAuth_follow db text miss)
  have undisturbed : Undisturbed db io :=
    ⟨fun ok hmem => answered _ hmem, fun query r hmem => answered _ hmem⟩
  have granted := accepted db stored request ⟨[], presented⟩ none io _ _ run undisturbed
  cases valid : (decodeUser (Base64.encode credentials)).any (passwordMatches db) with
  | false =>
      rw [valid] at granted
      cases granted
  | true =>
      obtain ⟨user, decoded, found⟩ := (Option.any_eq_true _ _).mp valid
      unfold passwordMatches at found
      split at found
      · rename_i name pass hrow
        obtain ⟨value, pass', hpair, hadd, hget⟩ := only _ _ hrow
        obtain ⟨-, hpass⟩ := Prod.mk.inj hpair
        obtain rfl : pass = pass' := Option.some.inj hpass
        have same : cstr pass = user.password := (of_decide_eq_true found).symm
        exact agreed_of_scan added.argument decoded hadd same hget
      · cases found

/-- **Accounts.** After `simpleproxy-config add` succeeded for a user name and a
password, the proxy accepts them, whatever the database does with other queries,
exactly if the name and the password agree with both the queries and the scan. -/
theorem accepted_iff (added : Added username stdin tr) :
    Accepted tr (username ++ 58 :: typedPassword stdin) ↔ Agreed username (typedPassword stdin) :=
  ⟨agreed_of_accepted added, accepted_of_agreed added⟩

/-- `simpleproxy-config add -u NAME`, with one line of input. -/
def addRun (name line : Bytes) : List ToolIo :=
  [⟨.malloc, true⟩, ⟨.fgets 256, some line⟩, ⟨.malloc, true⟩,
    ⟨.dbExecute (dbUserAdd name (chomp line)), .done⟩]

theorem added_of_addRun {name line : Bytes} (argument : 0 ∉ name)
    (run : (cmdAdd [bytes "simpleproxy-config", bytes "add", bytes "-u", name]).replay
      (addRun name line) = some 0)
    (typed : (fgets 256 line).map Prod.fst = some line) : Added name line (addRun name line) := by
  refine ⟨argument, ⟨_, _, _, Prog.runs_of_replay run⟩, ?_⟩
  intro size r hmem
  have hread : (⟨.fgets size, r⟩ : ToolIo) = ⟨.fgets 256, some line⟩ := by
    simpa [addRun] using hmem
  cases hread
  exact typed.symm

theorem accepted_iff_plain :
    Accepted (addRun (bytes "u") (bytes "p\n")) (bytes "u" ++ 58 :: typedPassword (bytes "p\n")) ↔
      Agreed (bytes "u") (typedPassword (bytes "p\n")) :=
  accepted_iff (added_of_addRun (by decide) (by decide) (by decide))

/-- The password `a b` is stored for user `u`, and compared with `a`. -/
theorem accepted_fails : ¬ ∀ username stdin tr, Added username stdin tr →
    Accepted tr (username ++ 58 :: typedPassword stdin) := by
  intro claim
  have added : Added (bytes "u") (bytes "a b\n") (addRun (bytes "u") (bytes "a b\n")) :=
    added_of_addRun (by decide) (by decide) (by decide)
  have agreed := agreed_of_accepted added (claim _ _ _ added)
  have typed : keptPassword (typedPassword (bytes "a b\n")) = bytes "a b" := by decide
  have solid := agreed.solid
  rw [typed] at solid
  exact absurd (solid.2.2 32 (by decide)) (by decide)

end SimpleProxy.Theorems.Accounts
