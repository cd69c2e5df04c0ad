import SimpleProxy.Logic.Credentials

/-!
# Which credentials are accepted

`sscanf` drops parts of the decoded text: what follows a NUL, white space around
the password and what comes behind it, and everything past 255 bytes. A text is
accepted for a stored user although it is not `username:password` exactly if it
has such parts.
-/

namespace SimpleProxy.Theorems.Credentials

open Interact CString

variable {request d : Bytes} {map : Option (HashMap Int)}

/-- What the base64 text in a request decodes to. -/
def decodedText (request : Bytes) : Option Bytes :=
  (extractBasicAuthB64 request).bind fun authB64 => (base64Decode authB64).map Decoded.bytes

/-- The answer of a database with this table to the query for a user. -/
def lookup (table : List User) (username : Bytes) : DbResult :=
  .rows ((table.find? fun user => user.username = username).map fun user =>
    (some user.username, some user.password))

/-- Every query for a user was answered out of the table. -/
def AnsweredFrom (table : List User) (io : AuthHistory) : Prop :=
  ∀ username r, (⟨.dbExecute (dbUserGet username), r⟩ : AuthIo) ∈ io → r = lookup table username

/-- The text is `username:password` of a stored user. -/
def IsStored (table : List User) (d : Bytes) : Prop :=
  ∃ user ∈ table, d = user.username ++ 58 :: user.password

/-- The rows can be read unchanged: they are C strings. -/
def Readable (table : List User) : Prop :=
  ∀ user ∈ table, 0 ∉ user.username ∧ 0 ∉ user.password

/-- Any call that grants access, with an empty cache, got the name and the password
of a stored user. -/
def AcceptsStoredOnly (map : Option (HashMap Int)) (request : Bytes) : Prop :=
  ∀ table io map', Readable table → (hasValidAuth map request).Runs io (true, map') →
    AnsweredFrom table io → ∃ d, decodedText request = some d ∧ IsStored table d

/-- `sscanf` finds a user name and a password. -/
def Splits (d : Bytes) : Prop :=
  ∃ username rest, cstr d = username ++ 58 :: rest ∧ Named username ∧
    ∃ c ∈ rest, isspace c = false

/-- A user name, a colon and a password of which nothing is dropped. -/
def Canonical (d : Bytes) : Prop :=
  0 ∉ d ∧ ∃ username password, d = username ++ 58 :: password ∧ Named username ∧ Solid password

/-- A canonical text is split at its colon. -/
theorem scan_of_canonical (h : Canonical d) {username password : Bytes}
    (scan : scanCredentials (cstr d) = some (username, password)) :
    d = username ++ 58 :: password := by
  obtain ⟨hnul, username', password', rfl, named, solid⟩ := h
  have whole : scanCredentials (username' ++ 58 :: password') = some (username', password') :=
    scanCredentials_eq_some.mpr
      ⟨[], [], by simp, named, by simp, solid, .inr (by simp)⟩
  rw [cstr_of_not_mem hnul, whole] at scan
  cases scan
  rfl

/-- If nothing is dropped the text is canonical. -/
theorem canonical_of_scan {username password : Bytes}
    (scan : scanCredentials (cstr d) = some (username, password))
    (whole : d = username ++ 58 :: password) : Canonical d := by
  obtain ⟨blank, tail, heq, named, -, solid, -⟩ := scanCredentials_eq_some.mp scan
  -- the C string is as long as the text
  have hle : (cstr d).length ≤ d.length := (cstr_starts d).length_le
  have hlength := congrArg List.length heq
  rw [List.length_append, List.length_cons, List.length_append, List.length_append] at hlength
  have hd := congrArg List.length whole
  rw [List.length_append, List.length_cons] at hd
  have hcstr : cstr d = d := (cstr_starts d).eq_of_length (by omega)
  refine ⟨?_, username, password, whole, named, solid⟩
  rw [← hcstr]
  exact not_mem_cstr d

theorem splits_iff : Splits d ↔ ∃ user, scanCredentials (cstr d) = some user := by
  rw [← Option.isSome_iff_exists]
  exact scanCredentials_isSome.symm

/-- The user of a decoded text. -/
theorem decodeUser_of_decoded {authB64 : Bytes} {user : User}
    (text : extractBasicAuthB64 request = some authB64) :
    decodeUser authB64 = some user ↔ ∃ d, decodedText request = some d ∧
      scanCredentials (cstr d) = some (user.username, user.password) := by
  unfold decodeUser decodedText
  rw [text, Option.bind_some]
  cases base64Decode authB64 with
  | none =>
      constructor
      · intro h
        cases h
      · rintro ⟨d, hd, -⟩
        cases hd
  | some decoded =>
      constructor
      · intro h
        obtain ⟨⟨username, password⟩, hscan, rfl⟩ := Option.map_eq_some_iff.mp h
        exact ⟨_, rfl, hscan⟩
      · rintro ⟨d, hd, hscan⟩
        cases hd
        rw [Option.bind_some, hscan]
        rfl

/-- A table with the user in the credentials grants access. -/
theorem accepted_of_user (empty : ∀ key, (map.getD .create).get key = none) {authB64 : Bytes}
    {user : User} (text : extractBasicAuthB64 request = some authB64)
    (decoded : decodeUser authB64 = some user) :
    Readable [user] ∧
      ∃ io map', (hasValidAuth map request).Runs io (true, map') ∧ AnsweredFrom [user] io := by
  let db : Bytes → DbResult := fun query =>
    if query = dbUserGet user.username then lookup [user] user.username else .rows none
  have found : lookup [user] user.username =
      .rows (some (some user.username, some user.password)) := by
    simp [lookup]
  have valid : (decodeUser authB64).any (passwordMatches db) = true := by
    rw [decoded, Option.any_some, passwordMatches]
    simp [db, found, cstr_of_not_mem (nulFree_of_decodeUser decoded).2]
  have follows := hasValidAuth_follow db text (empty authB64)
  rw [if_pos valid] at follows
  obtain ⟨io, run, answered⟩ := Prog.runs_of_follow follows
  refine ⟨fun user' only => ?_, io, _, run, ?_⟩
  · rw [List.mem_singleton.mp only]
    exact nulFree_of_decodeUser decoded
  intro username r hmem
  have hr : r = db (dbUserGet username) := answered _ hmem
  have short : user.username.length ≤ 255 := by
    obtain ⟨d, -, hscan⟩ := (decodeUser_of_decoded text).mp decoded
    obtain ⟨-, -, -, ⟨-, hle, -⟩, -⟩ := scanCredentials_eq_some.mp hscan
    exact hle
  rw [hr]
  by_cases hname : user.username = username
  · rw [← hname]
    exact if_pos rfl
  · have hquery : dbUserGet username ≠ dbUserGet user.username := by
      intro same
      exact hname (dbUserGet_inj short same.symm)
    show (if _ then _ else _) = _
    rw [if_neg hquery]
    simp [lookup, hname]

/-- **Accepted credentials.** With an empty cache, a request is granted access only
for the exact `username:password` of a stored user, whatever the table, if and only
if its decoded text is canonical or has no user name and password in it. -/
theorem acceptsStoredOnly_iff (request : Bytes)
    (empty : ∀ key, (map.getD .create).get key = none) :
    AcceptsStoredOnly map request ↔
      ∀ d, decodedText request = some d → Splits d → Canonical d := by
  constructor
  · intro stored d hd splits
    obtain ⟨⟨username, password⟩, hscan⟩ := splits_iff.mp splits
    obtain ⟨authB64, text, -⟩ := Option.bind_eq_some_iff.mp hd
    have decoded : decodeUser authB64 = some ⟨username, password⟩ :=
      (decodeUser_of_decoded text).mpr ⟨d, hd, hscan⟩
    obtain ⟨readable, io, map', run, answered⟩ := accepted_of_user empty text decoded
    obtain ⟨d', hd', user, huser, whole⟩ := stored _ io map' readable run answered
    obtain rfl := List.mem_singleton.mp huser
    obtain rfl : d = d' := Option.some.inj (hd.symm.trans hd')
    exact canonical_of_scan hscan whole
  · intro canonical table io map' readable run answered
    cases hasValidAuth_runs run with
    | cached _ hit =>
        rw [empty] at hit
        cases hit
    | @confirmed authB64 before check _ now text first check' =>
        obtain ⟨user, name, pass, decoded, password, hmem⟩ := checkCredentials_runs check'
        obtain ⟨d, hd, hscan⟩ := (decodeUser_of_decoded text).mp decoded
        have hrow := answered user.username _
          (List.mem_append_left _ (List.mem_append_right _ hmem))
        refine ⟨d, hd, ?_⟩
        have hwhole := scan_of_canonical (canonical d hd (splits_iff.mpr ⟨_, hscan⟩)) hscan
        unfold lookup at hrow
        obtain ⟨row, hfound, hpair⟩ := Option.map_eq_some_iff.mp (DbResult.rows.inj hrow).symm
        have hname : row.username = user.username := by simpa using List.find?_some hfound
        have stored := List.mem_of_find?_eq_some hfound
        have hpass : row.password = pass := Option.some.inj (Prod.mk.inj hpair).2
        rw [← hpass, cstr_of_not_mem (readable row stored).2] at password
        exact ⟨row, stored, by rw [hwhole, hname, password]⟩

/-- The credentials `u:p`. -/
def plainAuth : Bytes := bytes "Proxy-Authorization: Basic dTpw\r\n\r\n"

theorem acceptsStoredOnly_iff_plain : AcceptsStoredOnly none plainAuth ↔
    ∀ d, decodedText plainAuth = some d → Splits d → Canonical d :=
  acceptsStoredOnly_iff plainAuth HashMap.get_create

/-- The credentials `u:p x` are accepted for user `u` with password `p`. -/
theorem acceptsStoredOnly_fails : ¬ ∀ request, AcceptsStoredOnly none request := by
  intro claim
  have decoded : decodedText (bytes "Proxy-Authorization: Basic dTpwIHg=\r\n\r\n") =
      some (bytes "u:p x") := by decide
  have text : extractBasicAuthB64 (bytes "Proxy-Authorization: Basic dTpwIHg=\r\n\r\n") =
      some (bytes "dTpwIHg=") := by decide
  have user : decodeUser (bytes "dTpwIHg=") = some ⟨bytes "u", bytes "p"⟩ := by decide
  have empty : ∀ key, ((none : Option (HashMap Int)).getD .create).get key = none :=
    HashMap.get_create
  obtain ⟨readable, io, map', run, answered⟩ := accepted_of_user empty text user
  obtain ⟨d, hd, row, hrow, whole⟩ := claim _ _ io map' readable run answered
  obtain rfl := List.mem_singleton.mp hrow
  rw [decoded] at hd
  obtain rfl := Option.some.inj hd
  exact absurd whole (by decide)

end SimpleProxy.Theorems.Credentials
