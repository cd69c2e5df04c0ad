import SimpleProxy.Logic.Headers

/-!
# What is read from a request

Both searches run over everything that was received. So what stands behind the header can
be read in place of a field, credentials can come from any line with the name of the field in
it, and the spelling of the names matters.
-/

namespace SimpleProxy.Theorems.Headers

open CString Http

/-! ## Behind the header -/

/-- A header, up to its end. -/
structure HeaderSection (h : Bytes) : Prop where
  nulFree : 0 ∉ h
  ends : strstr h crlfcrlf = some crlfcrlf

/-- What is received with a header changes neither the credentials nor the endpoint. -/
def Same (h payload : Bytes) : Prop :=
  extractBasicAuthB64 (h ++ payload) = extractBasicAuthB64 h ∧
    parseHostPort (h ++ payload) = parseHostPort h

/-- The credentials are looked for in the header, and not behind it. -/
def AuthSettled (h : Bytes) : Prop :=
  ∃ t, behind (proxyAuthorization ++ [58]) h = some t ∧ ∃ c ∈ t, isspace c = false

def HostSettled (h : Bytes) : Prop := bytes "\nHost:" <:+: h

/-- A payload without anything that is looked for. -/
structure AuthHarmless (payload : Bytes) : Prop where
  name : ¬ authorization ++ [58] <:+: payload
  scheme : ¬ bytes "Basic " <+: payload.dropWhile isspace

structure HostHarmless (payload : Bytes) : Prop where
  upper : ¬ bytes "\nHost:" <:+: 10 :: payload
  lower : ¬ bytes "\nhost:" <:+: 10 :: payload

section Payload

variable {h payload pat t : Bytes}

theorem HeaderSection.suffix (header : HeaderSection h) : crlfcrlf <:+ h :=
  strstr_suffix header.ends

/-- A search goes on behind the header where the header has nothing. -/
theorem HeaderSection.strstr (header : HeaderSection h) (clean : 13 ∉ pat) (long : 2 ≤ pat.length) :
    CString.strstr (h ++ payload) pat =
      ((CString.strstr h pat).map (· ++ payload)).or (CString.strstr (10 :: payload) pat) := by
  obtain ⟨front, rfl⟩ := header.suffix
  have nonempty : pat ≠ [] := by
    rintro rfl
    cases long
  have shape : ∀ rest, front ++ crlfcrlf ++ rest = (front ++ [13, 10]) ++ 13 :: 10 :: rest := by
    intro rest
    simp [crlfcrlf]
  have last : CString.strstr [10] pat = none := by
    cases found : CString.strstr [10] pat with
    | none => rfl
    | some t =>
        have := (strstr_starts found).length_le.trans (strstr_suffix found).length_le
        rw [List.length_singleton] at this
        omega
  have whole := shape []
  rw [List.append_nil] at whole
  have inHeader := strstr_separated clean nonempty (front ++ [13, 10]) [10]
  rw [← whole, last, Option.or_none] at inHeader
  rw [shape, strstr_separated clean nonempty, inHeader]
  cases CString.strstr (front ++ [13, 10]) pat with
  | none => rfl
  | some found => simp

/-- What stands behind a colon of the header reaches to its end. -/
theorem HeaderSection.behind (header : HeaderSection h) {name : Bytes}
    (found : CString.strstr h (name ++ [58]) = some t) :
    ∃ rest, t = name ++ 58 :: rest ∧ crlfcrlf <:+ rest := by
  obtain ⟨rest, rfl⟩ := strstr_starts found
  refine ⟨rest, by simp, ?_⟩
  have colon : 58 :: rest <:+ name ++ [58] ++ rest := ⟨name, by simp⟩
  have suffix := colon.trans (strstr_suffix found)
  rcases List.suffix_or_suffix_of_suffix suffix header.suffix with inEnd | outside
  · exact absurd (inEnd.subset List.mem_cons_self) (by decide)
  · rcases List.suffix_cons_iff.mp outside with whole | behind
    · exact absurd whole (by simp [crlfcrlf])
    · exact behind

/-- A header end behind something that is no white space is still behind it when the white
space in front is skipped. -/
theorem dropWhile_ends (ends : crlfcrlf <:+ t) (content : ∃ c ∈ t, isspace c = false) :
    ∃ w, t.dropWhile isspace = w ++ crlfcrlf := by
  have some : t.dropWhile isspace ≠ [] := by
    obtain ⟨c, member, hc⟩ := content
    intro nothing
    rw [List.dropWhile_eq_nil_iff.mp nothing c member] at hc
    cases hc
  rcases List.suffix_or_suffix_of_suffix (List.dropWhile_suffix isspace) ends with inEnd | ⟨w, hw⟩
  · have first := List.head_dropWhile_not isspace some
    have member := inEnd.subset (List.head_mem some)
    have blank := List.all_eq_true.mp (show crlfcrlf.all isspace = true by decide) _ member
    rw [first] at blank
    cases blank
  · exact ⟨w, hw.symm⟩

theorem toLineEnd_append {s r : Bytes} (found : CString.strstr s crlf = some r) (more : Bytes) :
    toLineEnd (s ++ more) = toLineEnd s := by
  have same : (s ++ more).length - (r ++ more).length = s.length - r.length := by
    simp only [List.length_append]
    omega
  rw [toLineEnd, toLineEnd, strstr_append more found, found]
  simp only [Option.some_or, Option.getD_some]
  rw [same, List.take_append_of_le_length (Nat.sub_le _ _)]

/-- Credentials that are looked for in the header are found in the header. -/
theorem credentials_append (ends : crlfcrlf <:+ t) (content : ∃ c ∈ t, isspace c = false) :
    (basicStart (t ++ payload)).map toLineEnd = (basicStart t).map toLineEnd := by
  obtain ⟨w, hw⟩ := dropWhile_ends ends content
  have dropped : (t ++ payload).dropWhile isspace = w ++ 13 :: (10 :: 13 :: 10 :: payload) := by
    rw [List.dropWhile_append, if_neg (by simp [hw, crlfcrlf]), hw]
    simp [crlfcrlf]
  have inside : ∀ rest, bytes "Basic " <+: w ++ 13 :: rest ↔ bytes "Basic " <+: w :=
    prefix_separated (by decide) w
  rw [basicStart, basicStart, dropped, hw]
  by_cases scheme : bytes "Basic " <+: w
  · have long : 6 ≤ w.length := scheme.length_le
    obtain ⟨r, found⟩ : ∃ r, CString.strstr (w.drop 6 ++ crlfcrlf) crlf = some r :=
      Option.isSome_iff_exists.mp (strstr_isSome.mpr ⟨w.drop 6, crlf, by simp [crlf, crlfcrlf]⟩)
    have shape : w ++ 13 :: (10 :: 13 :: 10 :: payload) = w ++ crlfcrlf ++ payload := by
      simp [crlfcrlf]
    rw [if_pos ((inside _).mpr scheme), if_pos (scheme.trans (List.prefix_append _ _)), shape,
      List.append_assoc, List.drop_append_of_le_length long, List.drop_append_of_le_length long,
      ← List.append_assoc]
    exact congrArg some (toLineEnd_append found payload)
  · have absent : ¬ bytes "Basic " <+: w ++ crlfcrlf := (inside [10, 13, 10]).not.mpr scheme
    rw [if_neg ((inside _).not.mpr scheme), if_neg absent]

/-- Behind nothing but white space the credentials are looked for in the payload. -/
theorem credentials_blank (blank : ∀ c ∈ t, isspace c = true) :
    basicStart (t ++ payload) = basicStart payload ∧ basicStart t = none := by
  constructor
  · rw [basicStart, basicStart, List.dropWhile_append_of_pos blank]
  · rw [basicStart, List.dropWhile_eq_nil_iff.mpr blank]
    rfl

/-! ### The credentials -/

/-- The search for a name goes on in the payload. -/
theorem HeaderSection.behind_append (header : HeaderSection h) {name : Bytes}
    (token : isToken name = true) :
    SimpleProxy.behind (name ++ [58]) (h ++ payload) =
      ((SimpleProxy.behind (name ++ [58]) h).map (· ++ payload)).or
        (SimpleProxy.behind (name ++ [58]) payload) := by
  have pattern := pattern_name token
  have long : 2 ≤ (name ++ [58]).length := by
    have := List.length_pos_iff.mpr (token_ne_nil token)
    rw [List.length_append, List.length_singleton]
    omega
  have skipped : CString.strstr (10 :: payload) (name ++ [58]) =
      CString.strstr payload (name ++ [58]) := by
    have separated := strstr_separated pattern.newline pattern.some [] payload
    rwa [CString.strstr, if_neg pattern.some, List.nil_append, Option.map_none,
      Option.none_or] at separated
  rw [SimpleProxy.behind, header.strstr pattern.return' long, skipped, Option.map_or,
    SimpleProxy.behind, SimpleProxy.behind]
  cases found : CString.strstr h (name ++ [58]) with
  | none => rfl
  | some t =>
      have long := (strstr_starts found).length_le
      simp only [Option.map_some, Option.some_or]
      rw [List.drop_append_of_le_length long]

theorem token_names : isToken proxyAuthorization = true ∧ isToken authorization = true := by
  decide

/-- What stands behind a name in the header reaches to its end. -/
theorem HeaderSection.ends_of_behind (header : HeaderSection h) {name : Bytes}
    (found : SimpleProxy.behind (name ++ [58]) h = some t) : crlfcrlf <:+ t := by
  obtain ⟨t', found', rfl⟩ := Option.map_eq_some_iff.mp found
  obtain ⟨rest, rfl, ends⟩ := header.behind found'
  simpa using ends

/-- The credentials do not depend on the payload when the header settles them, or the payload
has nothing that is looked for. -/
theorem credentials_same (header : HeaderSection h)
    (apart : AuthSettled h ∨ AuthHarmless payload) :
    extractBasicAuthB64 (h ++ payload) = extractBasicAuthB64 h := by
  have split : ∀ t, crlfcrlf <:+ t → (∃ c ∈ t, isspace c = false) ∨ AuthHarmless payload →
      (basicStart (t ++ payload)).map toLineEnd = (basicStart t).map toLineEnd := by
    intro t ends either
    by_cases content : ∃ c ∈ t, isspace c = false
    · exact credentials_append ends content
    · have harmless := either.resolve_left content
      have blank : ∀ c ∈ t, isspace c = true := by simpa using content
      obtain ⟨later, nothing⟩ : basicStart (t ++ payload) = basicStart payload ∧
          basicStart t = none := credentials_blank blank
      rw [later, nothing, basicStart, if_neg harmless.scheme]
  rw [extractBasicAuthB64_eq, extractBasicAuthB64_eq, b64Start, b64Start, authHeader, authHeader,
    header.behind_append token_names.1, header.behind_append token_names.2]
  cases first : SimpleProxy.behind (proxyAuthorization ++ [58]) h with
  | some t =>
      refine split t (header.ends_of_behind first) (apart.imp_left ?_)
      rintro ⟨t', found, content⟩
      rw [first] at found
      exact Option.some.inj found ▸ content
  | none =>
      have harmless : AuthHarmless payload := by
        refine apart.resolve_left ?_
        rintro ⟨t, found, -⟩
        rw [first] at found
        cases found
      have absent : ∀ {name}, authorization ++ [58] <:+: name ++ [58] →
          SimpleProxy.behind (name ++ [58]) payload = none := by
        intro name sub
        cases found : SimpleProxy.behind (name ++ [58]) payload with
        | none => rfl
        | some t =>
            obtain ⟨t', found', -⟩ := Option.map_eq_some_iff.mp found
            exact absurd (sub.trans (strstr_isSome.mp (by rw [found']; rfl))) harmless.name
      rw [absent ⟨bytes "Proxy-", [], by decide⟩, absent List.infix_rfl]
      cases second : SimpleProxy.behind (authorization ++ [58]) h with
      | none => rfl
      | some t => exact split t (header.ends_of_behind second) (.inr harmless)

/-! ### The endpoint -/

theorem hostText_append {s r : Bytes} (found : strchr s 13 = some r) (more : Bytes) :
    hostText (s ++ more) = hostText s := by
  have same : (s ++ more).length - (r ++ more).length = s.length - r.length := by
    simp only [List.length_append]
    omega
  have front : strchr (s ++ more) 13 = some (r ++ more) := by
    rw [strchr_append, found]
    rfl
  rw [hostText, hostText, front, found, Option.some_or, Option.some_or, Option.getD_some,
    Option.getD_some, same, List.take_append_of_le_length]
  split <;> omega

theorem hostPort_append (ends : crlfcrlf <:+ t) : hostPort (t ++ payload) = hostPort t := by
  obtain ⟨w, rfl⟩ := ends
  have shape : ∀ rest, w ++ crlfcrlf ++ rest = w ++ 13 :: (10 :: 13 :: 10 :: rest) := by
    intro rest
    simp [crlfcrlf]
  have stop : ∀ rest, (w ++ crlfcrlf ++ rest).dropWhile (fun c => c = 32 || c = 9) =
      w.dropWhile (fun c => c = 32 || c = 9) ++ crlfcrlf ++ rest := by
    intro rest
    rw [shape, dropWhile_append_stop (by decide)]
    simp [crlfcrlf]
  obtain ⟨r, found⟩ : ∃ r, strchr (w.dropWhile (fun c => c = 32 || c = 9) ++ crlfcrlf) 13 =
      some r := by
    rw [strchr_append]
    cases strchr (w.dropWhile fun c => c = 32 || c = 9) 13 with
    | none => exact ⟨crlfcrlf, rfl⟩
    | some r => exact ⟨_, rfl⟩
  have here := stop []
  rw [List.append_nil, List.append_nil] at here
  rw [hostPort, hostPort, stop, here, hostText_append found]

theorem HeaderSection.anchored_append (header : HeaderSection h) {name : Bytes}
    (token : isToken name = true) :
    anchored name (h ++ payload) =
      ((anchored name h).map (· ++ payload)).or (anchored name (10 :: payload)) := by
  have clean : 13 ∉ 10 :: (name ++ [58]) := by
    simpa using not_mem_token token (by decide)
  rw [anchored, header.strstr clean (by simp), Option.map_or, anchored, anchored]
  cases found : CString.strstr h (10 :: (name ++ [58])) with
  | none => rfl
  | some t =>
      have long := (strstr_starts found).length_le
      rw [List.length_cons, List.length_append, List.length_singleton] at long
      simp only [Option.map_some, Option.some_or]
      rw [List.drop_append_of_le_length long]

theorem HeaderSection.ends_of_anchored (header : HeaderSection h) {name : Bytes}
    (found : anchored name h = some t) : crlfcrlf <:+ t := by
  obtain ⟨t', found', rfl⟩ := Option.map_eq_some_iff.mp found
  rw [← List.cons_append] at found'
  obtain ⟨rest, rfl, ends⟩ := header.behind found'
  simpa using ends

theorem endpoint_same (header : HeaderSection h) (apart : HostSettled h ∨ HostHarmless payload) :
    parseHostPort (h ++ payload) = parseHostPort h := by
  have upper : bytes "\nHost:" = 10 :: (bytes "Host" ++ [58]) := rfl
  have lower : bytes "\nhost:" = 10 :: (bytes "host" ++ [58]) := rfl
  rw [parseHostPort_eq_hostHeader, parseHostPort_eq_hostHeader, hostHeader, hostHeader,
    header.anchored_append (by decide), header.anchored_append (by decide)]
  cases first : anchored (bytes "Host") h with
  | some t =>
      simp only [Option.map_some, Option.some_or]
      rw [hostPort_append (header.ends_of_anchored first)]
  | none =>
      have harmless : HostHarmless payload := by
        refine apart.resolve_left fun settled => ?_
        have found := strstr_isSome.mpr settled
        rw [upper, ← Option.isSome_map, ← anchored, first] at found
        cases found
      have absent : ∀ {name}, ¬ 10 :: (name ++ [58]) <:+: 10 :: payload →
          anchored name (10 :: payload) = none := by
        intro name none
        cases found : CString.strstr (10 :: payload) (10 :: (name ++ [58])) with
        | none =>
            rw [anchored, found]
            rfl
        | some t => exact absurd (strstr_isSome.mp (by rw [found]; rfl)) none
      rw [absent (upper ▸ harmless.upper), absent (lower ▸ harmless.lower)]
      cases second : anchored (bytes "host") h with
      | none => rfl
      | some t =>
          simp only [Option.map_none, Option.map_some, Option.none_or, Option.or_none]
          rw [hostPort_append (header.ends_of_anchored second)]

/-! ### What the payload can override -/

/-- Without a settled name some payload changes the credentials. -/
theorem exists_override_credentials (header : HeaderSection h) (unsettled : ¬ AuthSettled h) :
    ∃ payload, 0 ∉ payload ∧ extractBasicAuthB64 (h ++ payload) ≠ extractBasicAuthB64 h := by
  cases first : SimpleProxy.behind (proxyAuthorization ++ [58]) h with
  | some t =>
      -- the white space goes on to the payload
      have blank : ∀ c ∈ t, isspace c = true := by
        intro c hc
        cases h : isspace c with
        | true => rfl
        | false => exact absurd ⟨t, first, c, hc, h⟩ unsettled
      obtain ⟨later, nothing⟩ : basicStart (t ++ bytes "Basic x") = basicStart (bytes "Basic x") ∧
          basicStart t = none := credentials_blank blank
      refine ⟨bytes "Basic x", by decide, ?_⟩
      rw [extractBasicAuthB64_eq, extractBasicAuthB64_eq, b64Start, b64Start, authHeader, authHeader,
        header.behind_append token_names.1, first]
      simp only [Option.map_some, Option.some_or, Option.bind_some]
      rw [later, nothing]
      decide
  | none =>
      have taken : ∀ {payload t}, SimpleProxy.behind (proxyAuthorization ++ [58]) payload = some t →
          extractBasicAuthB64 (h ++ payload) = (basicStart t).map toLineEnd := by
        intro payload t found
        rw [extractBasicAuthB64_eq, b64Start, authHeader, header.behind_append token_names.1, first,
          found]
        rfl
      have x := taken (show SimpleProxy.behind _ (bytes "Proxy-Authorization:Basic x") =
        some (bytes "Basic x") by decide)
      have y := taken (show SimpleProxy.behind _ (bytes "Proxy-Authorization:Basic y") =
        some (bytes "Basic y") by decide)
      by_cases same : extractBasicAuthB64 h = some (bytes "x")
      · refine ⟨bytes "Proxy-Authorization:Basic y", by decide, ?_⟩
        rw [y, same]
        decide
      · refine ⟨bytes "Proxy-Authorization:Basic x", by decide, ?_⟩
        rw [x]
        exact fun taken => same taken.symm

theorem exists_override_endpoint (header : HeaderSection h) (unsettled : ¬ HostSettled h) :
    ∃ payload, 0 ∉ payload ∧ parseHostPort (h ++ payload) ≠ parseHostPort h := by
  have absent : anchored (bytes "Host") h = none := by
    cases found : CString.strstr h (bytes "\nHost:") with
    | none => exact congrArg _ found
    | some t => exact absurd (strstr_isSome.mp (by rw [found]; rfl)) unsettled
  have taken : ∀ {payload t}, anchored (bytes "Host") (10 :: payload) = some t →
      parseHostPort (h ++ payload) = some (splitPort (hostPort t)) := by
    intro payload t found
    rw [parseHostPort_eq_hostHeader, hostHeader, header.anchored_append (by decide), absent, found]
    rfl
  have x := taken (show anchored _ (10 :: bytes "Host:x") = some (bytes "x") by decide)
  have y := taken (show anchored _ (10 :: bytes "Host:y") = some (bytes "y") by decide)
  by_cases same : parseHostPort h = some (bytes "x", 80)
  · refine ⟨bytes "Host:y", by decide, ?_⟩
    rw [y, same]
    decide
  · refine ⟨bytes "Host:x", by decide, ?_⟩
    rw [x]
    exact fun taken => same (taken.symm.trans (by decide))

/-- **The payload** never matters behind a header that has `Proxy-Authorization:` with something
behind it, and a line that starts with `Host:`; behind any other header some payload does.
A payload without anything that is looked for matters behind no header. -/
theorem payload_ignored_iff (header : HeaderSection h) :
    ((∀ payload, 0 ∉ payload → Same h payload) ↔ AuthSettled h ∧ HostSettled h) ∧
    ∀ payload, (AuthSettled h ∨ AuthHarmless payload) → (HostSettled h ∨ HostHarmless payload) →
      Same h payload := by
  refine ⟨⟨fun same => ⟨?_, ?_⟩, ?_⟩, ?_⟩
  · by_contra unsettled
    obtain ⟨payload, nulFree, other⟩ := exists_override_credentials header unsettled
    exact other (same payload nulFree).1
  · by_contra unsettled
    obtain ⟨payload, nulFree, other⟩ := exists_override_endpoint header unsettled
    exact other (same payload nulFree).2
  · rintro ⟨auth, host⟩ payload -
    exact ⟨credentials_same header (.inl auth), endpoint_same header (.inl host)⟩
  · intro payload auth host
    exact ⟨credentials_same header auth, endpoint_same header host⟩

end Payload

/-- Credentials for the proxy and a host, in their own fields. -/
def settledHeader : Bytes :=
  bytes "GET / HTTP/1.1\r\nProxy-Authorization: Basic x\r\nHost: h\r\n\r\n"

theorem payload_ignored_sample : Same settledHeader (bytes "Proxy-Authorization: Basic y") := by
  have header : HeaderSection settledHeader := ⟨by decide, by decide⟩
  have auth : AuthSettled settledHeader :=
    ⟨bytes " Basic x\r\nHost: h\r\n\r\n", by decide, 66, by decide, by decide⟩
  have host : HostSettled settledHeader := strstr_isSome.mp (by decide)
  exact (payload_ignored_iff header).1.mpr ⟨auth, host⟩ _ (by decide)

/-- The credentials are for the server, and the payload has others for the proxy. -/
def unsettledHeader : Bytes :=
  bytes "POST / HTTP/1.1\r\nHost: h\r\nAuthorization: Basic x\r\n\r\n"

theorem payload_ignored_fails :
    ¬ ∀ h payload, HeaderSection h → 0 ∉ payload → Same h payload := by
  intro claim
  have same := claim unsettledHeader (bytes "Proxy-Authorization: Basic y") ⟨by decide, by decide⟩
    (by decide)
  exact absurd same.1 (by decide)

/-! ## Where credentials are taken from -/

/-- The field the credentials belong in. -/
def credentialsName (h : Header) : Bytes :=
  if h.fields.any fun f => f.name = proxyAuthorization then proxyAuthorization else authorization

/-- The credentials that are taken are what follows `Basic ` in the value of a field of that
name: the text that is copied starts there. -/
def FromField (h : Header) : Prop :=
  ∀ s, extractBasicAuthB64 h.render = some s → ∃ front f back, h.fields = front ++ f :: back ∧
    f.name = credentialsName h ∧ f.body.dropWhile isspace = bytes "Basic " ++ s ∧
    b64Start h.render = some (s ++ crlf ++ (joinLines (back.map Field.line) ++ crlf))

/-- The first line with the name that is looked for, the text behind the name, and the lines
around. -/
structure FoundIn (h : Header) (front : List Bytes) (line t : Bytes) (back : List Bytes) : Prop where
  lines : h.lines = front ++ line :: back
  first : ∀ l ∈ front, strstr l (sought h ++ [58]) = none
  found : strstr line (sought h ++ [58]) = some (sought h ++ 58 :: t)

/-- The first line with the name that is looked for is not a field of that name, and has
`Basic ` behind it. -/
def Misled (h : Header) : Prop :=
  ∃ front line t back, FoundIn h front line t back ∧ bytes "Basic " <+: t.dropWhile isspace ∧
    (front = [] ∨ ¬ sought h ++ [58] <+: line)

section Provenance

variable {h : Header} {front back : List Bytes} {line t s : Bytes}

/-- What is taken is decided by that line. -/
theorem FoundIn.taken (here : FoundIn h front line t back) :
    extractBasicAuthB64 h.render = basicStart t ∧
      b64Start h.render = (basicStart t).map (· ++ crlf ++ (joinLines back ++ crlf)) := by
  have located : locate (sought h ++ [58]) h.lines = some (sought h ++ 58 :: t, back) :=
    locate_eq_some.mpr ⟨front, line, here.lines, here.first, here.found⟩
  have rest : (sought h ++ 58 :: t).drop (sought h ++ [58]).length = t := by simp
  constructor
  · rw [extract_render, located, Option.bind_some, rest]
  · rw [b64Start_render, located, Option.bind_some, rest]

theorem exists_foundIn (taken : extractBasicAuthB64 h.render = some s) :
    ∃ front line t back, FoundIn h front line t back := by
  rw [extract_render] at taken
  obtain ⟨⟨found, back⟩, located, -⟩ := Option.bind_eq_some_iff.mp taken
  obtain ⟨front, line, lines, first, found⟩ := locate_eq_some.mp located
  obtain ⟨t, rfl⟩ := strstr_starts found
  exact ⟨front, line, t, back, lines, first, by rw [found]; simp⟩

theorem colon_not_mem_sought (h : Header) : 58 ∉ sought h := by
  rcases sought_cases h with name | name <;> rw [name] <;> decide

/-- A field of the name that is looked for comes first in its line. -/
theorem field_of_start {lines : List Bytes}
    (split : h.lines = (h.requestLine :: lines) ++ line :: back)
    (start : sought h ++ [58] <+: line) :
    ∃ front f fields, h.fields = front ++ f :: fields ∧ f.name = sought h ∧ line = f.line ∧
      back = fields.map Field.line := by
  obtain ⟨front, rest, hfields, -, hrest⟩ := List.map_eq_append_iff.mp (List.cons.inj split).2
  obtain ⟨f, fields, rfl, rfl, rfl⟩ := List.map_eq_cons_iff.mp hrest
  have named := named_iff f (colon_not_mem_sought h) []
  rw [List.append_nil] at named
  exact ⟨front, f, fields, hfields, named.mp start, rfl, rfl⟩

/-- Where a field has the name for the proxy, that name is looked for. -/
theorem sought_of_field {f : Field} (member : f ∈ h.fields) (name : f.name = proxyAuthorization) :
    sought h = proxyAuthorization := by
  have found : (locate (proxyAuthorization ++ [58]) h.lines).isSome = true := by
    cases located : locate (proxyAuthorization ++ [58]) h.lines with
    | some hit => rfl
    | none =>
        have absent := locate_eq_none.mp located f.line
          (List.mem_cons_of_mem _ (List.mem_map_of_mem member))
        rw [strstr_field f (by decide), if_pos (name ▸ List.suffix_rfl)] at absent
        cases absent
  rw [sought, if_pos found]

theorem credentialsName_of_sought {f : Field} (member : f ∈ h.fields) (name : f.name = sought h) :
    credentialsName h = sought h := by
  by_cases proxy : ∃ f ∈ h.fields, f.name = proxyAuthorization
  · obtain ⟨g, hg, gname⟩ := proxy
    have yes : (h.fields.any fun f => decide (f.name = proxyAuthorization)) = true :=
      List.any_eq_true.mpr ⟨g, hg, decide_eq_true gname⟩
    rw [credentialsName, if_pos yes, sought_of_field hg gname]
  · have no : ¬ (h.fields.any fun f => decide (f.name = proxyAuthorization)) = true := by
      rw [List.any_eq_true]
      rintro ⟨g, hg, gname⟩
      exact proxy ⟨g, hg, of_decide_eq_true gname⟩
    rw [credentialsName, if_neg no]
    rcases sought_cases h with first | second
    · exact absurd ⟨f, member, name.trans first⟩ proxy
    · exact second.symm

/-- Credentials that are not misled are in a field of the right name. -/
theorem fromField_of_not_misled (straight : ¬ Misled h) : FromField h := by
  intro s taken
  obtain ⟨front, line, t, back, here⟩ := exists_foundIn taken
  have start : basicStart t = some s := here.taken.1 ▸ taken
  have scheme : bytes "Basic " <+: t.dropWhile isspace := basicStart_isSome.mp (by rw [start]; rfl)
  have place : front ≠ [] ∧ sought h ++ [58] <+: line := by
    by_contra elsewhere
    rw [not_and_or, not_not] at elsewhere
    exact straight ⟨front, line, t, back, here, scheme, elsewhere⟩
  obtain ⟨l, lines, rfl⟩ := List.exists_cons_of_ne_nil place.1
  obtain rfl : l = h.requestLine := (List.cons.inj here.lines).1.symm
  obtain ⟨front, f, fields, hfields, name, rfl, rfl⟩ := field_of_start here.lines place.2
  have body : t = f.body := by
    have found := here.found
    rw [strstr_field f (colon_not_mem_sought h), if_pos (name ▸ List.suffix_rfl)] at found
    simpa using (Option.some.inj found).symm
  subst body
  refine ⟨front, f, fields, hfields, ?_, basicStart_eq_some.mp start, ?_⟩
  · rw [credentialsName_of_sought (by rw [hfields]; simp) name, name]
  · rw [here.taken.2, start]
    rfl

/-- A field the credentials belong in, with the name that is looked for not at its start: the
credentials behind that name are not what its value starts with. -/
theorem misplaced {f : Field} (found : strstr f.line (sought h ++ [58]) =
      some (sought h ++ 58 :: t)) (member : f ∈ h.fields) (name : f.name = credentialsName h)
    (other : ¬ sought h ++ [58] <+: f.line) (start : basicStart t = some s) :
    f.body.dropWhile isspace ≠ bytes "Basic " ++ s := by
  intro value
  have named := named_iff f (colon_not_mem_sought h) []
  rw [List.append_nil] at named
  have differs : f.name ≠ sought h := named.not.mp other
  have inBody : ¬ sought h <:+ f.name := by
    intro suffix
    rcases sought_cases h with first | second
    · -- the longer name is no suffix of a name the credentials belong in
      rw [first] at suffix differs
      rw [name, credentialsName] at suffix differs
      split at suffix
      · rename_i proxy
        rw [if_pos proxy] at differs
        exact differs rfl
      · exact absurd suffix (by decide)
    · rw [credentialsName] at name
      split at name
      · rw [sought_of_field member name] at second
        exact absurd second (by decide)
      · exact differs (name.trans second.symm)
  rw [strstr_field f (colon_not_mem_sought h), if_neg inBody] at found
  -- the value is longer than what stands behind the name in it
  obtain ⟨c, more, hname⟩ := List.exists_cons_of_ne_nil (show sought h ≠ [] by
    rcases sought_cases h with name | name <;> rw [name] <;> decide)
  have first : isspace c = false := by
    rcases sought_cases h with name | name <;> rw [name] at hname <;> cases hname <;> decide
  obtain ⟨before, hbody⟩ := strstr_suffix found
  rw [← hbody, hname, List.cons_append, dropWhile_append_stop first] at value
  have short := (basicStart_suffix start).2
  have lengths := congrArg List.length value
  simp only [List.length_append, List.length_cons] at lengths
  have six : (bytes "Basic ").length = 6 := rfl
  omega

theorem not_misled_of_fromField (fromField : FromField h) : ¬ Misled h := by
  rintro ⟨front, line, t, back, here, scheme, elsewhere⟩
  obtain ⟨s, start⟩ := Option.isSome_iff_exists.mp (basicStart_isSome.mpr scheme)
  obtain ⟨front', f, back', hfields, name, value, place⟩ := fromField s (here.taken.1.trans start)
  rw [here.taken.2, start] at place
  have rest := List.append_cancel_right (List.append_cancel_left (Option.some.inj place))
  have lines : h.lines = (h.requestLine :: front'.map Field.line) ++
      f.line :: back'.map Field.line := by
    rw [Header.lines, hfields]
    simp
  have inLines : back <:+ h.lines := ⟨front ++ [line], by rw [here.lines]; simp⟩
  have inLines' : back'.map Field.line <:+ h.lines :=
    ⟨h.requestLine :: front'.map Field.line ++ [f.line], by rw [lines]; simp⟩
  obtain rfl := joinLines_suffix_inj inLines inLines' rest
  obtain ⟨rfl, same⟩ := List.append_inj' (here.lines.symm.trans lines) rfl
  obtain rfl := (List.cons.inj same).1
  have other := elsewhere.resolve_left (List.cons_ne_nil _ _)
  exact misplaced here.found (by rw [hfields]; simp) name other start value

/-- **Where credentials are taken from.** -/
theorem fromField_iff (h : Header) : FromField h ↔ ¬ Misled h :=
  ⟨not_misled_of_fromField, fromField_of_not_misled⟩

end Provenance

/-- The name of the field in a longer one. -/
def longerName : Header where
  requestLine := bytes "GET / HTTP/1.1"
  fields := [⟨bytes "X-Proxy-Authorization", bytes " Basic x", by decide, by decide⟩]
  text := by decide

theorem from_field_fails : ¬ ∀ h, FromField h := by
  intro claim
  obtain ⟨front, f, back, hfields, name, -⟩ := claim longerName (bytes "x") (by decide)
  have member : f ∈ longerName.fields := by
    rw [hfields]
    simp
  rw [List.mem_singleton.mp member] at name
  exact absurd name (by decide)

end SimpleProxy.Theorems.Headers
