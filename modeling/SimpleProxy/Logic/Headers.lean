import SimpleProxy.Lib.Http
import SimpleProxy.Logic.Endpoint
import SimpleProxy.Main.Auth

/-!
# The two searches in a request

`extract_basic_auth_b64` and `parse_host_port` on a rendered header. The first looks for
the name of its field anywhere, and takes what stands behind it up to the end of that
line; the second looks for its name behind a newline, so that in a header it finds the first
field of that name and nothing else.
-/

namespace SimpleProxy

open CString Http

/-! ## The credentials -/

def proxyAuthorization : Bytes := bytes "Proxy-Authorization"

def authorization : Bytes := bytes "Authorization"

/-- What stands behind the first `pat`. -/
def behind (pat s : Bytes) : Option Bytes := (strstr s pat).map (·.drop pat.length)

/-- `auth_header`, in front of the white space. -/
def authHeader (request : Bytes) : Option Bytes :=
  (behind (proxyAuthorization ++ [58]) request).or (behind (authorization ++ [58]) request)

/-- `b64_start`, if the scheme is the right one. -/
def basicStart (authHeader : Bytes) : Option Bytes :=
  if bytes "Basic " <+: authHeader.dropWhile isspace then
    some ((authHeader.dropWhile isspace).drop 6)
  else
    none

/-- Where the text that is copied starts in the request. -/
def b64Start (request : Bytes) : Option Bytes := (authHeader request).bind basicStart

/-- The text up to the end of the line. -/
def toLineEnd (b64Start : Bytes) : Bytes :=
  b64Start.take (b64Start.length - (((strstr b64Start crlf).or (strchr b64Start 10)).getD []).length)

theorem extractBasicAuthB64_eq (request : Bytes) :
    extractBasicAuthB64 request = (b64Start request).map toLineEnd := by
  have upper : bytes "Proxy-Authorization:" = proxyAuthorization ++ [58] := rfl
  have lower : bytes "Authorization:" = authorization ++ [58] := rfl
  have lineEnd : bytes "\r\n" = crlf := rfl
  rw [extractBasicAuthB64, upper, lower, lineEnd, b64Start, authHeader, behind, behind]
  have copy : ∀ t : Bytes, (if (bytes "Basic ").isPrefixOf (t.dropWhile isspace) = true then
      some (((t.dropWhile isspace).drop 6).take (((t.dropWhile isspace).drop 6).length -
        (((strstr ((t.dropWhile isspace).drop 6) crlf).orElse fun _ =>
          strchr ((t.dropWhile isspace).drop 6) 10).getD []).length))
      else none) = (basicStart t).map toLineEnd := by
    intro t
    rw [basicStart]
    simp only [List.isPrefixOf_iff_prefix]
    split
    · rw [Option.orElse_eq_or]
      rfl
    · rfl
  cases strstr request (proxyAuthorization ++ [58]) with
  | some t => exact copy _
  | none =>
      cases strstr request (authorization ++ [58]) with
      | some t => exact copy _
      | none => rfl

/-! ## Credentials in a line -/

theorem basicStart_eq_some {t s : Bytes} :
    basicStart t = some s ↔ t.dropWhile isspace = bytes "Basic " ++ s := by
  rw [basicStart]
  constructor
  · intro h
    split at h
    · rename_i scheme
      obtain ⟨rest, hrest⟩ := scheme
      rw [← hrest] at h ⊢
      rw [← Option.some.inj h]
      rfl
    · cases h
  · intro h
    rw [h, if_pos (List.prefix_append _ _)]
    rfl

theorem basicStart_isSome {t : Bytes} :
    (basicStart t).isSome = true ↔ bytes "Basic " <+: t.dropWhile isspace := by
  rw [basicStart]
  split <;> simp [*]

/-- The text that is copied lies in what stands behind the name. -/
theorem basicStart_suffix {t s : Bytes} (h : basicStart t = some s) :
    s <:+ t ∧ s.length + 6 ≤ t.length := by
  rw [basicStart_eq_some] at h
  have whole : bytes "Basic " ++ s <:+ t := h ▸ List.dropWhile_suffix _
  have long := whole.length_le
  rw [List.length_append] at long
  exact ⟨(List.suffix_append _ _).trans whole, by rw [Nat.add_comm]; exact long⟩

/-- The scheme is not looked for in a field: its name has no blank in it. -/
theorem basicStart_field (f : Field) (rest : Bytes) : basicStart (f.line ++ rest) = none := by
  obtain ⟨c, name, hname⟩ := List.exists_cons_of_ne_nil (token_ne_nil f.token)
  have first : isspace c = false := by
    have hc : ∀ c, isspace c = true → tchar c = false := by
      intro c hc
      simp only [isspace, Bool.or_eq_true, Bool.and_eq_true, decide_eq_true_eq] at hc
      have low : (33 ≤ c : Bool) = false := by
        simp only [decide_eq_false_iff_not, UInt8.not_le]
        rcases hc with ⟨-, hc⟩ | rfl
        · exact Nat.lt_of_le_of_lt hc (by decide)
        · decide
      rw [tchar, low]
      rfl
    cases h : isspace c with
    | false => rfl
    | true => exact absurd (hname ▸ List.mem_cons_self) (not_mem_token f.token (hc c h))
  have start : (f.line ++ rest).dropWhile isspace = f.name ++ 58 :: (f.body ++ rest) := by
    rw [Field.line, List.append_assoc, List.cons_append, hname, List.cons_append,
      List.dropWhile_cons_of_neg (by simp [first])]
  rw [basicStart, start, if_neg]
  rw [prefix_separated (by decide)]
  intro scheme
  exact not_mem_token f.token (c := 32) (by decide) (scheme.subset (by decide))

/-- In front of a line end the scheme is looked for in the line, and in what follows when
there is nothing but white space in it. -/
theorem basicStart_line {u rest : Bytes} (quiet : basicStart rest = none) :
    basicStart (u ++ crlf ++ rest) = (basicStart u).map (· ++ crlf ++ rest) := by
  by_cases nothing : u.dropWhile isspace = []
  · have blank : ∀ c ∈ u ++ crlf, isspace c = true := by
      intro c hc
      rcases List.mem_append.mp hc with inLine | inEnd
      · exact List.dropWhile_eq_nil_iff.mp nothing c inLine
      · exact List.all_eq_true.mp (show crlf.all isspace = true by decide) c inEnd
    have dropped : (u ++ crlf ++ rest).dropWhile isspace = rest.dropWhile isspace :=
      List.dropWhile_append_of_pos blank
    have absent : basicStart u = none := by
      rw [basicStart, nothing]
      rfl
    rw [absent, Option.map_none, ← quiet, basicStart, basicStart, dropped]
  · have dropped : (u ++ crlf ++ rest).dropWhile isspace =
        u.dropWhile isspace ++ 13 :: 10 :: rest := by
      rw [List.append_assoc, List.dropWhile_append, if_neg (by simpa using nothing)]
      rfl
    have same : bytes "Basic " <+: u.dropWhile isspace ++ 13 :: 10 :: rest ↔
        bytes "Basic " <+: u.dropWhile isspace := prefix_separated (by decide) _ _
    rw [basicStart, dropped, basicStart]
    by_cases scheme : bytes "Basic " <+: u.dropWhile isspace
    · have long : 6 ≤ (u.dropWhile isspace).length := scheme.length_le
      rw [if_pos (same.mpr scheme), if_pos scheme, List.drop_append_of_le_length long]
      simp [crlf]
    · rw [if_neg (same.not.mpr scheme), if_neg scheme]
      rfl

theorem toLineEnd_line {s : Bytes} (text : Text s) (rest : Bytes) :
    toLineEnd (s ++ crlf ++ rest) = s := by
  have found : strstr (s ++ crlf ++ rest) crlf = some (crlf ++ rest) := by
    rw [List.append_assoc]
    exact strstr_of_not_mem text.return'
  rw [toLineEnd, found, Option.some_or, Option.getD_some]
  simp

/-! ## Credentials in a header -/

/-- The name the credentials are looked for behind. -/
def sought (h : Header) : Bytes :=
  if (locate (proxyAuthorization ++ [58]) h.lines).isSome then proxyAuthorization
  else authorization

theorem sought_cases (h : Header) : sought h = proxyAuthorization ∨ sought h = authorization := by
  rw [sought]
  split
  · exact .inl rfl
  · exact .inr rfl

theorem pattern_name {name : Bytes} (token : isToken name = true) : Pattern (name ++ [58]) where
  some := by simp
  newline := by simpa using not_mem_token token (by decide)
  return' := by simpa using not_mem_token token (by decide)

theorem behind_render {name : Bytes} (token : isToken name = true) (h : Header) :
    behind (name ++ [58]) h.render = (locate (name ++ [58]) h.lines).map fun hit =>
      hit.1.drop (name ++ [58]).length ++ crlf ++ (joinLines hit.2 ++ crlf) := by
  have last : strstr crlf (name ++ [58]) = none :=
    strstr_of_absent (c := 58) (by simp) (by decide)
  rw [behind, Header.render, strstr_joinLines (pattern_name token), last, Option.or_none]
  cases found : locate (name ++ [58]) h.lines with
  | none => rfl
  | some hit =>
      obtain ⟨front, line, -, -, here⟩ := locate_eq_some.mp found
      have long := (strstr_starts here).length_le
      simp only [Option.map_some]
      rw [List.append_assoc, List.drop_append_of_le_length long, ← List.append_assoc]

/-- What is made of the first line with either name is what is made of the sought one. -/
theorem or_eq_sought {α : Type} (g : Bytes → Bytes × List Bytes → α) (h : Header) :
    ((locate (proxyAuthorization ++ [58]) h.lines).map (g proxyAuthorization)).or
        ((locate (authorization ++ [58]) h.lines).map (g authorization)) =
      (locate (sought h ++ [58]) h.lines).map (g (sought h)) := by
  cases found : locate (proxyAuthorization ++ [58]) h.lines with
  | some hit =>
      have first : sought h = proxyAuthorization := by
        rw [sought, found]
        rfl
      rw [first, found]
      rfl
  | none =>
      have second : sought h = authorization := by
        rw [sought, found]
        rfl
      rw [second]
      rfl

theorem authHeader_render (h : Header) :
    authHeader h.render = (locate (sought h ++ [58]) h.lines).map fun hit =>
      hit.1.drop (sought h ++ [58]).length ++ crlf ++ (joinLines hit.2 ++ crlf) := by
  rw [authHeader, behind_render (by decide), behind_render (by decide)]
  exact or_eq_sought
    (fun name hit => hit.1.drop (name ++ [58]).length ++ crlf ++ (joinLines hit.2 ++ crlf)) h

/-- Behind a line of a header there are only fields. -/
theorem fields_of_locate {pat : Bytes} {h : Header} {hit : Bytes × List Bytes}
    (found : locate pat h.lines = some hit) :
    ∃ fields : List Field, hit.2 = fields.map Field.line := by
  obtain ⟨front, line, heq, -, -⟩ := locate_eq_some.mp found
  cases front with
  | nil => exact ⟨h.fields, (List.cons.inj heq).2.symm⟩
  | cons l front =>
      obtain ⟨fields, behind, -, -, hbehind⟩ := List.map_eq_append_iff.mp (List.cons.inj heq).2
      obtain ⟨f, fields, -, -, hfields⟩ := List.map_eq_cons_iff.mp hbehind
      exact ⟨fields, hfields.symm⟩

/-- The credentials start in the first line with the name, if there. -/
theorem b64Start_render (h : Header) :
    b64Start h.render = (locate (sought h ++ [58]) h.lines).bind fun hit =>
      (basicStart (hit.1.drop (sought h ++ [58]).length)).map
        (· ++ crlf ++ (joinLines hit.2 ++ crlf)) := by
  rw [b64Start, authHeader_render]
  cases found : locate (sought h ++ [58]) h.lines with
  | none => rfl
  | some hit =>
      refine basicStart_line ?_
      obtain ⟨fields, hfields⟩ := fields_of_locate found
      rw [hfields]
      cases fields with
      | nil => decide
      | cons f fields =>
          rw [List.map_cons, joinLines_cons, List.append_assoc, List.append_assoc]
          exact basicStart_field f _

theorem text_of_mem_lines {h : Header} {line : Bytes} (member : line ∈ h.lines) : Text line := by
  rcases List.mem_cons.mp member with rfl | member
  · exact h.text
  · obtain ⟨f, -, rfl⟩ := List.mem_map.mp member
    exact f.text_line

/-- What is taken as the credentials of a header. -/
theorem extract_render (h : Header) :
    extractBasicAuthB64 h.render = (locate (sought h ++ [58]) h.lines).bind fun hit =>
      basicStart (hit.1.drop (sought h ++ [58]).length) := by
  rw [extractBasicAuthB64_eq, b64Start_render]
  cases found : locate (sought h ++ [58]) h.lines with
  | none => rfl
  | some hit =>
      obtain ⟨front, line, heq, -, here⟩ := locate_eq_some.mp found
      have text : Text line := text_of_mem_lines (h := h) (by rw [heq]; simp)
      simp only [Option.bind_some]
      cases start : basicStart (hit.1.drop (sought h ++ [58]).length) with
      | none => rfl
      | some s =>
          have inLine : s <:+ line := (basicStart_suffix start).1.trans
            ((List.drop_suffix _ _).trans (strstr_suffix here))
          exact congrArg some (toLineEnd_line (Text.of_suffix text inLine) _)

/-! ## The endpoint -/

/-- The text of the `Host` line, without the blanks in front of it. -/
def hostPort (header : Bytes) : Bytes := hostText (header.dropWhile fun c => c = 32 || c = 9)

/-- What stands behind `name` and a colon, behind a newline. -/
def anchored (name s : Bytes) : Option Bytes :=
  (strstr s (10 :: (name ++ [58]))).map (·.drop (name.length + 2))

/-- What the endpoint is read from. -/
def hostHeader (request : Bytes) : Option Bytes :=
  (anchored (bytes "Host") request).or (anchored (bytes "host") request)

theorem parseHostPort_eq_hostHeader (request : Bytes) :
    parseHostPort request = (hostHeader request).map fun header => splitPort (hostPort header) := by
  have upper : bytes "\nHost:" = 10 :: (bytes "Host" ++ [58]) := rfl
  have lower : bytes "\nhost:" = 10 :: (bytes "host" ++ [58]) := rfl
  rw [parseHostPort_eq, upper, lower, hostHeader, anchored, anchored]
  cases strstr request (10 :: (bytes "Host" ++ [58])) with
  | some found => rfl
  | none =>
      cases strstr request (10 :: (bytes "host" ++ [58])) with
      | some found => rfl
      | none => rfl

/-- A line without line ends in it is cut at 255 bytes. -/
theorem hostText_text {s : Bytes} (text : Text s) : hostText s = s.take 255 := by
  rw [hostText, strchr_of_not_mem text.return', strchr_of_not_mem text.newline]
  show s.take (if 256 ≤ s.length - 0 then 255 else s.length - 0) = s.take 255
  split
  · rfl
  · rw [Nat.sub_zero, List.take_of_length_le (Nat.le_refl _), List.take_of_length_le (by omega)]

theorem hostText_line {s : Bytes} (text : Text s) (rest : Bytes) :
    hostText (s ++ 13 :: rest) = s.take 255 := by
  have found : strchr (s ++ 13 :: rest) 13 = some (13 :: rest) :=
    strchr_eq_some.mpr ⟨s, rest, rfl, rfl, text.return'⟩
  rw [hostText, found, Option.some_or, Option.getD_some]
  have len : (s ++ 13 :: rest).length - (13 :: rest).length = s.length := by simp
  rw [len]
  split
  · rw [List.take_append_of_le_length (by omega)]
  · rw [List.take_append_of_le_length (Nat.le_refl _), List.take_of_length_le (Nat.le_refl _),
      List.take_of_length_le (by omega)]

/-- The line of a field ends with it. -/
theorem hostPort_line {body : Bytes} (text : Text body) (rest : Bytes) :
    hostPort (body ++ 13 :: rest) = hostPort body := by
  have suffix : Text (body.dropWhile fun c => c = 32 || c = 9) :=
    Text.of_suffix text (List.dropWhile_suffix _)
  rw [hostPort, dropWhile_append_stop (by decide), hostText_line suffix, hostPort,
    hostText_text suffix]

/-- What stands behind a name in a header and what follows it. -/
theorem anchored_render {name : Bytes} (token : isToken name = true) (h : Header)
    (payload : Bytes) :
    (anchored name (h.render ++ payload)).map hostPort =
      ((h.body? name).or (anchored name (10 :: payload))).map hostPort := by
  rw [anchored, strstr_render_named token, Header.body?, List.find?_eq_head?_dropWhile_not]
  have same : (h.fields.dropWhile fun f => !decide (f.name = name)) =
      h.fields.dropWhile fun f => f.name ≠ name := by
    simp only [ne_eq, decide_not]
  rw [same]
  cases found : h.fields.dropWhile fun f => f.name ≠ name with
  | nil => rfl
  | cons f back =>
      have named : f.name = name := by
        have := List.head?_dropWhile_not (fun f : Field => decide (f.name ≠ name)) h.fields
        rw [found] at this
        simpa using this
      have shape : (10 :: (f.line ++ crlf ++
          (joinLines (back.map Field.line) ++ (crlf ++ payload)))).drop (name.length + 2) =
            f.body ++ 13 :: (10 :: (joinLines (back.map Field.line) ++ (crlf ++ payload))) := by
        rw [← named]
        simp [Field.line, crlf, List.drop_append]
      simp only [Option.map_some, List.head?_cons, Option.some_or]
      rw [shape, hostPort_line f.text]

/-- What the endpoint of a request with this header is read from: the first field named
`Host`, a line like one behind the header, the first field named `host`. -/
def hostSource (h : Header) (payload : Bytes) : Option Bytes :=
  ((h.body? (bytes "Host")).or (anchored (bytes "Host") (10 :: payload))).or
    ((h.body? (bytes "host")).or (anchored (bytes "host") (10 :: payload)))

theorem parseHostPort_render (h : Header) (payload : Bytes) :
    parseHostPort (h.render ++ payload) =
      (hostSource h payload).map fun header => splitPort (hostPort header) := by
  have host : ∀ name, isToken name = true → (anchored name (h.render ++ payload)).map hostPort =
      ((h.body? name).or (anchored name (10 :: payload))).map hostPort :=
    fun name token => anchored_render token h payload
  have text : (hostHeader (h.render ++ payload)).map hostPort =
      (hostSource h payload).map hostPort := by
    rw [hostHeader, hostSource, Option.map_or, host _ (by decide), host _ (by decide),
      ← Option.map_or]
  have split : ∀ source : Option Bytes, (source.map fun header => splitPort (hostPort header)) =
      (source.map hostPort).map splitPort := by
    intro source
    rw [Option.map_map]
    rfl
  rw [parseHostPort_eq_hostHeader, split, split, text]

end SimpleProxy
