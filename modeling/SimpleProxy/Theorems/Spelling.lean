import SimpleProxy.Logic.Headers

/-!
# The spelling of field names

The names of fields are the same in upper and in lower case, and the searches compare
bytes. What they can find over all spellings of one header is a list of texts; the
spelling does not matter just where all of them give the same credentials, and there is no
field for the host.
-/

namespace SimpleProxy.Theorems.Spelling

open CString Http

/-- Every spelling of the names gives the same credentials and the same endpoint. -/
def SpellingIgnored (h : Header) : Prop :=
  ∀ h', h.Respelled h' → extractBasicAuthB64 h'.render = extractBasicAuthB64 h.render ∧
    parseHostPort h'.render = parseHostPort h.render

/-- No field is named `host`, in any spelling. -/
def NoHost (h : Header) : Prop := ∀ f ∈ h.fields, ¬ SameLetters f.name (bytes "host")

/-! ## The texts a search can find -/

/-- The text behind a name and a colon in a list of fields. -/
def fieldsText (name : Bytes) : List Field → Option Bytes
  | [] => none
  | f :: fields =>
    if name <:+ f.name then some f.body
    else (behind (name ++ [58]) f.body).or (fieldsText name fields)

/-- What this text can be, over all spellings: a body can be found when its name ends like
the name that is looked for, up to the first body with the name in it. -/
def spellings (name : Bytes) : List Field → List (Option Bytes)
  | [] => [none]
  | f :: fields =>
    (if name.map tolower <:+ f.name.map tolower then [some f.body] else []) ++
      match behind (name ++ [58]) f.body with
      | some t => [some t]
      | none => spellings name fields

/-- The text the credentials are read from. -/
def credentialsText (h : Header) : Option Bytes :=
  ((behind (proxyAuthorization ++ [58]) h.requestLine).or
      (fieldsText proxyAuthorization h.fields)).or
    ((behind (authorization ++ [58]) h.requestLine).or (fieldsText authorization h.fields))

/-- What it can be when the name for the proxy is not found. -/
def secondTexts (h : Header) : List (Option Bytes) :=
  match behind (authorization ++ [58]) h.requestLine with
  | some t => [some t]
  | none => spellings authorization h.fields

/-- What it can be. -/
def credentialsTexts (h : Header) : List (Option Bytes) :=
  match behind (proxyAuthorization ++ [58]) h.requestLine with
  | some t => [some t]
  | none => (spellings proxyAuthorization h.fields).flatMap fun
    | some t => [some t]
    | none => secondTexts h

/-- All the texts that can be found give the same credentials. -/
def Agreeing (h : Header) : Prop :=
  ∀ t ∈ credentialsTexts h, ∀ t' ∈ credentialsTexts h, t.bind basicStart = t'.bind basicStart

variable {h h' : Header} {name : Bytes} {fields fields' : List Field}

/-! ## The credentials -/

theorem behind_field (f : Field) (colon : 58 ∉ name) :
    behind (name ++ [58]) f.line =
      if name <:+ f.name then some f.body else behind (name ++ [58]) f.body := by
  rw [behind, strstr_field f colon]
  split
  · simp
  · rfl

/-- The text behind `pat` in the first line with it. -/
theorem locate_cons (pat line : Bytes) (lines : List Bytes) :
    (locate pat (line :: lines)).map (fun hit => hit.1.drop pat.length) =
      (behind pat line).or ((locate pat lines).map fun hit => hit.1.drop pat.length) := by
  rw [locate, behind]
  cases strstr line pat <;> rfl

theorem locate_fields (colon : 58 ∉ name) (fields : List Field) :
    (locate (name ++ [58]) (fields.map Field.line)).map (fun hit =>
      hit.1.drop (name ++ [58]).length) = fieldsText name fields := by
  induction fields with
  | nil => rfl
  | cons f fields ih =>
      rw [List.map_cons, locate_cons, ih, behind_field f colon, fieldsText]
      split <;> rfl

theorem extract_eq_credentialsText (h : Header) :
    extractBasicAuthB64 h.render = (credentialsText h).bind basicStart := by
  have text : ∀ {name}, 58 ∉ name → (locate (name ++ [58]) h.lines).map (fun hit =>
      hit.1.drop (name ++ [58]).length) =
        (behind (name ++ [58]) h.requestLine).or (fieldsText name h.fields) := by
    intro name colon
    rw [Header.lines, locate_cons, locate_fields colon]
  have first := or_eq_sought (fun name hit => hit.1.drop (name ++ [58]).length) h
  rw [extract_render, credentialsText, ← text (by decide), ← text (by decide), first]
  cases locate (sought h ++ [58]) h.lines <;> rfl

/-! ## What can be found is found in some spelling -/

/-- A text is found in some spelling if and only if it is in the list: this half says that the
list has them all. -/
theorem fieldsText_mem_spellings (same : List.Forall₂ Respelled fields fields') :
    fieldsText name fields' ∈ spellings name fields := by
  induction same with
  | nil => exact List.mem_singleton.mpr rfl
  | @cons f f' fields fields' hf hfields ih =>
      rw [fieldsText, spellings, List.mem_append, hf.body]
      by_cases ends : name <:+ f'.name
      · have letters : name.map tolower <:+ f.name.map tolower := hf.name ▸ ends.map tolower
        rw [if_pos ends, if_pos letters]
        exact .inl (List.mem_singleton.mpr rfl)
      · rw [if_neg ends]
        right
        cases behind (name ++ [58]) f.body with
        | some t => exact List.mem_singleton.mpr rfl
        | none => exact ih

theorem credentialsText_mem (same : h.Respelled h') : credentialsText h' ∈ credentialsTexts h := by
  rw [credentialsText, credentialsTexts, same.requestLine]
  cases behind (proxyAuthorization ++ [58]) h.requestLine with
  | some t => exact List.mem_singleton.mpr rfl
  | none =>
      have first : fieldsText proxyAuthorization h'.fields ∈
          spellings proxyAuthorization h.fields := fieldsText_mem_spellings same.fields
      rw [Option.none_or, List.mem_flatMap]
      refine ⟨_, first, ?_⟩
      cases fieldsText proxyAuthorization h'.fields with
      | some t => exact List.mem_singleton.mpr rfl
      | none =>
          show _ ∈ secondTexts h
          rw [secondTexts, Option.none_or]
          cases behind (authorization ++ [58]) h.requestLine with
          | some t => exact List.mem_singleton.mpr rfl
          | none => exact fieldsText_mem_spellings same.fields

/-- A name without capitals, or with none in front of `name`. -/
def Plain (name s : Bytes) : Prop :=
  s.map tolower = s ∨ ∃ front : Bytes, s = front.map tolower ++ name

/-- A field with its name in lower case. -/
def lowered (f : Field) : Field := f.respell (f.name.map tolower) (sameLetters_lower f.name)

theorem respelled_lowered (f : Field) : Respelled f (lowered f) := ⟨sameLetters_lower f.name, rfl⟩

theorem forall₂_map {g : Field → Field} (each : ∀ f, Respelled f (g f)) (fields : List Field) :
    List.Forall₂ Respelled fields (fields.map g) := by
  induction fields with
  | nil => exact .nil
  | cons f fields ih => exact .cons (each f) ih

/-- A name that starts with a capital is in no lower case text. -/
theorem capital_not_mem {c : UInt8} {s : Bytes} (capital : tolower c ≠ c)
    (lower : s.map tolower = s) : c ∉ s := by
  intro member
  rw [← lower] at member
  obtain ⟨b, -, rfl⟩ := List.mem_map.mp member
  exact capital (tolower_tolower b)

/-- A name that ends like `name` can be spelled to end in it, with no capital in front. -/
theorem exists_respelled_ends {f : Field} (letters : name.map tolower <:+ f.name.map tolower) :
    ∃ f', Respelled f f' ∧ ∃ front : Bytes, f'.name = front.map tolower ++ name := by
  obtain ⟨lower, hlower⟩ := letters
  obtain ⟨front, back, hname, rfl, hback⟩ := List.map_eq_append_iff.mp hlower.symm
  have same : SameLetters (front.map tolower ++ name) f.name := by
    have hfront : SameLetters (front.map tolower) front := sameLetters_lower front
    unfold SameLetters at hfront ⊢
    rw [List.map_append, hfront, hname, List.map_append, hback]
  exact ⟨f.respell _ same, ⟨same, rfl⟩, front, rfl⟩

/-- The other half: each text of the list is found in some spelling. -/
theorem exists_spelling (capital : ∃ c ∈ name, tolower c ≠ c) {t : Option Bytes}
    (member : t ∈ spellings name fields) :
    ∃ fields', List.Forall₂ Respelled fields fields' ∧ fieldsText name fields' = t ∧
      ∀ f' ∈ fields', Plain name f'.name := by
  have allPlain : ∀ fields : List Field, ∀ f' ∈ fields.map lowered, Plain name f'.name := by
    intro fields f' hf'
    obtain ⟨f, -, rfl⟩ := List.mem_map.mp hf'
    exact .inl (sameLetters_lower f.name)
  induction fields with
  | nil => exact ⟨[], .nil, (List.mem_singleton.mp member).symm, by simp⟩
  | cons f fields ih =>
      rw [spellings] at member
      rcases List.mem_append.mp member with here | later
      · split at here
        · rename_i letters
          obtain ⟨f', respelled, front, spelled⟩ := exists_respelled_ends letters
          refine ⟨f' :: fields.map lowered, .cons respelled (forall₂_map respelled_lowered fields), ?_,
            List.forall_mem_cons.mpr ⟨.inr ⟨front, spelled⟩, allPlain fields⟩⟩
          rw [fieldsText, if_pos ⟨_, spelled.symm⟩, respelled.body, List.mem_singleton.mp here]
        · cases here
      · have ends : ¬ name <:+ (lowered f).name := by
          intro suffix
          obtain ⟨c, hc, upper⟩ := capital
          exact capital_not_mem upper (sameLetters_lower f.name) (suffix.subset hc)
        cases inBody : behind (name ++ [58]) f.body with
        | some text =>
            rw [inBody] at later
            refine ⟨(f :: fields).map lowered, forall₂_map respelled_lowered _, ?_, allPlain _⟩
            have body : behind (name ++ [58]) (lowered f).body = some text := inBody
            rw [List.map_cons, fieldsText, if_neg ends, body, List.mem_singleton.mp later]
            rfl
        | none =>
            rw [inBody] at later
            obtain ⟨fields', same, found, plain⟩ := ih later
            refine ⟨lowered f :: fields', .cons (respelled_lowered f) same, ?_,
              List.forall_mem_cons.mpr ⟨.inl (sameLetters_lower f.name), plain⟩⟩
            have body : behind (name ++ [58]) (lowered f).body = none := inBody
            rw [fieldsText, if_neg ends, body, Option.none_or, found]

/-- When nothing can be found, no body has the name in it. -/
theorem none_mem_spellings (member : none ∈ spellings name fields) :
    ∀ f ∈ fields, behind (name ++ [58]) f.body = none := by
  induction fields with
  | nil => simp
  | cons f fields ih =>
      rw [spellings] at member
      have later : none ∈ match behind (name ++ [58]) f.body with
          | some t => [some t]
          | none => spellings name fields := by
        refine (List.mem_append.mp member).resolve_left fun here => ?_
        split at here
        · cases List.mem_singleton.mp here
        · cases here
      cases inBody : behind (name ++ [58]) f.body with
      | some t =>
          rw [inBody] at later
          cases List.mem_singleton.mp later
      | none =>
          rw [inBody] at later
          exact List.forall_mem_cons.mpr ⟨inBody, ih later⟩

theorem fieldsText_eq_none (ends : ∀ f ∈ fields, ¬ name <:+ f.name)
    (bodies : ∀ f ∈ fields, behind (name ++ [58]) f.body = none) :
    fieldsText name fields = none := by
  induction fields with
  | nil => rfl
  | cons f fields ih =>
      rw [List.forall_mem_cons] at ends bodies
      rw [fieldsText, if_neg ends.1, bodies.1, Option.none_or, ih ends.2 bodies.2]

/-- The name for the proxy is longer than `Authorization`, by a part with a capital. -/
theorem not_ends_of_plain {s : Bytes} (plain : Plain authorization s) :
    ¬ proxyAuthorization <:+ s := by
  intro suffix
  have capital : tolower 80 ≠ 80 := by decide
  rcases plain with lower | ⟨front, rfl⟩
  · exact capital_not_mem capital lower (suffix.subset (by decide))
  · obtain ⟨more, hmore⟩ := suffix
    have long : proxyAuthorization = bytes "Proxy-" ++ authorization := rfl
    rw [long, ← List.append_assoc] at hmore
    refine capital_not_mem capital (sameLetters_lower front) ?_
    rw [← List.append_cancel_right hmore]
    exact List.mem_append_right _ (by decide)

theorem capitals : (∃ c ∈ proxyAuthorization, tolower c ≠ c) ∧ ∃ c ∈ authorization, tolower c ≠ c :=
  ⟨⟨80, by decide, by decide⟩, 65, by decide, by decide⟩

theorem respelled_of_mem (same : List.Forall₂ Respelled fields fields') {f' : Field}
    (member : f' ∈ fields') : ∃ f ∈ fields, Respelled f f' := by
  induction same with
  | nil => cases member
  | @cons f g' fields fields' hf _ ih =>
      rcases List.mem_cons.mp member with rfl | member
      · exact ⟨f, List.mem_cons_self, hf⟩
      · obtain ⟨g, hg, respelled⟩ := ih member
        exact ⟨g, List.mem_cons_of_mem _ hg, respelled⟩

theorem exists_credentialsText {t : Option Bytes} (member : t ∈ credentialsTexts h) :
    ∃ h', h.Respelled h' ∧ credentialsText h' = t := by
  rw [credentialsTexts] at member
  cases first : behind (proxyAuthorization ++ [58]) h.requestLine with
  | some text =>
      rw [first] at member
      refine ⟨h, ⟨rfl, List.forall₂_same.mpr fun f _ => ⟨rfl, rfl⟩⟩, ?_⟩
      rw [credentialsText, first, List.mem_singleton.mp member]
      rfl
  | none =>
      rw [first] at member
      obtain ⟨text, inProxy, inRest⟩ := List.mem_flatMap.mp member
      cases text with
      | some text =>
          obtain ⟨fields, same, found, -⟩ := exists_spelling capitals.1 inProxy
          refine ⟨⟨h.requestLine, fields, h.text⟩, ⟨rfl, same⟩, ?_⟩
          rw [credentialsText, first, found, List.mem_singleton.mp inRest]
          rfl
      | none =>
          -- no body has the name for the proxy in it, so that it is not found in any spelling
          -- in which no name ends in it
          have absent : ∀ {fields}, List.Forall₂ Respelled h.fields fields →
              (∀ f ∈ fields, ¬ proxyAuthorization <:+ f.name) →
              fieldsText proxyAuthorization fields = none := by
            intro fields same ends
            refine fieldsText_eq_none ends fun f' hf' => ?_
            obtain ⟨f, hf, respelled⟩ := respelled_of_mem same hf'
            rw [respelled.body]
            exact none_mem_spellings inProxy f hf
          change t ∈ secondTexts h at inRest
          rw [secondTexts] at inRest
          cases second : behind (authorization ++ [58]) h.requestLine with
          | some text =>
              rw [second] at inRest
              obtain ⟨fields, same, found, -⟩ := exists_spelling capitals.1 inProxy
              refine ⟨⟨h.requestLine, fields, h.text⟩, ⟨rfl, same⟩, ?_⟩
              rw [credentialsText, first, found, second, List.mem_singleton.mp inRest]
              rfl
          | none =>
              rw [second] at inRest
              obtain ⟨fields, same, found, plain⟩ := exists_spelling capitals.2 inRest
              refine ⟨⟨h.requestLine, fields, h.text⟩, ⟨rfl, same⟩, ?_⟩
              have none := absent same fun f hf => not_ends_of_plain (plain f hf)
              rw [credentialsText, first, none, second, found]
              rfl

/-- The spelling does not matter for the credentials just where all texts agree. -/
theorem credentials_ignored_iff :
    (∀ h', h.Respelled h' → extractBasicAuthB64 h'.render = extractBasicAuthB64 h.render) ↔
      Agreeing h := by
  constructor
  · intro ignored t ht t' ht'
    have one : ∀ {t}, t ∈ credentialsTexts h → t.bind basicStart = extractBasicAuthB64 h.render := by
      intro t ht
      obtain ⟨h', same, rfl⟩ := exists_credentialsText ht
      rw [← extract_eq_credentialsText, ignored h' same]
    rw [one ht, one ht']
  · intro agreeing h' same
    rw [extract_eq_credentialsText, extract_eq_credentialsText]
    have self : h.Respelled h := ⟨rfl, List.forall₂_same.mpr fun f _ => ⟨rfl, rfl⟩⟩
    exact agreeing _ (credentialsText_mem same) _ (credentialsText_mem self)

/-! ## The endpoint -/

theorem parseHostPort_header (h : Header) :
    parseHostPort h.render = ((h.body? (bytes "Host")).or (h.body? (bytes "host"))).map fun header =>
      splitPort (hostPort header) := by
  have nothing : anchored (bytes "Host") [10] = none ∧ anchored (bytes "host") [10] = none := by
    decide
  have parsed := parseHostPort_render h []
  rwa [List.append_nil, hostSource, nothing.1, nothing.2, Option.or_none, Option.or_none] at parsed

theorem body?_eq_none_iff {name : Bytes} :
    h.body? name = none ↔ ∀ f ∈ h.fields, f.name ≠ name := by
  rw [Header.body?, Option.map_eq_none_iff, List.find?_eq_none]
  simp

theorem parseHostPort_eq_none_iff (h : Header) :
    parseHostPort h.render = none ↔
      ∀ f ∈ h.fields, f.name ≠ bytes "Host" ∧ f.name ≠ bytes "host" := by
  rw [parseHostPort_header, Option.map_eq_none_iff, Option.or_eq_none_iff, body?_eq_none_iff,
    body?_eq_none_iff]
  exact forall₂_and.symm

/-- A field with `host` in capitals, the one spelling of it that no search finds. -/
def shouted (f : Field) : Field :=
  if same : SameLetters (bytes "HOST") f.name then f.respell (bytes "HOST") same else f

theorem respelled_shouted (f : Field) : Respelled f (shouted f) := by
  unfold shouted
  split
  · rename_i same
    exact ⟨same, rfl⟩
  · exact ⟨rfl, rfl⟩

theorem shouted_name (f : Field) :
    (shouted f).name ≠ bytes "Host" ∧ (shouted f).name ≠ bytes "host" := by
  unfold shouted
  split
  · exact (by decide : bytes "HOST" ≠ bytes "Host" ∧ bytes "HOST" ≠ bytes "host")
  · rename_i other
    constructor
    · intro name
      exact other (name ▸ (by decide : SameLetters (bytes "HOST") (bytes "Host")))
    · intro name
      exact other (name ▸ (by decide : SameLetters (bytes "HOST") (bytes "host")))

theorem endpoint_ignored_iff :
    (∀ h', h.Respelled h' → parseHostPort h'.render = parseHostPort h.render) ↔ NoHost h := by
  constructor
  · intro ignored f member same
    have low := ignored ⟨h.requestLine, h.fields.map lowered, h.text⟩
      ⟨rfl, forall₂_map respelled_lowered _⟩
    have high := ignored ⟨h.requestLine, h.fields.map shouted, h.text⟩
      ⟨rfl, forall₂_map respelled_shouted _⟩
    have unfound : parseHostPort h.render = none := by
      rw [← high, parseHostPort_eq_none_iff]
      intro f' hf'
      obtain ⟨f, -, rfl⟩ := List.mem_map.mp hf'
      exact shouted_name f
    rw [unfound, parseHostPort_eq_none_iff] at low
    -- in lower case it is found
    exact (low (lowered f) (List.mem_map_of_mem member)).2 same
  · intro noHost
    have unfound : ∀ h', h.Respelled h' → parseHostPort h'.render = none := by
      intro h' same
      rw [parseHostPort_eq_none_iff]
      intro f' hf'
      obtain ⟨f, hf, respelled⟩ := respelled_of_mem same.fields hf'
      have letters := respelled.name
      constructor
      · intro name
        rw [name] at letters
        exact noHost f hf (letters.symm.trans (by decide))
      · intro name
        rw [name] at letters
        exact noHost f hf letters.symm
    intro h' same
    rw [unfound h' same, unfound h ⟨rfl, List.forall₂_same.mpr fun f _ => ⟨rfl, rfl⟩⟩]

/-- **The spelling of the names** does not matter just where no field is for the host and all
the texts that credentials can be found in agree. -/
theorem spelling_ignored_iff (h : Header) : SpellingIgnored h ↔ NoHost h ∧ Agreeing h := by
  rw [← endpoint_ignored_iff, ← credentials_ignored_iff]
  constructor
  · intro ignored
    exact ⟨fun h' same => (ignored h' same).2, fun h' same => (ignored h' same).1⟩
  · rintro ⟨endpoint, credentials⟩ h' same
    exact ⟨credentials h' same, endpoint h' same⟩

theorem text_getRoot : Text (bytes "GET / HTTP/1.1") := by decide

theorem text_hostOnly : Text (bytes " h") := by decide

theorem token_host : isToken (bytes "Host") = true := by decide

theorem token_shoutedHost : isToken (bytes "HOST") = true := by decide

/-- One field for the host. -/
def hostHeaderOnly : Header where
  requestLine := bytes "GET / HTTP/1.1"
  fields := [⟨bytes "Host", bytes " h", token_host, text_hostOnly⟩]
  text := text_getRoot

/-- The same field in capitals. -/
def shoutedHeader : Header where
  requestLine := bytes "GET / HTTP/1.1"
  fields := [⟨bytes "HOST", bytes " h", token_shoutedHost, text_hostOnly⟩]
  text := text_getRoot

theorem spelling_ignored_fails : ¬ ∀ h, SpellingIgnored h := by
  intro claim
  have same := claim hostHeaderOnly shoutedHeader ⟨rfl, .cons ⟨by decide, rfl⟩ .nil⟩
  exact absurd same.2 (by decide)

end SimpleProxy.Theorems.Spelling
