import SimpleProxy.Main.Util

/-!
# The endpoint and the credentials

`parse_host_port` looks for a `Host` line anywhere in the request, and for the end of
that line anywhere behind it. Two requests that differ only in the credentials behind
`Basic` have the same endpoint all the same: the text of the line can reach the
credentials only over the colon of their field, and the port ends at the `B`.
-/

namespace SimpleProxy

open CString

variable {front space back b64 K : Bytes}

/-- `Proxy-Authorization` with white space in front of the scheme. -/
def authField (space : Bytes) : Bytes :=
  bytes "Proxy-Authorization:" ++ (space ++ bytes "Basic ")

/-- A request with these credentials. -/
def withCredentials (front space back b64 : Bytes) : Bytes :=
  front ++ (authField space ++ (b64 ++ back))

/-- Credentials that stay in their line. -/
structure OneLine (b64 : Bytes) : Prop where
  newline : 10 ∉ b64
  return' : 13 ∉ b64
  nulFree : 0 ∉ b64

/-! ## Finding the header -/

/-- The names of the header are found in front of the field or behind the credentials. -/
theorem strstr_withCredentials {name : Bytes} (blank : ∀ c ∈ space, isspace c = true)
    (apart : (80 : UInt8) ∉ 10 :: name ∧ (32 : UInt8) ∉ 10 :: name)
    (colon : (58 : UInt8) ∈ 10 :: name) (clean : 10 ∉ b64) :
    strstr (withCredentials front space back b64) (10 :: name) =
      ((strstr front (10 :: name)).map (· ++ (authField space ++ (b64 ++ back)))).or
        (strstr back (10 :: name)) := by
  have field : authField space ++ (b64 ++ back) =
      80 :: (bytes "roxy-Authorization:" ++
        ((space ++ bytes "Basic") ++ 32 :: (b64 ++ back))) := by
    simp [authField, bytes]
  have absent : (58 : UInt8) ∉ space ++ bytes "Basic" := by
    intro member
    rcases List.mem_append.mp member with inSpace | inScheme
    · exact absurd (blank _ inSpace) (by decide)
    · exact absurd inScheme (by decide)
  have behind : strstr (bytes "roxy-Authorization:" ++
      ((space ++ bytes "Basic") ++ 32 :: (b64 ++ back))) (10 :: name) =
        strstr back (10 :: name) := by
    rw [strstr_skip (by decide), strstr_separated apart.2 (List.cons_ne_nil _ _),
      strstr_of_absent colon absent, strstr_skip clean]
    rfl
  rw [withCredentials, field, strstr_separated apart.1 (List.cons_ne_nil _ _), behind]

/-! ## The text of the header -/

/-- `host_port`: the rest of the line, or 255 bytes of it. -/
def hostText (hostHeader : Bytes) : Bytes :=
  let stop := ((strchr hostHeader 13).or (strchr hostHeader 10)).getD []
  let len := hostHeader.length - stop.length
  hostHeader.take (if 256 ≤ len then 255 else len)

/-- The host and the port in it. -/
def splitPort (hostPort : Bytes) : Bytes × Int :=
  match strchr hostPort 58 with
  | some colon => (hostPort.take (hostPort.length - colon.length), atoi (colon.drop 1))
  | none => (hostPort, 80)

theorem splitPort_absent {text : Bytes} (colon : 58 ∉ text) : splitPort text = (text, 80) := by
  rw [splitPort, strchr_of_not_mem colon]

theorem splitPort_colon {host : Bytes} (colon : 58 ∉ host) (port : Bytes) :
    splitPort (host ++ 58 :: port) = (host, atoi port) := by
  have found : strchr (host ++ 58 :: port) 58 = some (58 :: port) :=
    strchr_eq_some.mpr ⟨host, port, rfl, rfl, colon⟩
  rw [splitPort, found]
  simp

theorem parseHostPort_eq (request : Bytes) :
    parseHostPort request =
      ((strstr request (bytes "\nHost:")).or (strstr request (bytes "\nhost:"))).map fun found =>
        splitPort (hostText ((found.drop 6).dropWhile fun c => c = 32 || c = 9)) := by
  unfold parseHostPort
  cases (strstr request (bytes "\nHost:")).or (strstr request (bytes "\nhost:")) with
  | none => rfl
  | some found =>
      show _ = some (splitPort (hostText ((found.drop 6).dropWhile fun c => c = 32 || c = 9)))
      generalize htext : hostText ((found.drop 6).dropWhile fun c => c = 32 || c = 9) = text
      unfold hostText at htext
      dsimp only at htext ⊢
      rw [htext, splitPort]
      cases strchr text 58 <;> rfl

/-- The text ends in front of the first carriage return. -/
theorem hostText_spec (header : Bytes) :
    hostText header <+: header ∧ (hostText header).length ≤ 255 ∧ 13 ∉ hostText header := by
  refine ⟨List.take_prefix _ _, ?_, ?_⟩
  · rw [hostText, List.length_take]
    split <;> omega
  · rw [hostText]
    cases found : strchr header 13 with
    | none =>
        have absent : 13 ∉ header := by
          intro member
          obtain ⟨front, back, rfl, clean⟩ := List.eq_append_cons_of_mem member
          rw [strchr_eq_some.mpr ⟨front, back, rfl, rfl, clean⟩] at found
          cases found
        exact fun member => absent (List.mem_of_mem_take member)
    | some stop =>
        obtain ⟨front, back, rfl, rfl, clean⟩ := strchr_eq_some.mp found
        intro member
        rw [Option.some_or, Option.getD_some] at member
        have within : ∀ n ≤ front.length, 13 ∉ (front ++ 13 :: back).take n := by
          intro n hn member
          rw [List.take_append_of_le_length hn] at member
          exact clean (List.mem_of_mem_take member)
        refine within _ ?_ member
        rw [List.length_append]
        split <;> omega

/-- The host is the text up to its first colon. -/
theorem splitPort_spec (text : Bytes) : (splitPort text).1 <+: text ∧ 58 ∉ (splitPort text).1 := by
  by_cases colon : 58 ∈ text
  · obtain ⟨front, back, rfl, clean⟩ := List.eq_append_cons_of_mem colon
    rw [splitPort_colon clean]
    exact ⟨List.prefix_append _ _, clean⟩
  · rw [splitPort_absent colon]
    exact ⟨List.prefix_rfl, colon⟩

/-- A line that ends within `K` ends there whatever follows. -/
theorem hostText_within {s : Bytes} (rest : Bytes) (short : s.length ≤ K.length)
    (stop : ((strchr (K ++ rest) 13).or (strchr (K ++ rest) 10)).getD [] = s ++ rest) :
    hostText (K ++ rest) =
      K.take (if 256 ≤ K.length - s.length then 255 else K.length - s.length) := by
  have hlen : (K ++ rest).length - (s ++ rest).length = K.length - s.length := by
    rw [List.length_append, List.length_append]
    omega
  rw [hostText, stop]
  rw [hlen, List.take_append_of_le_length]
  split <;> omega

/-- A line that goes on behind `K` has all of it, or is cut off within it. -/
theorem hostText_beyond {s : Bytes} (rest : Bytes) (short : s.length ≤ rest.length)
    (stop : ((strchr (K ++ rest) 13).or (strchr (K ++ rest) 10)).getD [] = s) :
    if 255 ≤ K.length then hostText (K ++ rest) = K.take 255
    else ∃ more, hostText (K ++ rest) = K ++ more := by
  have hlen : K.length ≤ (K ++ rest).length - s.length := by
    rw [List.length_append]
    omega
  rw [hostText, stop]
  generalize (K ++ rest).length - s.length = len at hlen
  split
  · have cut : (if 256 ≤ len then 255 else len) = 255 := by split <;> omega
    rw [cut, List.take_append_of_le_length ‹_›]
  · refine ⟨rest.take ((if 256 ≤ len then 255 else len) - K.length), ?_⟩
    have all : K.length ≤ if 256 ≤ len then 255 else len := by split <;> omega
    rw [List.take_append, List.take_of_length_le all]

/-- The line ends in front of the credentials, or behind them: never in them. -/
theorem lineEnd_cases (K back : Bytes) :
    (∃ s, s <:+ K ∧ ∀ b64, OneLine b64 →
      ((strchr (K ++ (b64 ++ back)) 13).or (strchr (K ++ (b64 ++ back)) 10)).getD [] =
        s ++ (b64 ++ back)) ∨
    ∃ s, s <:+ back ∧ ∀ b64, OneLine b64 →
      ((strchr (K ++ (b64 ++ back)) 13).or (strchr (K ++ (b64 ++ back)) 10)).getD [] = s := by
  have find : ∀ {b64 : Bytes} {c : UInt8}, c ∉ b64 → strchr (K ++ (b64 ++ back)) c =
      ((strchr K c).map (· ++ (b64 ++ back))).or (strchr back c) := by
    intro b64 c clean
    rw [strchr_append, strchr_append b64, strchr_of_not_mem clean]
    rfl
  cases return' : strchr K 13 with
  | some s =>
      refine .inl ⟨s, strchr_suffix return', fun b64 clean => ?_⟩
      rw [find clean.return', return']
      rfl
  | none =>
      cases returnBack : strchr back 13 with
      | some s =>
          -- a carriage return behind the credentials goes before a newline in front of them
          refine .inr ⟨s, strchr_suffix returnBack, fun b64 clean => ?_⟩
          rw [find clean.return', return', returnBack]
          rfl
      | none =>
          have newline : ∀ {b64}, OneLine b64 →
              ((strchr (K ++ (b64 ++ back)) 13).or (strchr (K ++ (b64 ++ back)) 10)).getD [] =
                (((strchr K 10).map (· ++ (b64 ++ back))).or (strchr back 10)).getD [] := by
            intro b64 clean
            rw [find clean.return', find clean.newline, return', returnBack]
            rfl
          cases hK : strchr K 10 with
          | some s =>
              refine .inl ⟨s, strchr_suffix hK, fun b64 clean => ?_⟩
              rw [newline clean, hK]
              rfl
          | none =>
              have behind : (strchr back 10).getD [] <:+ back := by
                cases hback : strchr back 10 with
                | none => exact List.nil_suffix
                | some s => exact strchr_suffix hback
              refine .inr ⟨_, behind, fun b64 clean => ?_⟩
              rw [newline clean, hK]
              rfl

/-- The text of the line is the same for all credentials, or goes on behind `K` for all. -/
theorem hostText_cases (K back : Bytes) :
    (∃ text, ∀ b64, OneLine b64 → hostText (K ++ (b64 ++ back)) = text) ∨
      ∀ b64, OneLine b64 → ∃ more, hostText (K ++ (b64 ++ back)) = K ++ more := by
  rcases lineEnd_cases K back with ⟨s, hs, stop⟩ | ⟨s, hs, stop⟩
  · exact .inl ⟨_, fun b64 clean => hostText_within _ hs.length_le (stop b64 clean)⟩
  · have short : ∀ b64 : Bytes, s.length ≤ (b64 ++ back).length := by
      intro b64
      rw [List.length_append]
      exact Nat.le_trans hs.length_le (Nat.le_add_left _ _)
    have text := fun b64 clean => hostText_beyond (b64 ++ back) (short b64) (stop b64 clean)
    by_cases long : 255 ≤ K.length
    · -- cut off before the credentials begin
      simp only [if_pos long] at text
      exact .inl ⟨_, text⟩
    · simp only [if_neg long] at text
      exact .inr text

/-- A text over the whole field is split in front of the credentials. -/
theorem splitPort_field (H space more : Bytes) :
    splitPort (H ++ authField space ++ more) = splitPort (H ++ authField space) := by
  have field : H ++ authField space =
      (H ++ bytes "Proxy-Authorization") ++ 58 :: (space ++ bytes "Basic ") := by
    simp [authField, bytes]
  obtain ⟨z, found⟩ : ∃ z, strchr (H ++ authField space) 58 =
      some (58 :: (z ++ 66 :: bytes "asic ")) := by
    rw [field, strchr_append]
    cases early : strchr (H ++ bytes "Proxy-Authorization") 58 with
    | none => exact ⟨space, rfl⟩
    | some s =>
        obtain ⟨before, after, -, rfl, -⟩ := strchr_eq_some.mp early
        refine ⟨after ++ 58 :: space, ?_⟩
        simp [bytes]
  have number : ∀ r, atoi (z ++ 66 :: r) = atoi z :=
    fun r => atoi_stop (by decide) (by decide) (by decide) (by decide) z r
  have foundMore : strchr (H ++ authField space ++ more) 58 =
      some (58 :: (z ++ 66 :: bytes "asic ") ++ more) := by
    rw [strchr_append, found]
    rfl
  have sameHost : (H ++ authField space ++ more).length -
      (58 :: (z ++ 66 :: bytes "asic ") ++ more).length =
        (H ++ authField space).length - (58 :: (z ++ 66 :: bytes "asic ")).length := by
    simp only [List.length_append]
    omega
  rw [splitPort, splitPort, foundMore, found]
  dsimp only
  refine Prod.ext ?_ ?_
  · show List.take _ _ = List.take _ _
    rw [sameHost, List.take_append_of_le_length (Nat.sub_le _ _)]
  · show atoi (z ++ 66 :: bytes "asic " ++ more) = atoi (z ++ 66 :: bytes "asic ")
    rw [List.append_assoc, List.cons_append, number, number]

/-! ## The endpoint -/

variable {b₁ b₂ : Bytes}

/-- What is found in front of the field gives the same endpoint. -/
theorem splitPort_hostText {t : Bytes} (long : 6 ≤ t.length) (clean₁ : OneLine b₁)
    (clean₂ : OneLine b₂) :
    splitPort (hostText (((t ++ (authField space ++ (b₁ ++ back))).drop 6).dropWhile
        fun c => c = 32 || c = 9)) =
      splitPort (hostText (((t ++ (authField space ++ (b₂ ++ back))).drop 6).dropWhile
        fun c => c = 32 || c = 9)) := by
  obtain ⟨H, header⟩ : ∃ H, ∀ b64, ((t ++ (authField space ++ (b64 ++ back))).drop 6).dropWhile
      (fun c => c = 32 || c = 9) = H ++ authField space ++ (b64 ++ back) := by
    refine ⟨(t.drop 6).dropWhile fun c => c = 32 || c = 9, fun b64 => ?_⟩
    rw [List.drop_append_of_le_length long, List.append_assoc]
    exact dropWhile_append_stop (by decide) _ _
  rw [header, header]
  rcases hostText_cases (H ++ authField space) back with ⟨text, same⟩ | beyond
  · rw [same b₁ clean₁, same b₂ clean₂]
  · obtain ⟨more₁, h₁⟩ := beyond b₁ clean₁
    obtain ⟨more₂, h₂⟩ := beyond b₂ clean₂
    rw [h₁, h₂, splitPort_field, splitPort_field]

/-- A search for a header finds the same text for both, but for the credentials. -/
theorem endpoint_of_nulFree (blank : ∀ c ∈ space, isspace c = true) (clean₁ : OneLine b₁)
    (clean₂ : OneLine b₂) :
    parseHostPort (withCredentials front space back b₁) =
      parseHostPort (withCredentials front space back b₂) := by
  have find : ∀ {b64}, OneLine b64 → ∀ name, name = bytes "Host:" ∨ name = bytes "host:" →
      strstr (withCredentials front space back b64) (10 :: name) =
        ((strstr front (10 :: name)).map (· ++ (authField space ++ (b64 ++ back)))).or
          (strstr back (10 :: name)) := by
    rintro b64 clean name (rfl | rfl)
    · exact strstr_withCredentials blank (by decide) (by decide) clean.newline
    · exact strstr_withCredentials blank (by decide) (by decide) clean.newline
  have long : ∀ {name t}, name = bytes "Host:" ∨ name = bytes "host:" →
      strstr front (10 :: name) = some t → 6 ≤ t.length := by
    rintro name t (rfl | rfl) found
    · exact (strstr_starts found).length_le
    · exact (strstr_starts found).length_le
  have upper : bytes "\nHost:" = 10 :: bytes "Host:" := rfl
  have lower : bytes "\nhost:" = 10 :: bytes "host:" := rfl
  rw [parseHostPort_eq, parseHostPort_eq, upper, lower, find clean₁ _ (.inl rfl),
    find clean₁ _ (.inr rfl), find clean₂ _ (.inl rfl), find clean₂ _ (.inr rfl)]
  cases inFront : strstr front (10 :: bytes "Host:") with
  | some t => exact congrArg some (splitPort_hostText (long (.inl rfl) inFront) clean₁ clean₂)
  | none =>
      cases strstr back (10 :: bytes "Host:") with
      | some t => rfl
      | none =>
          cases inFront : strstr front (10 :: bytes "host:") with
          | some t =>
              exact congrArg some (splitPort_hostText (long (.inr rfl) inFront) clean₁ clean₂)
          | none => rfl

theorem cstr_withCredentials (blank : ∀ c ∈ space, isspace c = true) (clean : OneLine b64)
    (nulFree : 0 ∉ front) :
    cstr (withCredentials front space back b64) = withCredentials front space (cstr back) b64 := by
  have field : 0 ∉ authField space := by
    rw [authField, List.mem_append, List.mem_append, not_or, not_or]
    refine ⟨by decide, fun member => ?_, by decide⟩
    exact absurd (blank 0 member) (by decide)
  rw [withCredentials, cstr_append nulFree, cstr_append field, cstr_append clean.nulFree]
  rfl

/-- **The endpoint.** It does not depend on the credentials. -/
theorem parseHostPort_withCredentials (blank : ∀ c ∈ space, isspace c = true)
    (clean₁ : OneLine b₁) (clean₂ : OneLine b₂) :
    parseHostPort (cstr (withCredentials front space back b₁)) =
      parseHostPort (cstr (withCredentials front space back b₂)) := by
  by_cases nul : 0 ∈ front
  · rw [withCredentials, withCredentials, cstr_append_of_mem nul, cstr_append_of_mem nul]
  · rw [cstr_withCredentials blank clean₁ nul, cstr_withCredentials blank clean₂ nul]
    exact endpoint_of_nulFree blank clean₁ clean₂

end SimpleProxy
