import SimpleProxy.Logic.Headers
import SimpleProxy.Main.Pointers

/-!
# The request functions do not fault

On the memory of a terminated string, whatever is behind its NUL, both functions do what
they do on the string.
-/

namespace SimpleProxy

open CString Blocks Http

variable {s : Bytes} {rest : Block}

/-- A search is followed by another, and that by the end of the string. -/
theorem endOf_cells {first second : Checked (Option Block)} {found found' : Option Bytes}
    (hfirst : first = .ok (found.map (cells · rest)))
    (hsecond : second = .ok (found'.map (cells · rest))) (clean : 0 ∉ s) :
    endOf first second (cells s rest) = .ok (cells ((found.or found').getD []) rest) := by
  rw [endOf, hfirst, ok_bind]
  cases found with
  | some t => rfl
  | none =>
      rw [Option.map_none]
      dsimp only
      rw [hsecond, ok_bind]
      cases found' with
      | some t => rfl
      | none =>
          rw [Option.map_none]
          dsimp only
          rw [strlen_cells clean, ok_bind, advance_cells (Nat.le_refl _), List.drop_length]
          rfl

theorem authHeaderAt_cells (clean : 0 ∉ s) :
    authHeaderAt (cells s rest) = .ok ((authHeader s).map (cells · rest)) := by
  have upper : bytes "Proxy-Authorization:" = proxyAuthorization ++ [58] := rfl
  have lower : bytes "Authorization:" = authorization ++ [58] := rfl
  rw [authHeaderAt, upper, lower, strstr_cells (by decide) clean, ok_bind, authHeader, behind,
    behind]
  cases found : CString.strstr s (proxyAuthorization ++ [58]) with
  | some t =>
      have long := (strstr_starts found).length_le
      simp only [Option.map_some, Option.some_or]
      rw [advance_cells long]
      rfl
  | none =>
      simp only [Option.map_none, Option.none_or]
      rw [strstr_cells (by decide) clean, ok_bind]
      cases found : CString.strstr s (authorization ++ [58]) with
      | some t =>
          have long := (strstr_starts found).length_le
          simp only [Option.map_some]
          rw [advance_cells long]
          rfl
      | none => rfl

/-- A suffix of a string without a NUL has none. -/
theorem clean_suffix {t : Bytes} (clean : 0 ∉ s) (suffix : t <:+ s) : 0 ∉ t :=
  fun member => clean (suffix.subset member)

theorem clean_authHeader {h : Bytes} (clean : 0 ∉ s) (found : authHeader s = some h) : 0 ∉ h := by
  have search : ∀ {pat h : Bytes}, behind pat s = some h → 0 ∉ h := by
    intro pat h found
    obtain ⟨t, hit, rfl⟩ := Option.map_eq_some_iff.mp found
    exact clean_suffix clean ((List.drop_suffix _ _).trans (strstr_suffix hit))
  rw [authHeader] at found
  rcases Option.or_eq_some_iff.mp found with found | ⟨-, found⟩
  · exact search found
  · exact search found

/-- Where the line ends is in the string. -/
theorem lineEnd_suffix {found found' : Option Bytes} (h : ∀ t ∈ found, t <:+ s)
    (h' : ∀ t ∈ found', t <:+ s) : (found.or found').getD [] <:+ s := by
  cases found with
  | some t => exact h t rfl
  | none =>
      cases found' with
      | some t => exact h' t rfl
      | none => exact List.nil_suffix

/-- The text from `b64_start` on is copied up to the end of its line. -/
theorem copyLine_cells (clean : 0 ∉ s) :
    (do
      let stop ← endOf (Blocks.strstr (bytes "\r\n") (cells s rest))
        (Blocks.strchr 10 (cells s rest)) (cells s rest)
      let len ← distance stop (cells s rest)
      let authB64 ← storeAll (malloc (len + 1)) 0 (← loads len (cells s rest))
      return some (← store authB64 len 0) : Checked (Option Block)) =
      .ok (some (cells (toLineEnd s) [])) := by
  have lineEnd : bytes "\r\n" = crlf := rfl
  rw [endOf_cells (strstr_cells (by decide) clean) (strchr_cells clean (by decide)) clean, ok_bind,
    lineEnd, toLineEnd]
  have suffix : ((CString.strstr s crlf).or (CString.strchr s 10)).getD [] <:+ s :=
    lineEnd_suffix (fun _ h => strstr_suffix h) fun _ h => strchr_suffix h
  generalize ((CString.strstr s crlf).or (CString.strchr s 10)).getD [] = stop at suffix ⊢
  rw [distance_cells suffix.length_le, ok_bind, loads_cells (Nat.sub_le _ _), ok_bind]
  have hlength : (s.take (s.length - stop.length)).length = s.length - stop.length := by
    rw [List.length_take]
    omega
  generalize s.take (s.length - stop.length) = text at hlength ⊢
  rw [← hlength, storeAll_front (by rw [length_malloc]; omega), ok_bind,
    store_terminator (by rw [length_malloc]; omega), ok_bind, List.drop_of_length_le]
  · rfl
  · rw [length_malloc]

theorem extractBasicAuthB64At_cells (clean : 0 ∉ s) :
    extractBasicAuthB64At (cells s rest) =
      .ok ((extractBasicAuthB64 s).map fun text => cells text []) := by
  rw [extractBasicAuthB64At, authHeaderAt_cells clean, ok_bind, extractBasicAuthB64_eq, b64Start]
  cases found : authHeader s with
  | none => rfl
  | some header =>
      have cleanHeader := clean_authHeader clean found
      simp only [Option.map_some, Option.bind_some]
      rw [skipWhile_cells (by decide), ok_bind, starts_cells (by decide), ok_bind, basicStart]
      by_cases scheme : bytes "Basic " <+: header.dropWhile isspace
      · have long : 6 ≤ (header.dropWhile isspace).length := scheme.length_le
        rw [if_pos (List.isPrefixOf_iff_prefix.mpr scheme), if_pos scheme, advance_cells long,
          ok_bind]
        exact copyLine_cells (clean_suffix cleanHeader
          ((List.drop_suffix _ _).trans (List.dropWhile_suffix _)))
      · rw [if_neg (by rwa [List.isPrefixOf_iff_prefix]), if_neg scheme]
        rfl

example : extractBasicAuthB64At (cells (bytes "Authorization:\n Basic dQ==\n") []) =
    .ok (some (cells (bytes "dQ==") [])) := by rfl

/-- `host_port` holds the text of the header, and nothing behind its NUL. -/
theorem hostPortAt_cells (clean : 0 ∉ s) :
    hostPortAt (cells s rest) =
      .ok (cells (hostPort s) ((malloc 256).drop ((hostPort s).length + 1))) := by
  have clean' := clean_suffix clean (List.dropWhile_suffix fun c => c = 32 || c = 9)
  rw [hostPortAt, skipWhile_cells (by decide), ok_bind,
    endOf_cells (strchr_cells clean' (by decide)) (strchr_cells clean' (by decide)) clean', ok_bind,
    hostPort, hostText]
  generalize s.dropWhile (fun c => c = 32 || c = 9) = header at clean' ⊢
  have suffix : ((CString.strchr header 13).or (CString.strchr header 10)).getD [] <:+ header :=
    lineEnd_suffix (fun _ h => strchr_suffix h) fun _ h => strchr_suffix h
  generalize ((CString.strchr header 13).or (CString.strchr header 10)).getD [] = stop at suffix ⊢
  rw [distance_cells suffix.length_le, ok_bind]
  dsimp only
  obtain ⟨len, hlen⟩ : ∃ len, len = if 256 ≤ header.length - stop.length then 255
      else header.length - stop.length := ⟨_, rfl⟩
  have short : len ≤ 255 ∧ len ≤ header.length := by
    rw [hlen]
    split <;> omega
  rw [← hlen, strncpy_cells short.2 clean', ok_bind]
  have hlength : (header.take len).length = len := List.length_take_of_le short.2
  generalize header.take len = text at hlength ⊢
  have room : text.length < (malloc 256).length := by
    rw [length_malloc]
    omega
  rw [← hlength, storeAll_front (Nat.le_of_lt room), ok_bind, store_terminator room]

/-- What is in front of the first colon stays, and the number is read behind it. -/
theorem splitPortAt_cells (clean : 0 ∉ s) (rest : Block) :
    ∃ rest', splitPortAt (cells s rest) = .ok (cells (splitPort s).1 rest', (splitPort s).2) := by
  rw [splitPortAt, strchr_cells clean (by decide), ok_bind, splitPort]
  cases found : CString.strchr s 58 with
  | none => exact ⟨rest, rfl⟩
  | some colon =>
      obtain ⟨front, back, rfl, rfl, -⟩ := strchr_eq_some.mp found
      have cleanBack : 0 ∉ back :=
        clean_suffix clean ((List.suffix_cons 58 back).trans (List.suffix_append front _))
      have index : (front ++ 58 :: back).length - (58 :: back).length = front.length := by
        rw [List.length_append]
        omega
      have split : cells (front ++ 58 :: back) rest =
          front.map some ++ some 58 :: cells back rest := by
        simp [cells]
      have behind : (front.map some ++ some 0 :: cells back rest).drop front.length =
          some 0 :: cells back rest := List.drop_left' (List.length_map _)
      refine ⟨cells back rest, ?_⟩
      simp only [Option.map_some]
      rw [distance_cells (by rw [List.length_append]; omega), ok_bind, index, split,
        store_append (List.length_map _), ok_bind, behind, List.take_left]
      show (string (cells back rest) >>= _ >>= _ : Checked (Block × Int)) = _
      rw [string_cells cleanBack]
      rfl

/-- What a client can have as its host. -/
structure HostName (name : Bytes) : Prop where
  short : name.length ≤ 255
  nulFree : 0 ∉ name
  colon : 58 ∉ name
  return' : 13 ∉ name

theorem hostName_of_header {header : Bytes} (clean : 0 ∉ header) :
    HostName (splitPort (hostPort header)).1 := by
  obtain ⟨inHeader, short, return'⟩ := hostText_spec (header.dropWhile fun c => c = 32 || c = 9)
  obtain ⟨inText, colon⟩ := splitPort_spec (hostPort header)
  have whole := (inText.trans inHeader).sublist.trans (List.dropWhile_sublist _)
  exact ⟨Nat.le_trans inText.length_le short, fun member => clean (whole.subset member), colon,
    fun member => return' (inText.subset member)⟩

/-- From the header on: the text, the port in it, and the copy of what is left. -/
theorem fillHost_cells {header : Bytes} (clean : 0 ∉ header) (host : HostArray) :
    (do
      let (hostPort, port) ← splitPortAt (← hostPortAt (cells header rest))
      return some (← storeAll host.cells 0 ((← string hostPort) ++ [0]), port) :
        Checked (Option (Block × Int))) =
      .ok (some (cells (splitPort (hostPort header)).1
        (host.cells.drop ((splitPort (hostPort header)).1.length + 1)),
          (splitPort (hostPort header)).2)) := by
  have name := hostName_of_header clean
  have cleanText : 0 ∉ hostPort header := by
    have whole := (hostText_spec (header.dropWhile fun c => c = 32 || c = 9)).1.sublist.trans
      (List.dropWhile_sublist _)
    exact fun member => clean (whole.subset member)
  obtain ⟨_, split⟩ :=
    splitPortAt_cells cleanText ((malloc 256).drop ((hostPort header).length + 1))
  have room : (splitPort (hostPort header)).1.length < host.cells.length := by
    rw [host.size]
    exact Nat.lt_succ_of_le name.short
  rw [hostPortAt_cells clean, ok_bind, split, ok_bind]
  dsimp only
  rw [string_cells name.nulFree, ok_bind, strcpy_front room]
  rfl

theorem parseHostPortAt_cells (clean : 0 ∉ s) (host : HostArray) :
    parseHostPortAt (cells s rest) host =
      .ok ((parseHostPort s).map fun r => (cells r.1 (host.cells.drop (r.1.length + 1)), r.2)) := by
  have header : ∀ {pat t : Bytes}, CString.strstr s pat = some t → pat.length = 6 →
      6 ≤ t.length ∧ 0 ∉ t.drop 6 := by
    intro pat t found six
    exact ⟨six ▸ (strstr_starts found).length_le,
      clean_suffix clean ((List.drop_suffix _ _).trans (strstr_suffix found))⟩
  rw [parseHostPortAt, strstr_cells (by decide) clean, ok_bind, parseHostPort_eq]
  cases upper : CString.strstr s (bytes "\nHost:") with
  | some t =>
      obtain ⟨long, clean'⟩ := header upper rfl
      simp only [Option.map_some, Option.some_or]
      rw [pure_bind]
      dsimp only
      rw [advance_cells long, ok_bind]
      exact fillHost_cells clean' host
  | none =>
      simp only [Option.map_none, Option.none_or]
      rw [strstr_cells (by decide) clean, ok_bind]
      cases lower : CString.strstr s (bytes "\nhost:") with
      | some t =>
          obtain ⟨long, clean'⟩ := header lower rfl
          simp only [Option.map_some]
          rw [advance_cells long, ok_bind]
          exact fillHost_cells clean' host
      | none => rfl

theorem hostName_of_parse (clean : 0 ∉ s) {r : Bytes × Int} (parsed : parseHostPort s = some r) :
    HostName r.1 := by
  rw [parseHostPort_eq] at parsed
  obtain ⟨t, found, rfl⟩ := Option.map_eq_some_iff.mp parsed
  have suffix : t <:+ s := by
    rcases Option.or_eq_some_iff.mp found with found | ⟨-, found⟩
    · exact strstr_suffix found
    · exact strstr_suffix found
  exact hostName_of_header (clean_suffix clean ((List.drop_suffix 6 t).trans suffix))

end SimpleProxy
