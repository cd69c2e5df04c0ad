import SimpleProxy.Core.Config

/-!
# The settings in a configuration file

A piece of the file is an `entry` when it has one of the six keys in front of its first
`=`; the reader and the writer agree on that, although the reader looks for blank
and comment lines first. What the file means is the list of its entries
(`settings`), and rewriting the file replaces every value in that list
(`settings_rewritten`).
-/

namespace SimpleProxy

open Interact CString Files

variable {config : Config} {key : Key} {line piece v : Bytes}

/-- What `load_config` makes of the text of a file. -/
def loaded (f : Bytes) : Config := (pieces maxLine f).foldl loadLine createDefaultConfig

/-- What `update_config_file` writes for the text of a file. -/
def rewritten (config : Config) (f : Bytes) : Bytes :=
  (pieces maxLine f).flatMap (updateLine config)

/-- The key with this name. -/
def Key.ofName (name : Bytes) : Option Key := all.find? fun key => key.name = name

theorem Key.ofName_eq_some {name : Bytes} : ofName name = some key ↔ name = key.name := by
  constructor
  · intro h
    simpa [eq_comm] using List.find?_some h
  · rintro rfl
    cases key <;> rfl

/-- Any other text is none of the names in the source. -/
theorem Key.ofName_eq_none {name : Bytes} (h : ofName name = none) :
    name ≠ bytes "PORT" ∧ name ≠ bytes "DB_PORT" ∧ name ≠ bytes "DB_HOST" ∧
      name ≠ bytes "DB_DATABASE" ∧ name ≠ bytes "DB_USER" ∧ name ≠ bytes "DB_PASS" := by
  have other : ∀ key : Key, name ≠ key.name := by
    rintro key same
    rw [ofName_eq_some.mpr same] at h
    cases h
  exact ⟨other .port, other .dbPort, other .dbHost, other .dbDatabase, other .dbUser,
    other .dbPass⟩

/-- The key and the value of a piece of the file. -/
def entry (piece : Bytes) : Option (Key × Bytes) :=
  (keyAndValue (prepareLine (trimNewline (cstr piece)))).bind fun (name, value) =>
    (Key.ofName name).map fun key => (key, value)

/-- The entries of a file, in order. -/
def settings (f : Bytes) : List (Key × Bytes) := (pieces maxLine f).filterMap entry

/-! ## Reading a line -/

theorem prepareLine_nil : prepareLine [] = [] := rfl

/-- Nothing is read of a comment. -/
theorem prepareLine_comment (line : Bytes) : prepareLine (35 :: line) = [] := rfl

theorem entry_eq_none_of_skipped
    (h : trimNewline (cstr piece) = [] ∨ (trimNewline (cstr piece)).head? = some 35) :
    entry piece = none := by
  have nothing : prepareLine (trimNewline (cstr piece)) = [] := by
    rcases h with empty | comment
    · rw [empty, prepareLine_nil]
    · obtain ⟨rest, hrest⟩ := List.head?_eq_some_iff.mp comment
      rw [hrest, prepareLine_comment]
  rw [entry, nothing]
  rfl

/-- The reader's choice of a field. -/
theorem loadLine_eq (config : Config) (piece : Bytes) :
    loadLine config piece =
      match entry piece with
      | none => config
      | some (key, value) => config.set key value := by
  unfold loadLine
  dsimp only
  by_cases skipped : trimNewline (cstr piece) = [] ∨ (trimNewline (cstr piece)).head? = some 35
  · rw [if_pos skipped, entry_eq_none_of_skipped skipped]
  · rw [if_neg skipped, entry]
    cases keyAndValue (prepareLine (trimNewline (cstr piece))) with
    | none => rfl
    | some found =>
        obtain ⟨name, value⟩ := found
        dsimp only [Option.bind_some]
        cases hname : Key.ofName name with
        | none =>
            -- the reader tries the keys in another order than the writer
            obtain ⟨h₁, h₂, h₃, h₄, h₅, h₆⟩ := Key.ofName_eq_none hname
            rw [if_neg h₁, if_neg h₃, if_neg h₄, if_neg h₂, if_neg h₅, if_neg h₆]
            rfl
        | some key =>
            rw [Key.ofName_eq_some.mp hname]
            cases key <;> rfl

/-- The writer's choice of a line. -/
theorem updateLine_eq (config : Config) (piece : Bytes) :
    updateLine config piece =
      match entry piece with
      | none => cstr piece
      | some (key, _) => key.name ++ 61 :: config.value key ++ [10] := by
  unfold updateLine
  rw [entry]
  dsimp only
  cases keyAndValue (prepareLine (trimNewline (cstr piece))) with
  | none => rfl
  | some found =>
      obtain ⟨name, value⟩ := found
      dsimp only [Option.bind_some]
      cases hname : Key.ofName name with
      | none =>
          obtain ⟨h₁, h₂, h₃, h₄, h₅, h₆⟩ := Key.ofName_eq_none hname
          rw [if_neg h₁, if_neg h₂, if_neg h₃, if_neg h₄, if_neg h₅, if_neg h₆]
          rfl
      | some key =>
          rw [Key.ofName_eq_some.mp hname]
          cases key <;> rfl

/-! ## What is left of a line -/

/-- A character that `prepare_line` keeps. -/
def Plain (c : UInt8) : Prop := c ≠ 35 ∧ isspace c = false

instance : DecidablePred Plain := fun c => inferInstanceAs (Decidable (c ≠ 35 ∧ isspace c = false))

theorem prepareLine_append {a : Bytes} (plain : ∀ c ∈ a, Plain c) (b : Bytes) :
    prepareLine (a ++ b) = a ++ prepareLine b := by
  unfold prepareLine
  rw [List.takeWhile_append_of_pos (fun c hc => by simpa using (plain c hc).1), List.filter_append,
    List.filter_eq_self.mpr (fun c hc => by simp [(plain c hc).2])]

/-- White space at the end goes anyway. -/
theorem prepareLine_append_space {b : Bytes} (space : ∀ c ∈ b, isspace c = true) (a : Bytes) :
    prepareLine (a ++ b) = prepareLine a := by
  unfold prepareLine
  rw [List.takeWhile_append]
  split
  · rename_i whole
    have none : (b.takeWhile (· ≠ 35)).filter (fun c => !isspace c) = [] := by
      refine List.filter_eq_nil_iff.mpr fun c hc => ?_
      simp [space c ((List.takeWhile_prefix _).subset hc)]
    have all : a.takeWhile (fun x => decide (x ≠ 35)) = a :=
      (List.takeWhile_prefix _).eq_of_length whole
    rw [List.filter_append, none, List.append_nil, all]
  · rfl

theorem trimNewline_append (str : Bytes) :
    ∃ ends, str = trimNewline str ++ ends ∧ ∀ c ∈ ends, isspace c = true := by
  refine ⟨(str.reverse.takeWhile fun c => c = 10 || c = 13).reverse, ?_, fun c hc => ?_⟩
  · rw [trimNewline, ← List.reverse_append, List.takeWhile_append_dropWhile, List.reverse_reverse]
  · have newline := List.mem_takeWhile_imp (List.mem_reverse.mp hc)
    simp only [Bool.or_eq_true, decide_eq_true_eq] at newline
    rcases newline with rfl | rfl <;> decide

/-- The newline that `trim_newline` takes off, `prepare_line` would drop. -/
theorem prepareLine_trimNewline (str : Bytes) : prepareLine (trimNewline str) = prepareLine str := by
  obtain ⟨ends, hstr, space⟩ := trimNewline_append str
  exact (prepareLine_append_space space _).symm.trans (congrArg prepareLine hstr.symm)

/-- What is left has no comment and no white space. -/
theorem plain_of_mem_prepareLine {c : UInt8} (h : c ∈ prepareLine line) : Plain c := by
  obtain ⟨inFront, keeps⟩ := List.mem_filter.mp h
  exact ⟨by simpa using List.mem_takeWhile_imp inFront, by simpa using keeps⟩

theorem prepareLine_of_plain (plain : ∀ c ∈ line, Plain c) : prepareLine line = line := by
  have := prepareLine_append plain []
  rwa [prepareLine_nil, List.append_nil] at this

/-- A text survives if and only if nothing in it is dropped. -/
theorem prepareLine_eq_self : prepareLine line = line ↔ ∀ c ∈ line, Plain c := by
  constructor
  · intro same c hc
    rw [← same] at hc
    exact plain_of_mem_prepareLine hc
  · exact prepareLine_of_plain

theorem prepareLine_sublist (line : Bytes) : (prepareLine line).Sublist line :=
  List.filter_sublist.trans (List.takeWhile_sublist _)

/-- The split is at the first `=`. -/
theorem keyAndValue_eq_some {name : Bytes} :
    keyAndValue line = some (name, v) ↔ line = name ++ 61 :: v ∧ 61 ∉ name := by
  unfold keyAndValue
  rw [Option.map_eq_some_iff]
  constructor
  · rintro ⟨t, found, hpair⟩
    obtain ⟨front, rest, rfl, rfl, clean⟩ := strchr_eq_some.mp found
    obtain ⟨hname, hvalue⟩ := Prod.mk.inj hpair
    rw [List.length_append, Nat.add_sub_cancel, List.take_left] at hname
    rw [List.drop_succ_cons, List.drop_zero] at hvalue
    exact ⟨by rw [hname, hvalue], hname ▸ clean⟩
  · rintro ⟨rfl, clean⟩
    refine ⟨61 :: v, strchr_eq_some.mpr ⟨name, v, rfl, rfl, clean⟩, ?_⟩
    rw [List.length_append, Nat.add_sub_cancel, List.take_left]
    rfl

theorem Key.plain_name (key : Key) : ∀ c ∈ key.name, Plain c := by
  have all : key.name.all (fun c => decide (Plain c)) = true := by
    cases key <;> decide
  intro c hc
  exact of_decide_eq_true (List.all_eq_true.mp all c hc)

theorem Key.not_mem_name (key : Key) : 61 ∉ key.name ∧ 10 ∉ key.name ∧ 0 ∉ key.name := by
  cases key <;> decide

/-- A piece is an entry when the text that is left of it starts with a key and `=`. -/
theorem entry_eq_some :
    entry piece = some (key, v) ↔ prepareLine (cstr piece) = key.name ++ 61 :: v := by
  rw [entry, prepareLine_trimNewline, Option.bind_eq_some_iff]
  constructor
  · rintro ⟨⟨name, v'⟩, split, found⟩
    obtain ⟨key', hkey, hpair⟩ := Option.map_eq_some_iff.mp found
    obtain ⟨rfl, rfl⟩ := Prod.mk.inj hpair
    rw [(keyAndValue_eq_some.mp split).1, Key.ofName_eq_some.mp hkey]
  · intro h
    exact ⟨(key.name, v), keyAndValue_eq_some.mpr ⟨h, key.not_mem_name.1⟩,
      Option.map_eq_some_iff.mpr ⟨key, Key.ofName_eq_some.mpr rfl, rfl⟩⟩

/-- What is read of a line that was written, with its newline or without. -/
theorem entry_written (key : Key) (clean : 0 ∉ v) (newline : Bytes) (h : newline = [] ∨ newline = [10]) :
    entry (key.name ++ 61 :: v ++ newline) = some (key, prepareLine v) := by
  have nulFree : 0 ∉ key.name ++ 61 :: v ++ newline := by
    rw [List.mem_append, List.mem_append, List.mem_cons, not_or, not_or, not_or]
    refine ⟨⟨key.not_mem_name.2.2, by decide, clean⟩, ?_⟩
    rcases h with rfl | rfl <;> decide
  have equals : ∀ c ∈ [(61 : UInt8)], Plain c := List.forall_mem_singleton.mpr (by decide)
  have space : ∀ c ∈ newline, isspace c = true := by
    rcases h with rfl | rfl
    · exact List.forall_mem_nil _
    · exact List.forall_mem_singleton.mpr rfl
  rw [entry_eq_some, cstr_of_not_mem nulFree, prepareLine_append_space space,
    prepareLine_append key.plain_name]
  exact congrArg (key.name ++ ·) (prepareLine_append equals v)

/-! ## Rewriting a file -/

theorem two_le_maxLine : 2 ≤ maxLine := by decide

/-- The line of a key fits the buffer of the reader but for its newline, and nothing in it
ends a line or a string. -/
structure Config.Writable (config : Config) (key : Key) : Prop where
  nulFree : 0 ∉ config.value key
  oneLine : 10 ∉ config.value key
  fits : key.name.length + (config.value key).length + 1 < maxLine

theorem rewritten_whole (whole : Whole maxLine piece) (rest : Bytes) :
    rewritten config (piece ++ rest) = updateLine config piece ++ rewritten config rest := by
  rw [rewritten, pieces_whole whole, List.flatMap_cons]
  rfl

theorem settings_whole (whole : Whole maxLine piece) (rest : Bytes) :
    settings (piece ++ rest) = (entry piece).toList ++ settings rest := by
  rw [settings, pieces_whole whole, List.filterMap_cons]
  cases entry piece <;> rfl

/-- The entries of whole lines are read for themselves. -/
theorem settings_lines {lines : List Bytes} (fit : ∀ line ∈ lines, 10 ∉ line ∧ line.length + 1 < maxLine)
    (rest : Bytes) : settings ((lines.map (· ++ [10])).flatten ++ rest) =
      (lines.map (· ++ [10])).filterMap entry ++ settings rest := by
  have whole : ∀ piece ∈ lines.map (· ++ [10]), Whole maxLine piece := by
    intro piece hpiece
    obtain ⟨line, hline, rfl⟩ := List.mem_map.mp hpiece
    exact .inl ⟨line, rfl, fit line hline⟩
  rw [settings, pieces_append whole, List.filterMap_append]
  rfl

/-- What is written for an entry is read as an entry with the new value. -/
theorem settings_written (writable : config.Writable key) (rest : Bytes) :
    settings (key.name ++ 61 :: config.value key ++ [10] ++ rest) =
      (key, prepareLine (config.value key)) :: settings rest := by
  have clean : 10 ∉ key.name ++ 61 :: config.value key := by
    rw [List.mem_append, List.mem_cons, not_or, not_or]
    exact ⟨key.not_mem_name.2.1, by decide, writable.oneLine⟩
  have fits : (key.name ++ 61 :: config.value key).length < maxLine := by
    rw [List.length_append, List.length_cons]
    exact writable.fits
  obtain ⟨cut, whole, hflat, hcut⟩ := pieces_line two_le_maxLine clean fits
  have written : ∀ newline, newline = [] ∨ newline = [10] →
      entry (key.name ++ 61 :: config.value key ++ newline) =
        some (key, prepareLine (config.value key)) :=
    fun newline => entry_written key writable.nulFree newline
  rw [settings, ← hflat, pieces_append whole, List.filterMap_append]
  rcases hcut with rfl | rfl
  · rw [List.filterMap_cons_some (written [10] (.inr rfl)), List.filterMap_nil]
    rfl
  · -- the newline of a full line is a piece of its own, and no entry
    have bare : entry (key.name ++ 61 :: config.value key) =
        some (key, prepareLine (config.value key)) := by
      simpa using written [] (.inl rfl)
    have blank : entry [10] = none := by decide
    rw [List.filterMap_cons_some bare, List.filterMap_cons_none blank, List.filterMap_nil]
    rfl

/-- **Rewriting.** The file that is written has the entries of the old one, with the new
values. -/
theorem settings_rewritten (writable : ∀ key, config.Writable key) {f : Bytes} (nulFree : 0 ∉ f) :
    settings (rewritten config f) =
      (settings f).map fun old => (old.1, prepareLine (config.value old.1)) := by
  induction f using pieces_induction two_le_maxLine with
  | nil =>
      have none : settings [] = [] := by rw [settings, pieces_nil, List.filterMap_nil]
      rw [rewritten, pieces_nil, List.flatMap_nil, none, List.map_nil]
  | whole piece rest hwhole ih =>
      rw [List.mem_append, not_or] at nulFree
      obtain ⟨hpiece, hrest⟩ := nulFree
      rw [rewritten_whole hwhole, settings_whole hwhole, updateLine_eq]
      cases hentry : entry piece with
      | none =>
          dsimp only
          rw [cstr_of_not_mem hpiece, settings_whole hwhole, hentry, ih hrest]
          rfl
      | some found =>
          obtain ⟨key, value⟩ := found
          dsimp only
          rw [settings_written (writable key), ih hrest]
          rfl
  | last piece hlast =>
      have one : rewritten config piece = updateLine config piece := by
        rw [rewritten, pieces_last hlast, List.flatMap_cons, List.flatMap_nil, List.append_nil]
      have single : settings piece = (entry piece).toList := by
        rw [settings, pieces_last hlast]
        cases h : entry piece with
        | none => rw [List.filterMap_cons_none h, List.filterMap_nil, Option.toList_none]
        | some found => rw [List.filterMap_cons_some h, List.filterMap_nil, Option.toList_some]
      rw [one, updateLine_eq, single]
      cases hentry : entry piece with
      | none =>
          dsimp only
          rw [cstr_of_not_mem nulFree, single, hentry]
          rfl
      | some found =>
          obtain ⟨key, value⟩ := found
          dsimp only
          have written := settings_written (writable key) []
          rw [List.append_nil] at written
          rw [written, settings, pieces_nil, List.filterMap_nil]
          rfl

/-! ## Setting the fields -/

/-- Both configurations have the same under this key. -/
def Config.Agree (c c' : Config) (key : Key) : Prop :=
  match key with
  | .port => c.port = c'.port
  | .dbPort => c.dbPort = c'.dbPort
  | .dbHost => c.dbHost = c'.dbHost
  | .dbDatabase => c.dbDatabase = c'.dbDatabase
  | .dbUser => c.dbUser = c'.dbUser
  | .dbPass => c.dbPass = c'.dbPass

theorem Config.eq_iff_agree {c c' : Config} : c = c' ↔ ∀ key, c.Agree c' key := by
  constructor
  · rintro rfl key
    cases key <;> rfl
  · intro h
    obtain ⟨port, dbPort, dbHost, dbDatabase, dbUser, dbPass⟩ := c
    have h₁ : port = c'.port := h .port
    have h₂ : dbPort = c'.dbPort := h .dbPort
    have h₃ : dbHost = c'.dbHost := h .dbHost
    have h₄ : dbDatabase = c'.dbDatabase := h .dbDatabase
    have h₅ : dbUser = c'.dbUser := h .dbUser
    have h₆ : dbPass = c'.dbPass := h .dbPass
    rw [h₁, h₂, h₃, h₄, h₅, h₆]

theorem loaded_eq (f : Bytes) :
    loaded f = (settings f).foldl (fun config found => config.set found.1 found.2)
      createDefaultConfig := by
  unfold loaded settings
  generalize createDefaultConfig = config
  induction pieces maxLine f generalizing config with
  | nil => rfl
  | cons piece rest ih =>
      rw [List.foldl_cons, ih, loadLine_eq, List.filterMap_cons]
      cases entry piece <;> rfl

namespace Config

variable {c c' c₁ : Config}

theorem Agree.trans (h₁ : c.Agree c₁ key) (h₂ : c₁.Agree c' key) : c.Agree c' key := by
  cases key <;> exact Eq.trans h₁ h₂

theorem Agree.symm (h : c.Agree c' key) : c'.Agree c key := by
  cases key <;> exact Eq.symm h

theorem agree_set_self (c c' : Config) (key : Key) (v : Bytes) :
    (c.set key v).Agree (c'.set key v) key := by
  cases key <;> rfl

theorem agree_set_of_ne {key' : Key} (h : key' ≠ key) (c : Config) (v : Bytes) :
    (c.set key' v).Agree c key := by
  cases key <;> cases key' <;> first | rfl | exact absurd rfl h

/-- The keys that are not found stay as they are. -/
theorem foldl_set_of_not_mem {found : List (Key × Bytes)} (h : ∀ e ∈ found, e.1 ≠ key)
    (c : Config) : (found.foldl (fun config e => config.set e.1 e.2) c).Agree c key := by
  induction found generalizing c with
  | nil => cases key <;> rfl
  | cons e rest ih =>
      obtain ⟨first, others⟩ := List.forall_mem_cons.mp h
      exact (ih others _).trans (agree_set_of_ne first c e.2)

/-- A key that is found with only one value is set to it. -/
theorem foldl_set_of_mem {found : List (Key × Bytes)} (all : ∀ e ∈ found, e.1 = key → e.2 = v)
    (mem : ∃ e ∈ found, e.1 = key) (c c' : Config) :
    (found.foldl (fun config e => config.set e.1 e.2) c).Agree (c'.set key v) key := by
  induction found generalizing c with
  | nil =>
      obtain ⟨e, he, -⟩ := mem
      cases he
  | cons e rest ih =>
      obtain ⟨first, others⟩ := List.forall_mem_cons.mp all
      rw [List.foldl_cons]
      by_cases later : ∃ e ∈ rest, e.1 = key
      -- the last entry of the key decides
      · exact ih others later _
      · have last := foldl_set_of_not_mem (fun e he same => later ⟨e, he, same⟩)
          (c.set e.1 e.2)
        have here : e.1 = key := by
          obtain ⟨e', he', same⟩ := mem
          rcases List.mem_cons.mp he' with rfl | he'
          · exact same
          · exact absurd ⟨e', he', same⟩ later
        rw [here, first here] at last ⊢
        exact last.trans (agree_set_self c c' key v)

end Config

/-- Some piece of the file that `fgets` reads is an entry of this key. -/
def Mentions (f : Bytes) (key : Key) : Prop :=
  ∃ piece ∈ pieces maxLine f, ∃ value, entry piece = some (key, value)

theorem mentions_iff {f : Bytes} : Mentions f key ↔ ∃ found ∈ settings f, found.1 = key := by
  constructor
  · rintro ⟨piece, hpiece, value, h⟩
    exact ⟨(key, value), List.mem_filterMap.mpr ⟨piece, hpiece, h⟩, rfl⟩
  · rintro ⟨⟨key', value⟩, hfound, rfl⟩
    obtain ⟨piece, hpiece, h⟩ := List.mem_filterMap.mp hfound
    exact ⟨piece, hpiece, value, h⟩

/-- The value that is read back of the line for the key is the one that was written. -/
def Config.ReadsBack (config : Config) (key : Key) : Prop :=
  (config.set key (prepareLine (config.value key))).Agree config key

/-- A key that has a line is set to what is left of its new value. -/
theorem agree_of_mentions (writable : ∀ key, config.Writable key) {f : Bytes} (nulFree : 0 ∉ f)
    (mentioned : Mentions f key) :
    (loaded (rewritten config f)).Agree (config.set key (prepareLine (config.value key))) key := by
  obtain ⟨old, hold, hkey⟩ := mentions_iff.mp mentioned
  rw [loaded_eq, settings_rewritten writable nulFree]
  refine Config.foldl_set_of_mem ?_ ⟨_, List.mem_map_of_mem hold, hkey⟩ createDefaultConfig config
  intro e he same
  obtain ⟨old, -, rfl⟩ := List.mem_map.mp he
  rw [← same]

/-- A key that has no line is not set. -/
theorem agree_of_not_mentions (writable : ∀ key, config.Writable key) {f : Bytes}
    (nulFree : 0 ∉ f) (absent : ¬ Mentions f key) :
    (loaded (rewritten config f)).Agree createDefaultConfig key := by
  rw [loaded_eq, settings_rewritten writable nulFree]
  refine Config.foldl_set_of_not_mem ?_ createDefaultConfig
  intro e he same
  obtain ⟨old, hold, rfl⟩ := List.mem_map.mp he
  exact absent (mentions_iff.mpr ⟨old, hold, same⟩)

/-- **Reading back.** The rewritten file means the configuration if and only if every
key has a line and is read back, or has none and is not set. -/
theorem loaded_rewritten_iff (writable : ∀ key, config.Writable key) {f : Bytes}
    (nulFree : 0 ∉ f) :
    loaded (rewritten config f) = config ↔
      ∀ key, (Mentions f key ∧ config.ReadsBack key) ∨
        (¬ Mentions f key ∧ createDefaultConfig.Agree config key) := by
  rw [Config.eq_iff_agree]
  refine forall_congr' fun key => ?_
  by_cases mentioned : Mentions f key
  · have set := agree_of_mentions writable nulFree mentioned
    rw [or_iff_left fun h => h.1 mentioned, and_iff_right mentioned]
    exact ⟨fun h => set.symm.trans h, fun h => set.trans h⟩
  · have kept := agree_of_not_mentions writable nulFree mentioned
    rw [or_iff_right fun h => mentioned h.1, and_iff_right mentioned]
    exact ⟨fun h => kept.symm.trans h, fun h => kept.trans h⟩

/-- Everything is set, and the ports are numbers. -/
structure Config.Complete (config : Config) : Prop where
  port : IsInt config.port
  dbPort : IsInt config.dbPort
  dbHost : config.dbHost.isSome = true
  dbDatabase : config.dbDatabase.isSome = true
  dbUser : config.dbUser.isSome = true
  dbPass : config.dbPass.isSome = true

theorem plain_decimal (n : Int) : ∀ c ∈ decimal n, Plain c := by
  intro c hc
  rcases mem_decimal hc with rfl | digit
  · decide
  · refine ⟨?_, isspace_of_isdigit digit⟩
    rintro rfl
    exact absurd digit (by decide)

/-- A value is read back if and only if nothing in it is dropped. -/
theorem Config.Complete.readsBack_iff (complete : config.Complete) (key : Key) :
    config.ReadsBack key ↔ ∀ c ∈ config.value key, Plain c := by
  have number : ∀ {n : Int}, IsInt n → (atoi (prepareLine (decimal n)) = n ↔
      ∀ c ∈ decimal n, Plain c) := by
    intro n range
    have plain := plain_decimal n
    rw [prepareLine_of_plain plain]
    exact iff_of_true (atoi_decimal range) plain
  have text : ∀ {s : Option Bytes}, s.isSome = true → (some (prepareLine (s.getD [])) = s ↔
      ∀ c ∈ s.getD [], Plain c) := by
    intro s set
    obtain ⟨v, rfl⟩ := Option.isSome_iff_exists.mp set
    rw [← prepareLine_eq_self]
    exact Option.some_inj
  cases key with
  | port => exact number complete.port
  | dbPort => exact number complete.dbPort
  | dbHost => exact text complete.dbHost
  | dbDatabase => exact text complete.dbDatabase
  | dbUser => exact text complete.dbUser
  | dbPass => exact text complete.dbPass

/-! ## Values that survive -/

/-- A value that a file can have for the key. -/
structure FileValue (key : Key) (v : Bytes) : Prop where
  plain : ∀ c ∈ v, Plain c
  nulFree : 0 ∉ v
  fits : key.name.length + v.length + 1 < maxLine

theorem fileValue_of_entry {f : Bytes} (hpiece : piece ∈ pieces maxLine f)
    (h : entry piece = some (key, v)) : FileValue key v := by
  have whole := entry_eq_some.mp h
  have member : ∀ c ∈ v, c ∈ prepareLine (cstr piece) := by
    intro c hc
    rw [whole]
    exact List.mem_append_right _ (List.mem_cons_of_mem _ hc)
  refine ⟨fun c hc => plain_of_mem_prepareLine (member c hc), fun nul => ?_, ?_⟩
  · exact not_mem_cstr piece ((prepareLine_sublist _).subset (member 0 nul))
  · have hpieces := length_lt_of_mem_pieces two_le_maxLine hpiece
    have hstring := (cstr_starts piece).length_le
    have hline := (prepareLine_sublist (cstr piece)).length_le
    rw [whole, List.length_append, List.length_cons] at hline
    omega

theorem fileValue_decimal {n : Int} (range : IsInt n) (key : Key) : FileValue key (decimal n) := by
  have short := length_decimal range
  have hname : key.name.length ≤ 11 := by cases key <;> decide
  have big : maxLine = 512 := rfl
  refine ⟨plain_decimal n, fun nul => ?_, by omega⟩
  rcases mem_decimal nul with h | h <;> exact absurd h (by decide)

theorem fileValue_nil (key : Key) : FileValue key [] := by
  cases key <;> exact ⟨by simp, by simp, by decide⟩

theorem FileValue.writable (h : FileValue key (config.value key)) : config.Writable key where
  nulFree := h.nulFree
  oneLine newline := absurd (h.plain _ newline) (by decide)
  fits := h.fits

/-! ## Configurations from setup -/

/-- The strings of a configuration. -/
def Config.strings (config : Config) : List (Option Bytes) :=
  [config.dbHost, config.dbDatabase, config.dbUser, config.dbPass]

/-- A configuration `cmd_setup` can hand over: ports in range, and strings as
`get_input` returns them. -/
structure FromSetup (config : Config) : Prop where
  port : 1 ≤ config.port ∧ config.port ≤ 65535
  dbPort : 1 ≤ config.dbPort ∧ config.dbPort ≤ 65535
  strings : ∀ s ∈ config.strings, ∃ v, s = some v ∧ v ≠ [] ∧ v.length ≤ 255 ∧ 0 ∉ v ∧ 10 ∉ v

namespace FromSetup

theorem complete (setup : FromSetup config) : config.Complete := by
  have set : ∀ s ∈ config.strings, s.isSome = true := by
    intro s hs
    obtain ⟨v, rfl, -⟩ := setup.strings s hs
    rfl
  simp only [Config.strings, List.forall_mem_cons] at set
  obtain ⟨dbHost, dbDatabase, dbUser, dbPass, -⟩ := set
  have hport := setup.port
  have hdbPort := setup.dbPort
  exact ⟨⟨by omega, by omega⟩, ⟨by omega, by omega⟩, dbHost, dbDatabase, dbUser, dbPass⟩

/-- A value is the text of a port or one of the strings. -/
theorem value_cases (setup : FromSetup config) (key : Key) :
    (∃ n, IsInt n ∧ config.value key = decimal n) ∨
      ∃ v, some v ∈ config.strings ∧ config.value key = v := by
  have complete := setup.complete
  have text : ∀ {s : Option Bytes}, s.isSome = true → s ∈ config.strings →
      ∃ v, some v ∈ config.strings ∧ s.getD [] = v := by
    intro s set hs
    obtain ⟨v, rfl⟩ := Option.isSome_iff_exists.mp set
    exact ⟨v, hs, rfl⟩
  cases key with
  | port => exact .inl ⟨_, complete.port, rfl⟩
  | dbPort => exact .inl ⟨_, complete.dbPort, rfl⟩
  | dbHost => exact .inr (text complete.dbHost (by simp [Config.strings]))
  | dbDatabase => exact .inr (text complete.dbDatabase (by simp [Config.strings]))
  | dbUser => exact .inr (text complete.dbUser (by simp [Config.strings]))
  | dbPass => exact .inr (text complete.dbPass (by simp [Config.strings]))

theorem writable (setup : FromSetup config) (key : Key) : config.Writable key := by
  rcases setup.value_cases key with ⟨n, range, h⟩ | ⟨v, hv, h⟩
  · have value := fileValue_decimal range key
    rw [← h] at value
    exact value.writable
  · obtain ⟨v', hv', -, short, nulFree, oneLine⟩ := setup.strings _ hv
    cases hv'
    have hname : key.name.length ≤ 11 := by cases key <;> decide
    have big : maxLine = 512 := rfl
    exact ⟨by rw [h]; exact nulFree, by rw [h]; exact oneLine, by rw [h]; omega⟩

/-- Nothing in a value is dropped, if nothing in a string is. -/
theorem plain_value (setup : FromSetup config)
    (plain : ∀ s ∈ config.strings, ∀ v, s = some v → ∀ c ∈ v, Plain c) (key : Key) :
    ∀ c ∈ config.value key, Plain c := by
  rcases setup.value_cases key with ⟨n, -, h⟩ | ⟨v, hv, h⟩
  · rw [h]
    exact plain_decimal n
  · rw [h]
    exact plain _ hv v rfl

/-- Nothing that setup sets is what an empty file means. -/
theorem not_agree_default (setup : FromSetup config) (key : Key) :
    ¬ createDefaultConfig.Agree config key := by
  intro same
  have hport := setup.port
  have hdbPort := setup.dbPort
  have complete := setup.complete
  have text : ∀ {s : Option Bytes}, s.isSome = true → none ≠ s := by
    rintro _ set rfl
    cases set
  cases key with
  | port =>
      have h : 0 = config.port := same
      omega
  | dbPort =>
      have h : 0 = config.dbPort := same
      omega
  | dbHost => exact text complete.dbHost same
  | dbDatabase => exact text complete.dbDatabase same
  | dbUser => exact text complete.dbUser same
  | dbPass => exact text complete.dbPass same

/-- What setup writes is read back if and only if every key has a line and nothing in
a value is dropped. -/
theorem loaded_rewritten (setup : FromSetup config) {f : Bytes} (nulFree : 0 ∉ f) :
    loaded (rewritten config f) = config ↔
      ∀ key, Mentions f key ∧ ∀ c ∈ config.value key, Plain c := by
  rw [loaded_rewritten_iff setup.writable nulFree]
  refine forall_congr' fun key => ?_
  rw [or_iff_left fun h => setup.not_agree_default key h.2, setup.complete.readsBack_iff]

end FromSetup

/-! ## Configurations from a file -/

/-- What a file can mean. -/
structure FromFile (config : Config) : Prop where
  port : IsInt config.port
  dbPort : IsInt config.dbPort
  values : ∀ key, FileValue key (config.value key)

namespace FromFile

theorem default : FromFile createDefaultConfig := by
  have zero : IsInt 0 := ⟨by decide, by decide⟩
  refine ⟨zero, zero, fun key => ?_⟩
  cases key with
  | port => exact fileValue_decimal zero _
  | dbPort => exact fileValue_decimal zero _
  | _ => exact fileValue_nil _

theorem set (h : FromFile config) (value : FileValue key v) : FromFile (config.set key v) := by
  have other : ∀ {key' : Key}, key' ≠ key → (config.set key v).value key' = config.value key' := by
    intro key' hne
    cases key <;> cases key' <;> first | rfl | exact absurd rfl hne
  have values : ∀ key', FileValue key' ((config.set key v).value key') := by
    intro key'
    by_cases same : key' = key
    · subst same
      cases key' with
      | port => exact fileValue_decimal (isInt_atoi v) _
      | dbPort => exact fileValue_decimal (isInt_atoi v) _
      | _ => exact value
    · rw [other same]
      exact h.values key'
  cases key with
  | port => exact ⟨isInt_atoi v, h.dbPort, values⟩
  | dbPort => exact ⟨h.port, isInt_atoi v, values⟩
  | _ => exact ⟨h.port, h.dbPort, values⟩

theorem loaded (g : Bytes) : FromFile (loaded g) := by
  have all : ∀ found ∈ settings g, FileValue found.1 found.2 := by
    intro found hfound
    obtain ⟨piece, hpiece, h⟩ := List.mem_filterMap.mp hfound
    exact fileValue_of_entry hpiece h
  have fold : ∀ (entries : List (Key × Bytes)) (start : Config), FromFile start →
      (∀ found ∈ entries, FileValue found.1 found.2) →
      FromFile (entries.foldl (fun config found => config.set found.1 found.2) start) := by
    intro entries
    induction entries with
    | nil => exact fun start h _ => h
    | cons found rest ih =>
        intro start h all
        obtain ⟨first, others⟩ := List.forall_mem_cons.mp all
        exact ih _ (h.set first) others
  rw [loaded_eq]
  exact fold _ _ default all

theorem complete (h : FromFile config) (checked : checkConfig config = true) :
    config.Complete := by
  simp only [checkConfig, Bool.and_eq_true] at checked
  obtain ⟨⟨⟨⟨⟨dbDatabase, dbUser⟩, dbPass⟩, dbHost⟩, -⟩, -⟩ := checked
  exact ⟨h.port, h.dbPort, dbHost, dbDatabase, dbUser, dbPass⟩

/-- A checked configuration that was read from a file is read back. -/
theorem loaded_rewritten (h : FromFile config) (checked : checkConfig config = true) {f : Bytes}
    (nulFree : 0 ∉ f) (mentions : ∀ key, Mentions f key) :
    SimpleProxy.loaded (rewritten config f) = config := by
  rw [loaded_rewritten_iff (fun key => (h.values key).writable) nulFree]
  exact fun key => .inl ⟨mentions key,
    ((h.complete checked).readsBack_iff key).mpr (h.values key).plain⟩

end FromFile

end SimpleProxy
