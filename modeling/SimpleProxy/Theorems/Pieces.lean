import Mathlib.Data.List.Induction
import SimpleProxy.Theorems.ConfigFile

/-!
# The configuration file in pieces

Both loops of `config.c` work on what `fgets` returns, which is a line or 511 bytes of
one. The writer replaces whole pieces, so what it writes is cut in the same places
again; the reader takes the tail of a long line for a line of its own.
-/

namespace SimpleProxy.Theorems.Pieces

open Interact CString Files ConfigFile

variable {config : Config} {d d' d'' : Disk} {filename path f piece : Bytes} {key : Key}

/-! ## Writing twice -/

/-- Strings as the configuration programs keep them, and ports of type `int`. -/
structure Storable (config : Config) : Prop where
  port : IsInt config.port
  dbPort : IsInt config.dbPort
  strings : ∀ s ∈ config.strings, ∀ v, s = some v → v.length ≤ 255 ∧ 0 ∉ v ∧ 10 ∉ v

/-- The line that is written for a key. -/
def written (config : Config) (key : Key) : Bytes := key.name ++ 61 :: config.value key ++ [10]

/-- What takes the place of a piece. -/
def replaced (config : Config) (piece : Bytes) : Bytes :=
  match entry piece with
  | none => piece
  | some (key, _) => written config key

theorem Storable.value (storable : Storable config) (key : Key) :
    (config.value key).length ≤ 255 ∧ 0 ∉ config.value key ∧ 10 ∉ config.value key := by
  have number : ∀ {n : Int}, IsInt n →
      (decimal n).length ≤ 255 ∧ 0 ∉ decimal n ∧ 10 ∉ decimal n := by
    intro n range
    have short := length_decimal range
    refine ⟨by omega, fun nul => ?_, fun newline => ?_⟩
    · rcases mem_decimal nul with h | h <;> exact absurd h (by decide)
    · rcases mem_decimal newline with h | h <;> exact absurd h (by decide)
  have text : ∀ {s : Option Bytes}, s ∈ config.strings →
      (s.getD []).length ≤ 255 ∧ 0 ∉ s.getD [] ∧ 10 ∉ s.getD [] := by
    intro s hs
    cases s with
    | none => exact ⟨Nat.zero_le _, List.not_mem_nil, List.not_mem_nil⟩
    | some v => exact storable.strings _ hs v rfl
  cases key with
  | port => exact number storable.port
  | dbPort => exact number storable.dbPort
  | dbHost => exact text (by simp [Config.strings])
  | dbDatabase => exact text (by simp [Config.strings])
  | dbUser => exact text (by simp [Config.strings])
  | dbPass => exact text (by simp [Config.strings])

/-- The line for a key is read in one piece. -/
theorem Storable.whole (storable : Storable config) (key : Key) :
    Whole maxLine (written config key) := by
  obtain ⟨short, -, oneLine⟩ := storable.value key
  refine .inl ⟨key.name ++ 61 :: config.value key, rfl, ?_, ?_⟩
  · rw [List.mem_append, List.mem_cons, not_or, not_or]
    exact ⟨key.not_mem_name.2.1, by decide, oneLine⟩
  · have hname : key.name.length ≤ 11 := by cases key <;> decide
    have big : maxLine = 512 := rfl
    rw [List.length_append, List.length_cons]
    omega

/-- And is the line of this key. -/
theorem Storable.replaced_written (storable : Storable config) (key : Key) :
    replaced config (written config key) = written config key := by
  rw [replaced, written, entry_written key (storable.value key).2.1 [10] (.inr rfl)]
  rfl

theorem replaced_cases (config : Config) (piece : Bytes) :
    replaced config piece = piece ∨ ∃ key, replaced config piece = written config key := by
  unfold replaced
  cases entry piece with
  | none => exact .inl rfl
  | some found => exact .inr ⟨found.1, rfl⟩

theorem Storable.replaced_replaced (storable : Storable config) (piece : Bytes) :
    replaced config (replaced config piece) = replaced config piece := by
  rcases replaced_cases config piece with same | ⟨key, new⟩
  · rw [same, same]
  · rw [new, storable.replaced_written]

/-- Rewriting replaces the pieces of a file one by one. -/
theorem rewritten_eq (config : Config) (nulFree : 0 ∉ f) :
    rewritten config f = ((pieces maxLine f).map (replaced config)).flatten := by
  rw [rewritten, List.flatMap_def]
  refine congrArg List.flatten (List.map_congr_left fun piece hpiece => ?_)
  have clean : 0 ∉ piece := fun nul => nulFree (mem_of_mem_pieces two_le_maxLine hpiece nul)
  rw [updateLine_eq, replaced, cstr_of_not_mem clean]
  rfl

/-- A rewritten file is cut into the pieces that were written. -/
theorem Storable.pieces_rewritten (storable : Storable config) (nulFree : 0 ∉ f) :
    pieces maxLine (rewritten config f) = (pieces maxLine f).map (replaced config) := by
  rw [rewritten_eq config nulFree]
  refine pieces_map_flatten two_le_maxLine (fun piece whole => ?_) (fun piece last => ?_) f
  · rcases replaced_cases config piece with same | ⟨key, new⟩
    · rwa [same]
    · rw [new]
      exact storable.whole key
  · rcases replaced_cases config piece with same | ⟨key, new⟩
    · rw [same]
      exact .inr last
    · rw [new]
      exact .inl (storable.whole key)

theorem Storable.not_mem_rewritten (storable : Storable config) (nulFree : 0 ∉ f) :
    0 ∉ rewritten config f := by
  rw [rewritten_eq config nulFree]
  intro nul
  obtain ⟨new, hnew, hnul⟩ := List.mem_flatten.mp nul
  obtain ⟨piece, hpiece, rfl⟩ := List.mem_map.mp hnew
  rcases replaced_cases config piece with same | ⟨key, new⟩
  · rw [same] at hnul
    exact nulFree (mem_of_mem_pieces two_le_maxLine hpiece hnul)
  · rw [new, written, List.mem_append, List.mem_append, List.mem_cons] at hnul
    rcases hnul with (name | equals | value) | newline
    · exact key.not_mem_name.2.2 name
    · exact absurd equals (by decide)
    · exact (storable.value key).2.1 value
    · exact absurd newline (by decide)

/-- **Updating.** The file is what it was, piece by piece, with a new line in the place of
each piece that has one of the keys; and updating it again changes nothing. -/
theorem updated_once (storable : Storable config) (hf : d.content filename = some f)
    (nulFree : 0 ∉ f) (updated : Updates d filename config d') :
    d'.content filename = some ((pieces maxLine f).map (replaced config)).flatten ∧
      ∀ d'', Updates d' filename config d'' → d''.content filename = d'.content filename := by
  obtain ⟨f', hf', hcontent⟩ := updated.content
  obtain rfl := Option.some.inj (hf.symm.trans hf')
  refine ⟨by rw [hcontent, rewritten_eq config nulFree], fun d'' again => ?_⟩
  obtain ⟨g, hg, hcontent'⟩ := again.content
  obtain rfl := Option.some.inj (hcontent.symm.trans hg)
  have same : replaced config ∘ replaced config = replaced config :=
    funext storable.replaced_replaced
  rw [hcontent', hcontent, rewritten_eq config (storable.not_mem_rewritten nulFree),
    storable.pieces_rewritten nulFree, List.map_map, same, ← rewritten_eq config nulFree]

theorem storable_secret : Storable (sampleConfig (bytes "secret")) where
  port := ⟨by decide, by decide⟩
  dbPort := ⟨by decide, by decide⟩
  strings s hs v hv := by
    obtain ⟨v', rfl, -, short, nulFree, oneLine⟩ := fromSetup_secret.strings s hs
    cases hv
    exact ⟨short, nulFree, oneLine⟩

theorem updated_once_secret :
    ∃ d' d'', Updates (diskWith sampleFile) confPath (sampleConfig (bytes "secret")) d' ∧
      Updates d' confPath (sampleConfig (bytes "secret")) d'' ∧
      d''.content confPath = d'.content confPath := by
  obtain ⟨d', first⟩ := exists_updates (sampleConfig (bytes "secret")) temp_ne_confPath
    (content_diskWith sampleFile)
  obtain ⟨content, again⟩ :=
    updated_once storable_secret (content_diskWith sampleFile) nulFree_sample first
  obtain ⟨d'', second⟩ := exists_updates (sampleConfig (bytes "secret")) temp_ne_confPath content
  exact ⟨d', d'', first, second, again d'' second⟩

/-! ## Reading line by line -/

/-- The value of a line that is one of the key: the text behind the first `=`, without
comment and white space. -/
def lineValue (key : Key) (line : Bytes) : Option Bytes :=
  let text := (line.takeWhile (· ≠ 35)).filter fun c => !isspace c
  if 61 ∈ text ∧ text.takeWhile (· ≠ 61) = key.name then
    some ((text.dropWhile (· ≠ 61)).drop 1)
  else
    none

/-- The last of the lines that are of the key wins. -/
def lastValue (key : Key) (lines : List Bytes) : Option Bytes :=
  (lines.filterMap (lineValue key)).getLast?

/-- The configuration with these texts for the keys. -/
def ofValues (value : Key → Option Bytes) : Config where
  port := ((value .port).map atoi).getD 0
  dbPort := ((value .dbPort).map atoi).getD 0
  dbHost := value .dbHost
  dbDatabase := value .dbDatabase
  dbUser := value .dbUser
  dbPass := value .dbPass

/-- What the lines of a file say. -/
def reference (f : Bytes) : Config := ofValues fun key => lastValue key (f.splitOn 10)

example : reference (bytes "PORT=80\n# PORT=1\nDB_PASS = x=y # z\nPORT=81\r\n") =
    { createDefaultConfig with port := 81, dbPass := some (bytes "x=y") } := by decide +kernel

/-- Two texts set the key to the same value. -/
def SameSetting (key : Key) (v w : Option Bytes) : Prop :=
  match key with
  | .port | .dbPort => (v.map atoi).getD 0 = (w.map atoi).getD 0
  | _ => v = w

theorem ofValues_eq_iff {value value' : Key → Option Bytes} :
    ofValues value = ofValues value' ↔ ∀ key, SameSetting key (value key) (value' key) := by
  rw [Config.eq_iff_agree]
  refine forall_congr' fun key => ?_
  cases key <;> exact Iff.rfl

theorem lineValue_eq_some {line v : Bytes} :
    lineValue key line = some v ↔ prepareLine line = key.name ++ 61 :: v := by
  have split : ∀ {name : Bytes}, 61 ∉ name → ∀ rest : Bytes,
      (name ++ 61 :: rest).takeWhile (· ≠ 61) = name ∧
        (name ++ 61 :: rest).dropWhile (· ≠ 61) = 61 :: rest := by
    intro name clean rest
    have front := takeWhile_ne_append clean rest
    refine ⟨front, ?_⟩
    have whole := List.takeWhile_append_dropWhile (p := (· ≠ 61)) (l := name ++ 61 :: rest)
    rw [front] at whole
    exact List.append_cancel_left whole
  show (if 61 ∈ prepareLine line ∧ (prepareLine line).takeWhile (· ≠ 61) = key.name then
    some (((prepareLine line).dropWhile (· ≠ 61)).drop 1) else none) = some v ↔ _
  generalize prepareLine line = text
  constructor
  · intro h
    obtain ⟨⟨mem, name⟩, value⟩ := Option.ite_none_right_eq_some.mp h
    obtain ⟨front, rest, rfl, clean⟩ := List.eq_append_cons_of_mem mem
    obtain ⟨hfront, hrest⟩ := split clean rest
    rw [hfront] at name
    rw [hrest] at value
    rw [name, ← Option.some.inj value]
    rfl
  · rintro rfl
    obtain ⟨hfront, hrest⟩ := split key.not_mem_name.1 v
    rw [if_pos ⟨by simp, hfront⟩, hrest]
    rfl

/-- What an entry says about a key. -/
def valueFor (key : Key) (found : Key × Bytes) : Option Bytes :=
  if found.1 = key then some found.2 else none

/-- The entries of a text without NUL are the lines of the keys. -/
theorem lineValue_eq (nulFree : 0 ∉ piece) (key : Key) :
    lineValue key piece = (entry piece).bind (valueFor key) := by
  refine Option.ext fun v => ?_
  have found : lineValue key piece = some v ↔ entry piece = some (key, v) := by
    rw [lineValue_eq_some, entry_eq_some, cstr_of_not_mem nulFree]
  rw [found, Option.bind_eq_some_iff]
  constructor
  · intro h
    exact ⟨_, h, if_pos rfl⟩
  · rintro ⟨⟨key', v'⟩, h, value⟩
    obtain ⟨rfl, hv⟩ := Option.ite_none_right_eq_some.mp value
    cases hv
    exact h

/-- Setting a field sets the text of its key. -/
theorem ofValues_set (value : Key → Option Bytes) (key : Key) (v : Bytes) :
    (ofValues value).set key v = ofValues fun other => if key = other then some v else value other := by
  cases key <;> rfl

/-- Of the entries of a key, the last one is left. -/
theorem foldl_set_eq (entries : List (Key × Bytes)) :
    entries.foldl (fun config found => config.set found.1 found.2) createDefaultConfig =
      ofValues fun key => (entries.filterMap (valueFor key)).getLast? := by
  induction entries using List.reverseRecOn with
  | nil => rfl
  | append_singleton entries found ih =>
      rw [List.foldl_append, ih, List.foldl_cons, List.foldl_nil, ofValues_set]
      congr 1
      funext key
      rw [List.filterMap_append, List.getLast?_append]
      by_cases here : found.1 = key
      · rw [if_pos here, List.filterMap_cons_some (show valueFor key found = _ from if_pos here)]
        rfl
      · rw [if_neg here, List.filterMap_cons_none (show valueFor key found = _ from if_neg here)]
        rfl

/-- `load_config` reads the pieces as the reference reads the lines. -/
theorem loaded_eq_ofValues (nulFree : 0 ∉ f) :
    loaded f = ofValues fun key => lastValue key (pieces maxLine f) := by
  rw [loaded_eq, foldl_set_eq]
  congr 1
  funext key
  rw [settings, List.filterMap_filterMap, lastValue]
  refine congrArg List.getLast? (List.filterMap_congr fun piece hpiece => (lineValue_eq ?_ key).symm)
  exact fun nul => nulFree (mem_of_mem_pieces two_le_maxLine hpiece nul)

/-! ## Long lines -/

/-- The line is longer than what one `fgets` reads. -/
def long (line : Bytes) : Bool := maxLine ≤ line.length

/-- The long lines behind the last of the others that is of the key. -/
def longBehind (key : Key) (lines : List Bytes) : List Bytes :=
  (lines.reverse.takeWhile fun line => long line || (lineValue key line).isNone).reverse.filter long

/-- The head and the tails that `fgets` reads of each line. -/
def cut (lines : List Bytes) : List Bytes := lines.flatMap (pieces maxLine)

/-- What the lines set that are not cut. -/
def shortValue (key : Key) (lines : List Bytes) : Option Bytes :=
  lastValue key (lines.filter (!long ·))

/-- Cutting the long lines does the key no harm: behind its last short line none of them is of the
key, neither whole nor in a head or a tail; or what they set, whole and cut, is the same; or only
one of the two is there, and sets what the short line has set. -/
def Harmless (key : Key) (lines : List Bytes) : Prop :=
  match lastValue key (longBehind key lines), lastValue key (cut (longBehind key lines)) with
  | none, none => True
  | some whole, some cut => SameSetting key (some whole) (some cut)
  | some whole, none => SameSetting key (some whole) (shortValue key lines)
  | none, some cut => SameSetting key (some cut) (shortValue key lines)

variable {line : Bytes} {lines : List Bytes} {h : Bytes → List Bytes}

theorem longBehind_long (hline : long line = true) :
    longBehind key (lines ++ [line]) = longBehind key lines ++ [line] := by
  simp [longBehind, hline]

theorem longBehind_silent (hline : long line = false) (silent : lineValue key line = none) :
    longBehind key (lines ++ [line]) = longBehind key lines := by
  simp [longBehind, hline, silent]

theorem longBehind_short {v : Bytes} (hline : long line = false)
    (value : lineValue key line = some v) : longBehind key (lines ++ [line]) = [] := by
  simp [longBehind, hline, value]

/-- However the long lines are read, only those behind the last short line of the key matter. -/
theorem getLast?_lines
    (agree : ∀ line ∈ lines, long line = false → h line = (lineValue key line).toList) :
    (lines.flatMap h).getLast? =
      ((longBehind key lines).flatMap h).getLast?.or (shortValue key lines) := by
  induction lines using List.reverseRecOn with
  | nil => rfl
  | append_singleton lines line ih =>
      have ih := ih fun l hl => agree l (List.mem_append_left _ hl)
      rw [List.flatMap_append, List.flatMap_singleton, List.getLast?_append, ih]
      cases hline : long line with
      | true =>
          have others : shortValue key (lines ++ [line]) = shortValue key lines := by
            simp [shortValue, hline]
          rw [longBehind_long hline, List.flatMap_append, List.flatMap_singleton,
            List.getLast?_append, others, Option.or_assoc]
      | false =>
          have read := agree line (by simp) hline
          cases value : lineValue key line with
          | none =>
              have others : shortValue key (lines ++ [line]) = shortValue key lines := by
                simp [shortValue, lastValue, hline, value]
              rw [read, value, longBehind_silent hline value, others]
              rfl
          | some v =>
              have last : shortValue key (lines ++ [line]) = some v := by
                simp [shortValue, lastValue, hline, value]
              rw [read, value, longBehind_short hline value, last]
              rfl

theorem lastValue_eq (key : Key) (lines : List Bytes) :
    lastValue key lines =
      (lastValue key (longBehind key lines)).or (shortValue key lines) := by
  have whole : ∀ ls, lastValue key ls = (ls.flatMap fun l => (lineValue key l).toList).getLast? := by
    intro ls
    rw [lastValue, List.filterMap_eq_flatMap_toList]
  rw [whole, whole (longBehind key lines)]
  exact getLast?_lines fun _ _ _ => rfl

/-- The pieces of the file, line by line. -/
theorem lastValue_pieces (key : Key) (f : Bytes) :
    lastValue key (pieces maxLine f) =
      (lastValue key (cut (longBehind key (f.splitOn 10)))).or (shortValue key (f.splitOn 10)) := by
  have newline : ∀ line, lineValue key (line ++ [10]) = lineValue key line := by
    intro line
    refine Option.ext fun v => ?_
    rw [lineValue_eq_some, lineValue_eq_some,
      prepareLine_append_space (List.forall_mem_singleton.mpr rfl)]
  rw [lastValue, filterMap_pieces_lines two_le_maxLine rfl newline, lastValue, cut,
    List.filterMap_flatMap]
  refine getLast?_lines fun line member short => filterMap_pieces_short rfl ?_ ?_
  · exact not_mem_of_mem_splitOn member
  · simpa [long] using short

theorem SameSetting.refl (key : Key) (v : Option Bytes) : SameSetting key v v := by
  cases key <;> rfl

theorem SameSetting.comm {v w : Option Bytes} : SameSetting key v w ↔ SameSetting key w v := by
  cases key <;> exact eq_comm

/-- The pieces set the key as the lines do if and only if the long lines do no harm. -/
theorem sameSetting_iff (key : Key) (f : Bytes) :
    SameSetting key (lastValue key (pieces maxLine f)) (lastValue key (f.splitOn 10)) ↔
      Harmless key (f.splitOn 10) := by
  rw [lastValue_pieces, lastValue_eq key (f.splitOn 10), Harmless]
  cases lastValue key (longBehind key (f.splitOn 10)) with
  | none =>
      cases lastValue key (cut (longBehind key (f.splitOn 10))) with
      | none => exact iff_of_true (SameSetting.refl ..) trivial
      | some w => exact Iff.rfl
  | some v =>
      cases lastValue key (cut (longBehind key (f.splitOn 10))) with
      | none => exact SameSetting.comm
      | some w => exact SameSetting.comm

/-- **Reading.** `load_config` returns what the lines of the file say if and only if cutting the
lines of more than 511 bytes does no key any harm. -/
theorem reads_reference_iff (hf : d.content path = some f) (nulFree : 0 ∉ f) :
    LoadsExactly d path (reference f) ↔ ∀ key, Harmless key (f.splitOn 10) := by
  rw [loadsExactly_iff hf, loaded_eq_ofValues nulFree, reference, ofValues_eq_iff]
  exact forall_congr' fun key => sameSetting_iff key f

/-- Without a line of more than 511 bytes nothing is cut. -/
theorem harmless_of_short (short : ∀ line ∈ f.splitOn 10, line.length < maxLine) (key : Key) :
    Harmless key (f.splitOn 10) := by
  have nothing : longBehind key (f.splitOn 10) = [] := by
    refine List.filter_eq_nil_iff.mpr fun line member => ?_
    have inside := (List.takeWhile_prefix _).subset (List.mem_reverse.mp member)
    have fits := short line (List.mem_reverse.mp inside)
    simpa [long] using fits
  rw [Harmless, nothing]
  trivial

/-- A comment that fills the buffer. -/
def longComment : Bytes := 35 :: List.replicate 510 45

theorem mem_longComment {c : UInt8} (h : c ∈ longComment) : c = 35 ∨ c = 45 :=
  (List.mem_cons.mp h).imp_right List.eq_of_mem_replicate

/-- A comment whose tail is of no key, between two short lines. -/
def commentedFile : Bytes := bytes "PORT=80\n" ++ longComment ++ bytes "--\nDB_HOST=db\n"

theorem reads_reference_sample :
    LoadsExactly (diskWith commentedFile) confPath (reference commentedFile) := by
  have nulFree : 0 ∉ commentedFile := by decide +kernel
  refine (reads_reference_iff (content_diskWith commentedFile) nulFree).mpr fun key => ?_
  have silent : lastValue key (longBehind key (commentedFile.splitOn 10)) = none ∧
      lastValue key (cut (longBehind key (commentedFile.splitOn 10))) = none := by
    cases key <;> decide +kernel
  rw [Harmless, silent.1, silent.2]
  trivial

theorem whole_longComment : Whole maxLine longComment := by
  refine .inr ⟨fun newline => ?_, ?_, List.cons_ne_nil _ _⟩
  · rcases mem_longComment newline with h | h <;> exact absurd h (by decide)
  · rw [longComment, List.length_cons, List.length_replicate]
    rfl

/-- The rest of its line is taken for a line of its own. -/
theorem reads_reference_fails :
    loaded (longComment ++ bytes "PORT=1\n") = { createDefaultConfig with port := 1 } ∧
      ¬ ∀ (d : Disk) (path f : Bytes), d.content path = some f → 0 ∉ f →
        LoadsExactly d path (reference f) := by
  have read : loaded (longComment ++ bytes "PORT=1\n") = { createDefaultConfig with port := 1 } := by
    have port : Whole maxLine (bytes "PORT=1\n") :=
      .inl ⟨bytes "PORT=1", rfl, by decide, by decide⟩
    have skipped : entry longComment = none :=
      entry_eq_none_of_skipped (.inr (by decide +kernel))
    have alone := pieces_whole port []
    rw [List.append_nil, pieces_nil] at alone
    rw [loaded, pieces_whole whole_longComment, alone, List.foldl_cons, loadLine_eq, skipped]
    decide +kernel
  refine ⟨read, fun all => ?_⟩
  have nulFree : 0 ∉ longComment ++ bytes "PORT=1\n" := by
    rw [List.mem_append, not_or]
    refine ⟨fun nul => ?_, by decide⟩
    rcases mem_longComment nul with h | h <;> exact absurd h (by decide)
  have same := all _ confPath _ (content_diskWith (longComment ++ bytes "PORT=1\n")) nulFree
  rw [loadsExactly_iff (content_diskWith _), read] at same
  have silent : (reference (longComment ++ bytes "PORT=1\n")).port = 0 := by decide +kernel
  rw [← same] at silent
  cases silent

end SimpleProxy.Theorems.Pieces
