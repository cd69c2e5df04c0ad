import SimpleProxy.Logic.Rewrites

/-!
# The configuration file

The writer prints every value as it is, for the keys that the file has; the reader
drops white space and cuts at `#`. So what was written is read back if and only if
every key has a line and nothing in a value is dropped, as it is with any
configuration that was itself read from a file. The old file is removed before the
new one is known to be good.
-/

namespace SimpleProxy.Theorems.ConfigFile

open Interact CString Files

variable {config c : Config} {d d' : Disk} {filename path f : Bytes}

/-! ## Writing what was entered -/

/-- **Setup.** A file with a line for each key, rewritten, means the configuration from
setup if and only if no value has white space or a `#` in it. -/
theorem setup_reads_back_iff (setup : FromSetup config) (hf : d.content filename = some f)
    (nulFree : 0 ∉ f) (mentions : ∀ key, Mentions f key)
    (updated : Updates d filename config d') :
    LoadsExactly d' filename config ↔ ∀ key, ∀ c ∈ config.value key, Plain c := by
  rw [updated.loadsExactly_iff hf, setup.loaded_rewritten nulFree]
  exact forall_congr' fun key => and_iff_right (mentions key)

/-- A configuration from setup with this password. -/
def sampleConfig (pass : Bytes) : Config where
  port := 3128
  dbPort := 3306
  dbHost := some (bytes "127.0.0.1")
  dbDatabase := some (bytes "simpleproxy")
  dbUser := some (bytes "proxy")
  dbPass := some pass

theorem fromSetup_sample {pass : Bytes} (some : pass ≠ []) (short : pass.length ≤ 255)
    (nulFree : 0 ∉ pass) (oneLine : 10 ∉ pass) : FromSetup (sampleConfig pass) := by
  have ports : (1 ≤ (3128 : Int) ∧ (3128 : Int) ≤ 65535) ∧
      (1 ≤ (3306 : Int) ∧ (3306 : Int) ≤ 65535) := by decide
  refine ⟨ports.1, ports.2, fun s hs => ?_⟩
  simp only [Config.strings, List.mem_cons, List.not_mem_nil, or_false] at hs
  rcases hs with rfl | rfl | rfl | rfl
  · exact ⟨bytes "127.0.0.1", rfl, by decide⟩
  · exact ⟨bytes "simpleproxy", rfl, by decide⟩
  · exact ⟨bytes "proxy", rfl, by decide⟩
  · exact ⟨pass, rfl, some, short, nulFree, oneLine⟩

/-- A configuration file with a line for each key. -/
def sampleFile : Bytes :=
  bytes "PORT=80\nDB_PORT=1\nDB_HOST=a\n# old\nDB_DATABASE=b\nDB_USER=c\nDB_PASS=d\n"

/-- Its lines. -/
def sampleLines : List Bytes :=
  [bytes "PORT=80", bytes "DB_PORT=1", bytes "DB_HOST=a", bytes "# old", bytes "DB_DATABASE=b",
    bytes "DB_USER=c", bytes "DB_PASS=d"]

theorem sampleFile_eq : sampleFile = (sampleLines.map (· ++ [10])).flatten := by decide

theorem nulFree_sample : 0 ∉ sampleFile := by decide

theorem mentions_sample (key : Key) : Mentions sampleFile key := by
  have entries : ((sampleLines.map (· ++ [10])).filterMap entry).map Prod.fst =
      [.port, .dbPort, .dbHost, .dbDatabase, .dbUser, .dbPass] := by decide
  have member : key ∈ ((sampleLines.map (· ++ [10])).filterMap entry).map Prod.fst := by
    rw [entries]
    exact key.mem_all
  obtain ⟨found, hfound, rfl⟩ := List.mem_map.mp member
  have fit : ∀ line ∈ sampleLines, 10 ∉ line ∧ line.length + 1 < maxLine := by decide
  have lines := settings_lines fit []
  rw [List.append_nil, ← sampleFile_eq] at lines
  exact mentions_iff.mpr ⟨found, by rw [lines]; exact List.mem_append_left _ hfound, rfl⟩

/-- Nothing in a value is dropped, if nothing in the password is. -/
theorem plain_sampleConfig {pass : Bytes} (plain : ∀ c ∈ pass, Plain c) :
    ∀ s ∈ (sampleConfig pass).strings, ∀ v, s = some v → ∀ c ∈ v, Plain c := by
  have host := prepareLine_eq_self.mp (show prepareLine (bytes "127.0.0.1") = _ by decide)
  have database := prepareLine_eq_self.mp (show prepareLine (bytes "simpleproxy") = _ by decide)
  have user := prepareLine_eq_self.mp (show prepareLine (bytes "proxy") = _ by decide)
  intro s hs v hv
  simp only [Config.strings, sampleConfig, List.mem_cons, List.not_mem_nil, or_false] at hs
  rcases hs with rfl | rfl | rfl | rfl <;> cases hv
  · exact host
  · exact database
  · exact user
  · exact plain

theorem fromSetup_secret : FromSetup (sampleConfig (bytes "secret")) :=
  fromSetup_sample (by decide) (by decide) (by decide) (by decide)

theorem plain_secret : ∀ s ∈ (sampleConfig (bytes "secret")).strings, ∀ v, s = some v →
    ∀ c ∈ v, Plain c :=
  plain_sampleConfig (prepareLine_eq_self.mp (by decide))

/-- A disk with only the configuration file. -/
def diskWith (f : Bytes) : Disk where
  content path := if path = confPath then some f else none
  reading := none
  writing := none

theorem content_diskWith (f : Bytes) : (diskWith f).content confPath = some f := by
  show (if confPath = confPath then some f else none) = some f
  rw [if_pos rfl]

theorem temp_ne_confPath : tempFilename confPath ≠ confPath := by decide

/-- The password `secret` is read back. -/
theorem setup_reads_back_secret :
    ∃ d', Updates (diskWith sampleFile) confPath (sampleConfig (bytes "secret")) d' ∧
      LoadsExactly d' confPath (sampleConfig (bytes "secret")) := by
  obtain ⟨d', updated⟩ := exists_updates (sampleConfig (bytes "secret")) temp_ne_confPath
    (content_diskWith sampleFile)
  exact ⟨d', updated, (setup_reads_back_iff fromSetup_secret (content_diskWith sampleFile)
    nulFree_sample mentions_sample updated).mpr (fromSetup_secret.plain_value plain_secret)⟩

/-- The password `a b` is read back as `ab`. -/
theorem setup_reads_back_fails :
    loaded (rewritten (sampleConfig (bytes "a b")) sampleFile) = sampleConfig (bytes "ab") ∧
      ¬ ∀ (config : Config) (d d' : Disk) (filename f : Bytes), FromSetup config →
        d.content filename = some f → 0 ∉ f → (∀ key, Mentions f key) →
        Updates d filename config d' → LoadsExactly d' filename config := by
  have setup : FromSetup (sampleConfig (bytes "a b")) :=
    fromSetup_sample (by decide) (by decide) (by decide) (by decide)
  have short : FromSetup (sampleConfig (bytes "ab")) :=
    fromSetup_sample (by decide) (by decide) (by decide) (by decide)
  have plain := short.plain_value (plain_sampleConfig (prepareLine_eq_self.mp (by decide)))
  have left : ∀ key, prepareLine ((sampleConfig (bytes "a b")).value key) =
      prepareLine ((sampleConfig (bytes "ab")).value key) := by
    intro key
    cases key with
    | dbPass => decide
    | _ => rfl
  have other : loaded (rewritten (sampleConfig (bytes "a b")) sampleFile) =
      sampleConfig (bytes "ab") := by
    refine Config.eq_iff_agree.mpr fun key => ?_
    have set := agree_of_mentions setup.writable nulFree_sample (mentions_sample key)
    rw [left] at set
    exact (set.trans (Config.agree_set_self _ _ key _)).trans
      ((short.complete.readsBack_iff key).mpr (plain key))
  refine ⟨other, fun all => ?_⟩
  obtain ⟨d', updated⟩ := exists_updates (sampleConfig (bytes "a b")) temp_ne_confPath
    (content_diskWith sampleFile)
  have same := all _ _ d' confPath sampleFile setup (content_diskWith sampleFile)
    nulFree_sample mentions_sample updated
  rw [updated.loadsExactly_iff (content_diskWith sampleFile), other] at same
  exact absurd same (by decide)

/-- **Keys without a line.** With values in which nothing is dropped, the rewritten file
means the configuration if and only if the old one had a line for every key. -/
theorem setup_takes_effect_iff (setup : FromSetup config)
    (plain : ∀ s ∈ config.strings, ∀ v, s = some v → ∀ c ∈ v, Plain c)
    (hf : d.content filename = some f) (nulFree : 0 ∉ f)
    (updated : Updates d filename config d') :
    LoadsExactly d' filename config ↔ ∀ key, Mentions f key := by
  rw [updated.loadsExactly_iff hf, setup.loaded_rewritten nulFree]
  exact forall_congr' fun key => and_iff_left (setup.plain_value plain key)

/-- The sample file has a line for every key. -/
theorem setup_takes_effect_sample :
    ∃ d', Updates (diskWith sampleFile) confPath (sampleConfig (bytes "secret")) d' ∧
      LoadsExactly d' confPath (sampleConfig (bytes "secret")) := by
  obtain ⟨d', updated⟩ := exists_updates (sampleConfig (bytes "secret")) temp_ne_confPath
    (content_diskWith sampleFile)
  exact ⟨d', updated, (setup_takes_effect_iff fromSetup_secret plain_secret
    (content_diskWith sampleFile) nulFree_sample updated).mpr mentions_sample⟩

/-- An empty file stays empty, and nothing that was entered takes effect. -/
theorem setup_takes_effect_fails :
    rewritten (sampleConfig (bytes "secret")) [] = [] ∧
      ¬ ∀ (config : Config) (d d' : Disk) (filename f : Bytes), FromSetup config →
        (∀ s ∈ config.strings, ∀ v, s = some v → ∀ c ∈ v, Plain c) →
        d.content filename = some f → 0 ∉ f →
        Updates d filename config d' → LoadsExactly d' filename config := by
  have empty : rewritten (sampleConfig (bytes "secret")) [] = [] := by
    rw [rewritten, pieces_nil, List.flatMap_nil]
  refine ⟨empty, fun all => ?_⟩
  obtain ⟨d', updated⟩ := exists_updates (sampleConfig (bytes "secret")) temp_ne_confPath
    (content_diskWith [])
  have same := all _ _ d' confPath [] fromSetup_secret plain_secret (content_diskWith [])
    List.not_mem_nil updated
  rw [updated.loadsExactly_iff (content_diskWith []), empty, loaded, pieces_nil] at same
  exact absurd (congrArg Config.port same) (by decide)

/-! ## Writing what was read -/

/-- **Round trip.** What is read of a file and passes the check is read back after it was
written to any file that has a line for each key. -/
theorem file_reads_back {e : Disk} (loads : Loads e path c) (checked : checkConfig c = true)
    (hf : d.content filename = some f) (nulFree : 0 ∉ f) (mentions : ∀ key, Mentions f key)
    (updated : Updates d filename c d') : LoadsExactly d' filename c := by
  obtain ⟨g, -, rfl⟩ := loads_iff.mp loads
  rw [updated.loadsExactly_iff hf]
  exact (FromFile.loaded g).loaded_rewritten checked nulFree mentions

/-- A line with white space and a comment. -/
def otherFile : Bytes :=
  bytes "PORT=80\nDB_PORT = 1\nDB_HOST=a\nDB_DATABASE=b\nDB_USER=c\nDB_PASS = x=y z # old"

theorem file_reads_back_sample :
    ∃ d', Updates (diskWith sampleFile) confPath (loaded otherFile) d' ∧
      LoadsExactly d' confPath (loaded otherFile) := by
  obtain ⟨d', updated⟩ := exists_updates (loaded otherFile) temp_ne_confPath
    (content_diskWith sampleFile)
  have loads : Loads (diskWith otherFile) confPath (loaded otherFile) :=
    loads_iff.mpr ⟨otherFile, content_diskWith otherFile, rfl⟩
  refine ⟨d', updated, file_reads_back loads ?_ (content_diskWith sampleFile) ?_
    mentions_sample updated⟩
  · decide +kernel
  · exact nulFree_sample

/-! ## Failures -/

/-- **Failures.** In every run the file holds what the result promises, the old text or
the whole new one, if and only if nothing fails in a run that removes the old file, and
the file is not emptied under the name of the temporary file. -/
theorem promised_iff {rounds : Nat} {tr : List FileIo} {b : Bool}
    (h : Ends (updateConfigFile rounds filename config) d tr b d') :
    d'.content filename =
        (if b then (d.content filename).map (rewritten config) else d.content filename) ↔
      (⟨.remove filename, true⟩ ∈ tr → ∀ e ∈ tr, succeeds e = true) ∧
        (tempFilename filename = filename → ⟨.fopenWrite filename, true⟩ ∈ tr →
          d.content filename = some []) := by
  rcases updateConfigFile_ends h with ⟨rfl, content, kept, closed⟩ |
    ⟨f, t, lost, rest, d₁, rfl, filled, replaces⟩
  · refine iff_of_true (congrFun content filename) ⟨fun removed => ?_, fun same opened => ?_⟩
    · exact absurd rfl (kept _ removed)
    · rw [same] at closed
      exact absurd opened closed
  · rw [replaces_content_iff filled replaces, filled.remove_mem_iff, Filled.succeed_iff]
    refine and_congr_right' (imp_congr_right fun same => ?_)
    have opened : ⟨.fopenWrite filename, true⟩ ∈ openedRun filename t lost rest := by
      rw [openedRun, same]
      exact List.mem_cons_of_mem _ List.mem_cons_self
    exact ⟨fun empty _ => empty, fun h => h opened⟩

/-- What is done between opening and closing for a file with one line. -/
def copyOne (line : Bytes) : List FileIo :=
  let new := updateLine (sampleConfig (bytes "secret")) line
  [⟨.fgets maxLine, some line⟩, ⟨.fputs new, new.length⟩, ⟨.fgets maxLine, none⟩]

/-- The file is copied, and what comes then is `rest`. -/
def runOne (rest : List FileIo) : List FileIo :=
  openedRun confPath (copyOne (bytes "PORT=80\n")) 0 rest

/-- The old file cannot be removed. -/
def keptRun : List FileIo := runOne [⟨.remove confPath, false⟩]

/-- The old file is removed, and the new one cannot be renamed. -/
def lostRun : List FileIo :=
  runOne [⟨.remove confPath, true⟩, ⟨.rename (tempFilename confPath) confPath, false⟩]

/-- A run on the file with one line, and what it leaves. -/
theorem ends_one (tr : List FileIo) (b : Bool) (left : Option Bytes)
    (followed : (updateConfigFile 2 confPath (sampleConfig (bytes "secret"))).replay tr = some b)
    (leaves : (fileSystem.run (diskWith (bytes "PORT=80\n")) tr).map (fun d => d.content confPath) =
      some left) :
    ∃ d', Ends (updateConfigFile 2 confPath (sampleConfig (bytes "secret")))
      (diskWith (bytes "PORT=80\n")) tr b d' ∧ d'.content confPath = left := by
  obtain ⟨d', allowed, hleft⟩ := Option.map_eq_some_iff.mp leaves
  exact ⟨d', ⟨Prog.runs_of_replay followed, allowed⟩, hleft⟩

/-- A failed `remove` loses nothing. -/
theorem promised_kept :
    ∃ d', Ends (updateConfigFile 2 confPath (sampleConfig (bytes "secret")))
        (diskWith (bytes "PORT=80\n")) keptRun false d' ∧
      d'.content confPath = some (bytes "PORT=80\n") := by
  obtain ⟨d', ends, -⟩ := ends_one keptRun false (some (bytes "PORT=80\n"))
    (by decide +kernel) (by decide +kernel)
  refine ⟨d', ends, (promised_iff ends).mpr ⟨fun removed => ?_, fun same => ?_⟩⟩
  · simp [keptRun, runOne, openedRun, copyOne] at removed
  · exact absurd same temp_ne_confPath

/-- A failed `rename` loses the configuration file. -/
theorem promised_fails :
    (∃ d', Ends (updateConfigFile 2 confPath (sampleConfig (bytes "secret")))
        (diskWith (bytes "PORT=80\n")) lostRun false d' ∧ d'.content confPath = none) ∧
      ¬ ∀ (rounds : Nat) (filename : Bytes) (config : Config) (d d' : Disk) (tr : List FileIo)
        (b : Bool), Ends (updateConfigFile rounds filename config) d tr b d' →
        d'.content filename =
          if b then (d.content filename).map (rewritten config) else d.content filename := by
  have run := ends_one lostRun false none (by decide +kernel) (by decide +kernel)
  refine ⟨run, fun all => ?_⟩
  obtain ⟨d', ends, lost⟩ := run
  have kept := all _ _ _ _ _ _ _ ends
  rw [lost, if_neg Bool.false_ne_true, content_diskWith] at kept
  cases kept

end SimpleProxy.Theorems.ConfigFile
