import SimpleProxy.Logic.Host
import SimpleProxy.Logic.Rewrites

/-!
# What the setup does

The three parts of `cmd_setup`: the configuration that the prompts can return, what becomes of
the configuration file on a sound disk, and the service.
-/

namespace SimpleProxy

open Interact CString

variable {D : Type} {E : Engine D} {k k' : Host D} {rounds : Nat} {config : Config}

/-! ## The prompts -/

/-- A line as `get_input` leaves it in the shared buffer. -/
structure Input (text : Bytes) : Prop where
  short : text.length < inputSize
  nulFree : 0 ∉ text
  oneLine : 10 ∉ text

/-- A configuration that the prompts can return. The port is a number, and no more. -/
structure Config.Asked (config : Config) : Prop where
  port : IsInt config.port
  dbPort : 0 ≤ config.dbPort ∧ config.dbPort ≤ 65535
  strings : ∀ s ∈ config.strings, ∃ v, s = some v ∧ v ≠ [] ∧ Input v

theorem chomp_sublist (line : Bytes) : (chomp line).Sublist line :=
  (List.takeWhile_sublist _).trans (cstr_starts line).sublist

theorem input_chomp {line : Bytes} (short : line.length < inputSize) : Input (chomp line) where
  short := Nat.lt_of_le_of_lt (chomp_sublist line).length_le short
  nulFree nul := not_mem_cstr line ((List.takeWhile_sublist _).subset nul)
  oneLine newline := by simpa using List.mem_takeWhile_imp newline

theorem wp_getInput : (getInput inputSize).wp E.tool (fun input k' =>
    (∃ stdin, k' = { k with stdin := stdin }) ∧ ∀ text, input = some text → Input text) k := by
  refine (Prog.wp_bind _ _).mpr ?_
  intro line k' step
  refine ⟨tool_local (E := E) (c := .fgets inputSize) trivial step, ?_⟩
  have read : k.fgets inputSize line = some k' := step
  unfold Host.fgets at read
  split at read
  · rintro text ⟨⟩
  · rename_i line piece rest hfgets
    split at read
    · rename_i same
      subst same
      obtain ⟨-, hpieces⟩ := fgets_eq_some (by decide) hfgets
      rintro text ⟨⟩
      have piece : line ∈ pieces inputSize k.stdin := by
        rw [hpieces]
        exact List.mem_cons_self
      exact input_chomp (length_lt_of_mem_pieces (by decide) piece)
    · cases read
  · cases read

theorem takeLine_inr {default port : Int} {outside : Int → Bool} {input : Option Bytes}
    (h : takeLine default outside input = .inr port) :
    port = -1 ∨ port = default ∨ ∃ text, port = atoi text ∧ outside port = false := by
  cases input with
  | none =>
      cases h
      exact .inl rfl
  | some buffer =>
      unfold takeLine at h
      dsimp only at h
      split at h
      · cases h
        exact .inr (.inl rfl)
      · split at h
        · cases h
        · split at h
          · cases h
          · rename_i inside
            cases h
            exact .inr (.inr ⟨buffer, rfl, eq_false_of_ne_true inside⟩)

/-- A prompt for a port returns -1, what an empty line stands for, or the number of a line. -/
theorem wp_askRound {default : Int} {outside : Int → Bool} :
    (Loop.run (askRound default outside inputSize) rounds ()).wp E.tool (fun port k' =>
      (∃ stdin, k' = { k with stdin := stdin }) ∧
        (port = -1 ∨ port = default ∨ ∃ text, port = atoi text ∧ outside port = false)) k := by
  refine Loop.wp_run (I := fun _ k' => ∃ stdin, k' = { k with stdin := stdin }) ?_ ⟨k.stdin, rfl⟩
  rintro _ _ ⟨stdin, rfl⟩
  refine (Prog.wp_bind _ _).mpr (Prog.wp_mono wp_getInput ?_)
  rintro input _ ⟨⟨stdin', rfl⟩, -⟩
  refine (Prog.wp_ret _).mpr ?_
  cases taken : takeLine default outside input with
  | inl _ => exact ⟨stdin', rfl⟩
  | inr port => exact ⟨⟨stdin', rfl⟩, takeLine_inr taken⟩

/-- A prompt for a text. -/
theorem wp_askText {default : Option Bytes}
    (fine : ∀ text, default = some text → text ≠ [] ∧ Input text) :
    (Loop.run (askText default inputSize) rounds ()).wp E.tool (fun answer k' =>
      (∃ stdin, k' = { k with stdin := stdin }) ∧
        ∀ text, answer = some text → text ≠ [] ∧ Input text) k := by
  refine Loop.wp_run (I := fun _ k' => ∃ stdin, k' = { k with stdin := stdin }) ?_ ⟨k.stdin, rfl⟩
  rintro _ _ ⟨stdin, rfl⟩
  refine (Prog.wp_bind _ _).mpr (Prog.wp_mono wp_getInput ?_)
  rintro input _ ⟨⟨stdin', rfl⟩, typed⟩
  cases input with
  | none => exact ⟨⟨stdin', rfl⟩, by rintro text ⟨⟩⟩
  | some buffer =>
      have good : ∀ text, (if buffer = [] then default else some buffer) = some text →
          text ≠ [] ∧ Input text := by
        intro text h
        split at h
        · exact fine text h
        · rename_i some
          cases h
          exact ⟨some, typed _ rfl⟩
      dsimp only
      generalize (if buffer = [] then default else some buffer) = chosen at good
      cases chosen with
      | none => exact ⟨stdin', rfl⟩
      | some text =>
          refine (Prog.wp_bind _ _).mpr ((Prog.wp_bind _ _).mpr ?_)
          rintro room _ ⟨⟩
          refine ⟨⟨stdin', rfl⟩, ?_⟩
          rintro text' h
          cases room with
          | false => cases h
          | true =>
              cases h
              exact good _ rfl

theorem askedPort {port : Int}
    (h : port = -1 ∨ port = defaultPort ∨ ∃ text, port = atoi text ∧ outsidePort port = false) :
    IsInt port := by
  rcases h with rfl | rfl | ⟨text, rfl, -⟩
  · exact ⟨by decide, by decide⟩
  · exact ⟨by decide, by decide⟩
  · exact isInt_atoi text

theorem askedDbPort {port : Int} (real : port ≠ -1)
    (h : port = -1 ∨ port = defaultDbPort ∨ ∃ text, port = atoi text ∧ outsideDbPort port = false) :
    0 ≤ port ∧ port ≤ 65535 := by
  rcases h with rfl | rfl | ⟨text, -, inside⟩
  · exact absurd rfl real
  · exact ⟨by decide, by decide⟩
  · simp only [outsideDbPort, Bool.or_eq_false_iff, decide_eq_false_iff_not] at inside
    omega

/-- The answers to the prompts, and what they leave of the input. -/
def Asks (k : Host D) (answer : Option Config) (k' : Host D) : Prop :=
  (∃ stdin, k' = { k with stdin := stdin }) ∧ ∀ config, answer = some config → config.Asked

/-- A prompt for a text, and what follows it. -/
theorem wp_askText_bind {default : Option Bytes} {next : Bytes → ToolProc (Option Config)}
    {stdin : Bytes} (fine : ∀ text, default = some text → text ≠ [] ∧ Input text)
    (h : ∀ text stdin', text ≠ [] ∧ Input text →
      (next text).wp E.tool (Asks k) { k with stdin := stdin' }) :
    (do
      let some text ← Loop.run (askText default inputSize) rounds () | return none
      next text).wp E.tool (Asks k) { k with stdin := stdin } := by
  refine (Prog.wp_bind _ _).mpr (Prog.wp_mono (wp_askText fine) ?_)
  rintro (_ | text) _ ⟨⟨stdin', rfl⟩, given⟩
  · exact ⟨⟨stdin', rfl⟩, by rintro config ⟨⟩⟩
  · exact h text stdin' (given text rfl)

theorem wp_askConfig : (askConfig rounds).wp E.tool (Asks k) k := by
  have noDefault : ∀ text, (none : Option Bytes) = some text → text ≠ [] ∧ Input text := by
    rintro text ⟨⟩
  have host : ∀ text, some defaultDbHost = some text → text ≠ [] ∧ Input text := by
    rintro text ⟨⟩
    exact ⟨by decide, by decide, by decide, by decide⟩
  have database : ∀ text, some defaultDbDatabase = some text → text ≠ [] ∧ Input text := by
    rintro text ⟨⟩
    exact ⟨by decide, by decide, by decide, by decide⟩
  refine (Prog.wp_bind _ _).mpr (Prog.wp_mono wp_askRound ?_)
  rintro port _ ⟨⟨stdin₁, rfl⟩, hport⟩
  split
  · exact ⟨⟨stdin₁, rfl⟩, by rintro config ⟨⟩⟩
  refine (Prog.wp_bind _ _).mpr (Prog.wp_mono wp_askRound ?_)
  rintro dbPort _ ⟨⟨stdin₂, rfl⟩, hdbPort⟩
  split
  · exact ⟨⟨stdin₂, rfl⟩, by rintro config ⟨⟩⟩
  rename_i real
  refine wp_askText_bind host fun dbHost stdin₃ hdbHost => ?_
  refine wp_askText_bind database fun dbDatabase stdin₄ hdbDatabase => ?_
  refine wp_askText_bind noDefault fun dbUser stdin₅ hdbUser => ?_
  refine wp_askText_bind noDefault fun dbPass stdin₆ hdbPass => ?_
  refine ⟨⟨stdin₆, rfl⟩, ?_⟩
  rintro config ⟨⟩
  refine ⟨askedPort hport, askedDbPort real hdbPort, ?_⟩
  simp only [Config.strings, List.forall_mem_cons]
  exact ⟨⟨dbHost, rfl, hdbHost⟩, ⟨dbDatabase, rfl, hdbDatabase⟩, ⟨dbUser, rfl, hdbUser⟩,
    ⟨dbPass, rfl, hdbPass⟩, by simp⟩

/-! ## The configuration, read back -/

namespace Config

/-- What is left of a configuration in the file: of a text what is in front of a `#`, without
white space. -/
def trimmed (config : Config) : Config :=
  { config with
    dbHost := config.dbHost.map prepareLine
    dbDatabase := config.dbDatabase.map prepareLine
    dbUser := config.dbUser.map prepareLine
    dbPass := config.dbPass.map prepareLine }

theorem writable_of_input {key : Key} (input : Input (config.value key)) : config.Writable key where
  nulFree := input.nulFree
  oneLine := input.oneLine
  fits := by
    have short := input.short
    have hname : key.name.length ≤ 11 := by cases key <;> decide
    have buffer : inputSize = 256 := rfl
    have big : maxLine = 512 := rfl
    omega

namespace Asked

theorem complete (asked : config.Asked) : config.Complete := by
  have isSome : ∀ s ∈ config.strings, s.isSome = true := by
    intro s hs
    obtain ⟨v, rfl, -⟩ := asked.strings s hs
    rfl
  simp only [Config.strings, List.forall_mem_cons] at isSome
  obtain ⟨dbHost, dbDatabase, dbUser, dbPass, -⟩ := isSome
  have range := asked.dbPort
  exact ⟨asked.port, ⟨by omega, by omega⟩, dbHost, dbDatabase, dbUser, dbPass⟩

theorem input (asked : config.Asked) {s : Option Bytes} (member : s ∈ config.strings) :
    Input (s.getD []) := by
  obtain ⟨v, rfl, -, input⟩ := asked.strings s member
  exact input

theorem writable (asked : config.Asked) (key : Key) : config.Writable key := by
  have complete := asked.complete
  cases key with
  | port => exact FileValue.writable (fileValue_decimal complete.port .port)
  | dbPort => exact FileValue.writable (fileValue_decimal complete.dbPort .dbPort)
  | dbHost => exact writable_of_input (asked.input (s := config.dbHost) (by simp [Config.strings]))
  | dbDatabase =>
      exact writable_of_input (asked.input (s := config.dbDatabase) (by simp [Config.strings]))
  | dbUser => exact writable_of_input (asked.input (s := config.dbUser) (by simp [Config.strings]))
  | dbPass => exact writable_of_input (asked.input (s := config.dbPass) (by simp [Config.strings]))

/-- What a key is set to when its line is read back. -/
theorem agree_trimmed (asked : config.Asked) (key : Key) :
    (config.set key (prepareLine (config.value key))).Agree config.trimmed key := by
  have complete := asked.complete
  have number : ∀ {n : Int}, IsInt n → atoi (prepareLine (decimal n)) = n := by
    intro n range
    rw [prepareLine_of_plain (plain_decimal n), atoi_decimal range]
  have text : ∀ {s : Option Bytes}, s.isSome = true →
      some (prepareLine (s.getD [])) = s.map prepareLine := by
    intro s set
    obtain ⟨v, rfl⟩ := Option.isSome_iff_exists.mp set
    rfl
  cases key with
  | port => exact number complete.port
  | dbPort => exact number complete.dbPort
  | dbHost => exact text complete.dbHost
  | dbDatabase => exact text complete.dbDatabase
  | dbUser => exact text complete.dbUser
  | dbPass => exact text complete.dbPass

end Asked

end Config

/-- A file with a line for every key. -/
structure Usable (f : Bytes) : Prop where
  nulFree : 0 ∉ f
  mentions : ∀ key, Mentions f key

/-- What the proxy reads of the file that the setup writes. -/
theorem loaded_rewritten_trimmed (asked : config.Asked) {f : Bytes} (usable : Usable f) :
    loaded (rewritten config f) = config.trimmed := by
  rw [Config.eq_iff_agree]
  intro key
  exact (agree_of_mentions asked.writable usable.nulFree (usable.mentions key)).trans
    (asked.agree_trimmed key)

theorem not_mem_updateLine (asked : config.Asked) (piece : Bytes) :
    0 ∉ updateLine config piece := by
  rw [updateLine_eq]
  split
  · exact not_mem_cstr piece
  · rename_i key _ _
    have name := key.not_mem_name.2.2
    have value := (asked.writable key).nulFree
    simp [name, value]

/-- The file can be rewritten again. -/
theorem usable_rewritten (asked : config.Asked) {f : Bytes} (usable : Usable f) :
    Usable (rewritten config f) := by
  constructor
  · intro nul
    obtain ⟨piece, -, nul⟩ := List.mem_flatMap.mp nul
    exact not_mem_updateLine asked piece nul
  · intro key
    obtain ⟨found, member, rfl⟩ := mentions_iff.mp (usable.mentions key)
    refine mentions_iff.mpr ⟨(found.1, prepareLine (config.value found.1)), ?_, rfl⟩
    rw [settings_rewritten asked.writable usable.nulFree]
    exact List.mem_map.mpr ⟨found, member, rfl⟩

/-! ## The file -/

/-- What `update_config_file` leaves under the name of the file on a sound disk:
the file as it was, the new one, or, when it was removed and the temporary file kept its name,
nothing. -/
inductive Rewriting (config : Config) (d : Files.Disk) : Bool → Files.Disk → Prop
  | kept {d' : Files.Disk} (same : d'.content confPath = d.content confPath) :
      Rewriting config d false d'
  | gone {d' : Files.Disk} {f : Bytes} (present : d.content confPath = some f)
      (absent : d'.content confPath = none)
      (temporary : d'.content (tempFilename confPath) = some (rewritten config f)) :
      Rewriting config d false d'
  | done {d' : Files.Disk} {f : Bytes} (present : d.content confPath = some f)
      (content : d'.content confPath = some (rewritten config f)) : Rewriting config d true d'

theorem temp_apart : tempFilename confPath ≠ confPath := by decide

/-- Nothing is lost of the temporary file. -/
theorem filled_sound {f : Bytes} {t rest : List Files.FileIo} {lost : Nat} {d d₁ : Files.Disk}
    (filled : Filled config confPath f t lost d d₁)
    (sound : ∀ e ∈ openedRun confPath t lost rest, Files.loses e = false) :
    d₁.content (tempFilename confPath) = some (rewritten config f) := by
  have complete : (∀ e ∈ t, Files.succeeds e = true) ∧ lost = 0 := by
    constructor
    · intro e he
      have keeps := sound e (by simp [openedRun, he])
      have call := filled.calls e he
      obtain ⟨c, r⟩ := e
      rcases call with rfl | ⟨text, rfl⟩
      · rfl
      · simpa [Files.loses, Files.succeeds] using keeps
    · have keeps := sound ⟨.fcloseWrite, lost⟩ (by simp [openedRun])
      simpa [Files.loses] using keeps
  rw [filled.temporary, (filled.complete_iff temp_apart).mpr complete]

theorem wp_updateConfigFile {d : Files.Disk} :
    (updateConfigFile rounds confPath config).wp (Files.storage true) (Rewriting config d) d := by
  refine Prog.wp_of_runs fun tr b d' run ran => ?_
  replace ran : (Files.fileSystem.restrict fun e => !Files.loses e).run d tr = some d' := ran
  obtain ⟨ran, sound⟩ := Env.run_restrict.mp ran
  rcases updateConfigFile_ends ⟨run, ran⟩ with
    ⟨rfl, same, -⟩ | ⟨f, t, lost, rest, d₁, rfl, filled, replaces⟩
  · exact .kept (congrFun same confPath)
  · have temporary := filled_sound filled fun e he => by simpa using sound e he
    cases replaces with
    | kept content =>
        refine .kept ?_
        rw [content, filled.original temp_apart]
    | removed content =>
        refine .gone filled.present ?_ ?_
        · rw [content, Function.update_self]
        · rw [content, Function.update_of_ne temp_apart, temporary]
    | renamed text source target =>
        rw [Function.update_of_ne temp_apart, temporary] at source
        obtain rfl := Option.some.inj source
        exact .done filled.present target

/-! ## The service -/

/-- What the service comes to: the commands that are run, and the exit code. -/
inductive Enabling : List (Bytes × Int) → Int → Prop
  | unanswered : Enabling [] 1
  | notEnabled {r : Int} (failed : exitedWell r = false) :
      Enabling [(systemctl (bytes "enable") serviceName, r)] 1
  | notStarted {r r' : Int} (enabled : exitedWell r = true) (failed : exitedWell r' = false) :
      Enabling [(systemctl (bytes "enable") serviceName, r),
        (systemctl (bytes "start") serviceName, r')] 1
  | started {r r' : Int} (enabled : exitedWell r = true) (running : exitedWell r' = true) :
      Enabling [(systemctl (bytes "enable") serviceName, r),
        (systemctl (bytes "start") serviceName, r')] 0

/-- No answer is a no. -/
theorem declines_eq_false (input : Bytes) : declines input = false := by
  unfold declines
  dsimp only
  split <;> rfl

theorem wp_runSystemctl {sound : Bool} {action service : Bytes} {Q : Int → Host D → Prop}
    (well : ∀ r, exitedWell r = true →
      Q 0 { k with started := k.started ++ [(systemctl action service, r)] })
    (failed : ∀ r, exitedWell r = false →
      Q (-1) { k with started := k.started ++ [(systemctl action service, r)] }) :
    (runSystemctl action service).wp (E.host sound) Q k := by
  refine (Prog.wp_bind _ _).mpr (wp_onHost.mpr ?_)
  rintro r _ ⟨⟩
  show Q (if exitedWell r then 0 else -1) _
  by_cases h : exitedWell r = true
  · rw [if_pos h]
    exact well r h
  · rw [if_neg h]
    exact failed r (eq_false_of_ne_true h)

theorem wp_promptAndEnableService {sound : Bool} :
    promptAndEnableService.wp (E.host sound) (fun code k' => ∃ stdin commands,
      Enabling commands code ∧
        k' = { k with stdin := stdin, started := k.started ++ commands }) k := by
  refine (Prog.wp_bind _ _).mpr (wp_onTool.mpr ?_)
  intro line k' step
  obtain ⟨stdin, rfl⟩ := tool_local (E := E) (c := .fgets 16) trivial step
  cases line with
  | none => exact ⟨stdin, [], .unanswered, by rw [List.append_nil]⟩
  | some line =>
      show Prog.wp _ (if _ then _ else _) _ _
      rw [declines_eq_false, if_neg Bool.false_ne_true]
      refine (Prog.wp_bind _ _).mpr (wp_runSystemctl (fun r enabled => ?_) fun r failed => ?_)
      · rw [if_neg (by decide)]
        refine (Prog.wp_bind _ _).mpr (wp_runSystemctl (fun r' running => ?_) fun r' failed => ?_)
        · rw [if_neg (by decide)]
          exact ⟨stdin, _, .started enabled running, by rw [List.append_assoc]; rfl⟩
        · rw [if_pos (by decide)]
          exact ⟨stdin, _, .notStarted enabled failed, by rw [List.append_assoc]; rfl⟩
      · rw [if_pos (by decide)]
        exact ⟨stdin, _, .notEnabled failed, rfl⟩

end SimpleProxy
