import SimpleProxy.Logic.Server
import SimpleProxy.Logic.Rewrites

/-!
# Runs of the configuration tool

Every run of `simpleproxy-config`, on any terminal, disk and database. A run that connects
to the database disconnects, once, and sends no statement outside of that; it changes
no file. A run that does not connect leaves the database alone.
-/

namespace SimpleProxy.Theorems.Tool

open Interact CString

variable {D α : Type} {E : Engine D} {k : Host D} {sound : Bool} {rounds : Nat}

/-! ## The parts -/

/-- Statements on an open connection leave everything else alone. -/
theorem tool_up (p : ToolProc α) (up : k.connection = .up) :
    p.wp E.tool (fun _ (k' : Host D) => k'.connection = .up ∧ k'.disk = k.disk) k := by
  refine (Prog.calls_true p).wp (I := fun k' : Host D => k'.connection = .up ∧ k'.disk = k.disk)
    ?_ ⟨up, rfl⟩
  rintro k₁ c r k₂ - ⟨up₁, hdisk⟩ step
  cases c with
  | malloc =>
      obtain ⟨stdin, rfl⟩ := tool_local (E := E) (c := .malloc) trivial step
      exact ⟨up₁, hdisk⟩
  | fgets size =>
      obtain ⟨stdin, rfl⟩ := tool_local (E := E) (c := .fgets size) trivial step
      exact ⟨up₁, hdisk⟩
  | dbExecute text =>
      have step : k₁.execute E text r = some k₂ := step
      unfold Host.execute at step
      rw [up₁] at step
      obtain ⟨d, -, rfl⟩ := Option.map_eq_some_iff.mp step
      exact ⟨rfl, hdisk⟩

/-- `fopen` for reading, `fgets` and `fclose`. -/
def ReadsOnly : Files.Call → Prop
  | .fopenRead _ => True
  | .fgets _ => True
  | .fcloseRead => True
  | _ => False

theorem loadLines_readsOnly (rounds : Nat) (config : Config) :
    (loadLines rounds config).Calls ReadsOnly := by
  induction rounds generalizing config with
  | zero => trivial
  | succ rounds ih =>
      refine Prog.Calls.call trivial fun line => ?_
      cases line with
      | none => trivial
      | some line => exact ih _

theorem loadConfig_readsOnly (rounds : Nat) (path : Bytes) :
    (loadConfig rounds path).Calls ReadsOnly := by
  refine Prog.Calls.call trivial fun opened => ?_
  split
  · exact (loadLines_readsOnly rounds _).bind fun config =>
      Prog.Calls.call trivial fun _ => trivial
  · trivial

theorem content_readsOnly {d d' : Files.Disk} {c : Files.Call} {r : Files.Answer c}
    (h : ReadsOnly c) (step : d.after c r = some d') : d'.content = d.content := by
  unfold Files.Disk.after at step
  cases c with
  | fopenRead path =>
      dsimp only at step
      split at step
      · split at step <;> cases step
        rfl
      · cases step
        rfl
  | fgets size =>
      dsimp only at step
      split at step
      · cases step
      · split at step
        · cases step
          rfl
        · split at step <;> cases step
          rfl
  | fcloseRead =>
      cases step
      rfl
  | _ => exact h.elim

/-- Loading the configuration changes no file, and nothing else. -/
theorem wp_loadConfig (path : Bytes) :
    (onFiles (loadConfig rounds path)).wp (E.host sound) (fun _ k' =>
      ∃ disk, k' = { k with disk := disk } ∧ disk.content = k.disk.content) k := by
  refine wp_onFiles.mpr (wp_files ?_)
  refine Prog.wp_mono ((loadConfig_readsOnly rounds path).wp
    (I := fun disk => disk.content = k.disk.content) ?_ rfl) ?_
  · intro d c r d' hc same step
    exact (content_readsOnly hc (Files.storage_after step)).trans same
  · intro _ disk same
    exact ⟨disk, rfl, same⟩

theorem wp_runSystemctl {action service : Bytes} :
    (runSystemctl action service).wp (E.host sound) (fun r k' => ∃ result,
      r = (if exitedWell result then 0 else -1) ∧
      k' = { k with started := k.started ++ [(systemctl action service, result)] }) k := by
  refine (Prog.wp_bind _ _).mpr (wp_onHost.mpr ?_)
  rintro result _ ⟨⟩
  exact ⟨result, rfl, rfl⟩

/-- Starting the service changes nothing else. -/
theorem wp_startEnableService :
    startEnableService.wp (E.host sound) (fun code k' =>
      (code = 0 ∨ code = 1) ∧ ∃ started, k' = { k with started := started }) k := by
  refine (Prog.wp_bind _ _).mpr (Prog.wp_mono wp_runSystemctl ?_)
  rintro r _ ⟨result, -, rfl⟩
  split
  · exact ⟨.inr rfl, _, rfl⟩
  · refine (Prog.wp_bind _ _).mpr (Prog.wp_mono wp_runSystemctl ?_)
    rintro r _ ⟨result, -, rfl⟩
    split
    · exact ⟨.inr rfl, _, rfl⟩
    · exact ⟨.inl rfl, _, rfl⟩

theorem wp_promptAndEnableService :
    promptAndEnableService.wp (E.host sound) (fun code k' => (code = 0 ∨ code = 1) ∧
      ∃ stdin started, k' = { k with stdin := stdin, started := started }) k := by
  refine (Prog.wp_bind _ _).mpr (wp_onTool.mpr ?_)
  intro line k' step
  obtain ⟨stdin, rfl⟩ := tool_local (E := E) (c := .fgets 16) trivial step
  cases line with
  | none => exact ⟨.inr rfl, stdin, _, rfl⟩
  | some line =>
      show Prog.wp _ (if _ then _ else _) _ _
      split
      · exact ⟨.inl rfl, stdin, _, rfl⟩
      · refine Prog.wp_mono wp_startEnableService ?_
        rintro code _ ⟨hcode, started, rfl⟩
        exact ⟨hcode, stdin, started, rfl⟩

/-- The setup never connects. -/
theorem wp_cmdSetup :
    (cmdSetup rounds).wp (E.host sound) (fun code k' => (code = 0 ∨ code = 1) ∧
      k'.connection = k.connection ∧ k'.db = k.db) k := by
  refine (Prog.wp_bind _ _).mpr (wp_onHost.mpr ?_)
  rintro uid _ ⟨⟩
  show Prog.wp _ (if _ then _ else _) _ _
  split
  · exact ⟨.inr rfl, rfl, rfl⟩
  · refine (Prog.wp_bind _ _).mpr (wp_onTool.mpr ?_)
    refine Prog.wp_mono (wp_local (askConfig_local rounds)) ?_
    rintro asked _ ⟨stdin, rfl⟩
    cases asked with
    | none => exact ⟨.inr rfl, rfl, rfl⟩
    | some config =>
        refine (Prog.wp_bind _ _).mpr (wp_onFiles.mpr (wp_files ?_))
        refine Prog.wp_mono (Prog.wp_true _ _) ?_
        rintro (_ | _) disk -
        · exact ⟨.inr rfl, rfl, rfl⟩
        · refine Prog.wp_mono wp_promptAndEnableService ?_
          rintro code _ ⟨hcode, stdin', started, rfl⟩
          exact ⟨hcode, rfl, rfl⟩

/-! ## Between `db_create` and `db_close` -/

/-- What a command may do while the connection is up. -/
def Connected (E : Engine D) (sound : Bool) (func : ConfigProc Int) : Prop :=
  ∀ k : Host D, k.connection = .up →
    func.wp (E.host sound) (fun _ k' => k'.connection = .up ∧ k'.disk.content = k.disk.content) k

theorem connected_onTool (p : ToolProc Int) : Connected E sound (onTool p) := by
  intro k up
  refine wp_onTool.mpr (Prog.wp_mono (tool_up p up) ?_)
  rintro _ k' ⟨up', hdisk⟩
  exact ⟨up', congrArg Files.Disk.content hdisk⟩

/-- Any command but the setup. -/
theorem connected_command {argv : List Bytes} {cmd : Bytes} {func : ConfigProc Int}
    (other : cmd ≠ bytes "setup") (found : (commands rounds argv).lookup cmd = some func) :
    Connected E sound func := by
  have mem : (cmd, func) ∈ commands rounds argv := by
    obtain ⟨l₁, l₂, split, -⟩ := List.lookup_eq_some_iff.mp found
    rw [split]
    exact List.mem_append_right _ List.mem_cons_self
  simp only [commands, List.mem_cons, Prod.mk.injEq, List.not_mem_nil, or_false] at mem
  rcases mem with ⟨rfl, -⟩ | ⟨-, rfl⟩ | ⟨-, rfl⟩ | ⟨-, rfl⟩ | ⟨-, rfl⟩ | ⟨-, rfl⟩ | ⟨-, rfl⟩
  · exact absurd rfl other
  · intro k up
    refine Prog.wp_mono wp_startEnableService ?_
    rintro code _ ⟨-, started, rfl⟩
    exact ⟨up, rfl⟩
  all_goals exact connected_onTool _

/-- The rule for `db_create`, a command and `db_close`. -/
theorem wp_withDatabase {config : Config} {func : Option (ConfigProc Int)}
    {Q : Int → Host D → Prop} (idle : k.connection = .idle) (refused : Q 1 k)
    (unknown : func = none → Q 1 { k with connection := .down })
    (served : ∀ f, func = some f → f.wp (E.host sound) (fun result k' => k'.connection = .up ∧
      Q (if result = 0 then 0 else 1) { k' with connection := .down })
      { k with connection := .up }) :
    (withDatabase config func).wp (E.host sound) Q k := by
  refine (Prog.wp_bind _ _).mpr (wp_onHost.mpr ?_)
  rintro ok k₁ step
  obtain rfl := Option.some.inj step
  have close : ∀ {k₂ : Host D}, k₂.connection = .up →
      k₂.close = { k₂ with connection := .down } := by
    intro k₂ up
    unfold Host.close
    rw [up]
  cases ok with
  | false =>
      have same : k.create false = k := by
        unfold Host.create
        rw [idle]
        rfl
      rw [same]
      exact refused
  | true =>
      have up : k.create true = { k with connection := .up } := by
        unfold Host.create
        rw [idle]
        rfl
      rw [up]
      cases func with
      | none =>
          refine (Prog.wp_bind _ _).mpr (wp_onHost.mpr ?_)
          rintro _ k₂ step₂
          obtain rfl := Option.some.inj step₂
          rw [close rfl]
          exact unknown rfl
      | some func =>
          refine (Prog.wp_bind _ _).mpr (Prog.wp_mono (served func rfl) ?_)
          rintro result k₂ ⟨up₂, hresult⟩
          refine (Prog.wp_bind _ _).mpr (wp_onHost.mpr ?_)
          rintro _ k₃ step₃
          obtain rfl := Option.some.inj step₃
          rw [close up₂]
          exact hresult

/-- How a run leaves the connection. -/
def Closed (k : Host D) (code : Int) (k' : Host D) : Prop :=
  (code = 0 ∨ code = 1) ∧
    (k'.connection = .idle ∧ k'.db = k.db ∨
      k'.connection = .down ∧ k'.disk.content = k.disk.content)

theorem wp_configMain (rounds : Nat) (argv : List Bytes) (idle : k.connection = .idle) :
    (configMain rounds argv).wp (E.host sound) (Closed k) k := by
  unfold configMain
  split
  · exact ⟨.inl rfl, .inl ⟨idle, rfl⟩⟩
  · split
    · rename_i cmd _
      split
      · refine Prog.wp_mono wp_cmdSetup ?_
        rintro code k' ⟨hcode, same, hdb⟩
        exact ⟨hcode, .inl ⟨same.trans idle, hdb⟩⟩
      · rename_i other
        refine (Prog.wp_bind _ _).mpr (Prog.wp_mono (wp_loadConfig confPath) ?_)
        rintro config _ ⟨disk, rfl, content⟩
        split
        · refine wp_withDatabase idle ⟨.inr rfl, .inl ⟨idle, rfl⟩⟩ ?_ ?_
          · intro _
            exact ⟨.inr rfl, .inr ⟨rfl, content⟩⟩
          · intro func found
            refine Prog.wp_mono (connected_command other found _ rfl) ?_
            rintro result k' ⟨up, same⟩
            refine ⟨up, ?_, .inr ⟨rfl, same.trans content⟩⟩
            split
            · exact .inl rfl
            · exact .inr rfl
        · exact ⟨.inr rfl, .inl ⟨idle, rfl⟩⟩
    · exact ⟨.inr rfl, .inl ⟨idle, rfl⟩⟩

/-- **The connection.** Whatever fails, reading and writing files included, a run of the tool
either never connects and leaves the database as it is, or it connects once, disconnects, and
leaves the files as they are; no statement is sent without a connection, and the exit code is 0
or 1. -/
theorem connection_closed (E : Engine D) (sound : Bool) (rounds : Nat) (argv : List Bytes)
    (k k' : Host D) (tr : List (Exchange ConfigAnswer)) (code : Int)
    (idle : k.connection = .idle)
    (run : (configMain rounds argv).Ends (E.host sound) k tr code k') : Closed k code k' :=
  Prog.wp_sound (wp_configMain rounds argv idle) run.1 run.2

/-- `simpleproxy-config migrate` on an empty database. -/
theorem connection_closed_migrate :
    ∃ code k', Closed (booted [] .none) code k' ∧ k'.db.tables = [tableName] := by
  have run : (smoothRun 1024 [bytes "simpleproxy-config", bytes "migrate"] (booted [] .none)).any
      (fun r => r.2.2.db.tables = [tableName]) = true := by
    decide +kernel
  obtain ⟨⟨tr, code, k'⟩, ends, tables⟩ := (Option.any_eq_true _ _).mp run
  exact ⟨code, k', connection_closed _ _ _ _ _ _ _ _ rfl (Prog.ends_of_drive ends),
    of_decide_eq_true tables⟩

end SimpleProxy.Theorems.Tool
