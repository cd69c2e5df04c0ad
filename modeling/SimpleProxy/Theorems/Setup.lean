import SimpleProxy.Logic.Setup
import SimpleProxy.Theorems.Start
import SimpleProxy.Theorems.Tool

/-!
# From the prompts to the proxy

What one `simpleproxy-config setup` can come to, and what the proxy starts with after any number
of runs of the tool.
-/

namespace SimpleProxy.Theorems.Setup

open Interact CString

variable {D : Type} {E : Engine D} {k k' : Host D} {rounds : Nat} {config : Config}

/-- The prompts can give these answers. -/
def Answered (E : Engine D) (rounds : Nat) (k : Host D) (config : Config) : Prop :=
  ∃ tr k₁, (askConfig rounds).Ends E.tool k tr (some config) k₁

theorem Answered.asked (h : Answered E rounds k config) : config.Asked := by
  obtain ⟨tr, k₁, ends⟩ := h
  exact (Prog.wp_sound wp_askConfig ends.1 ends.2).2 config rfl

/-- How `simpleproxy-config setup` ends. -/
inductive SetUp (E : Engine D) (rounds : Nat) (k : Host D) : Int → Host D → Prop
  | kept {k' : Host D} (same : k'.disk.content confPath = k.disk.content confPath)
      (quiet : k'.started = k.started) : SetUp E rounds k 1 k'
  | gone {k' : Host D} {config : Config} {f : Bytes} (answered : Answered E rounds k config)
      (present : k.disk.content confPath = some f) (absent : k'.disk.content confPath = none)
      (temporary : k'.disk.content (tempFilename confPath) = some (rewritten config f))
      (quiet : k'.started = k.started) : SetUp E rounds k 1 k'
  | done {k' : Host D} {config : Config} {f : Bytes} {commands : List (Bytes × Int)} {code : Int}
      (answered : Answered E rounds k config) (present : k.disk.content confPath = some f)
      (content : k'.disk.content confPath = some (rewritten config f))
      (enabling : Enabling commands code) (started : k'.started = k.started ++ commands) :
      SetUp E rounds k code k'

theorem wp_cmdSetup : (cmdSetup rounds).wp (E.host true) (SetUp E rounds k) k := by
  refine (Prog.wp_bind _ _).mpr (wp_onHost.mpr ?_)
  rintro uid _ ⟨⟩
  show Prog.wp _ (if _ then _ else _) _ _
  split
  · exact .kept rfl rfl
  · refine (Prog.wp_bind _ _).mpr (wp_onTool.mpr ?_)
    refine Prog.wp_of_runs fun tr answer k₁ run ran => ?_
    obtain ⟨⟨stdin, rfl⟩, -⟩ := Prog.wp_sound wp_askConfig run ran
    cases answer with
    | none => exact .kept rfl rfl
    | some config =>
        have answered : Answered E rounds k config := ⟨tr, _, run, ran⟩
        refine (Prog.wp_bind _ _).mpr (wp_onFiles.mpr (wp_files ?_))
        refine Prog.wp_mono wp_updateConfigFile ?_
        rintro b disk rewriting
        cases rewriting with
        | kept same => exact .kept same rfl
        | gone present absent temporary => exact .gone answered present absent temporary rfl
        | done present content =>
            refine Prog.wp_mono wp_promptAndEnableService ?_
            rintro code _ ⟨stdin', commands, enabling, rfl⟩
            exact .done answered present content enabling rfl

/-- **The setup.** On a disk without read errors and lost writes it ends with the exit code 1 and
the configuration file as it was; or, if it was removed and the new one kept its temporary name,
with none; or with the answers written over the old values, and then the exit code is 0 if and
only if both commands of the service ran well, which no answer to the last prompt prevents. -/
theorem set_up (E : Engine D) (rounds : Nat) (program : Bytes) (args : List Bytes) (k k' : Host D)
    (tr : List (Exchange ConfigAnswer)) (code : Int)
    (ends : (configMain rounds (program :: bytes "setup" :: args)).Ends (E.host true) k tr
      code k') : SetUp E rounds k code k' := by
  have setup : configMain rounds (program :: bytes "setup" :: args) = cmdSetup rounds := by
    have proper : ¬ (decide (bytes "setup" = bytes "--version") ||
        decide (bytes "setup" = bytes "-v")) = true := by decide
    unfold configMain checkPrintVersion
    rw [if_neg proper]
    exact if_pos rfl
  rw [setup] at ends
  exact Prog.wp_sound wp_cmdSetup ends.1 ends.2

/-! ## Any number of runs -/

/-- One run of the tool. -/
structure Turn (D : Type) where
  argv : List Bytes
  code : Int
  before : Host D
  after : Host D

def Turn.SetsUp (t : Turn D) : Prop := ∃ program args, t.argv = program :: bytes "setup" :: args

/-- Runs of the tool on sound disks, one after the other; nobody else changes the files. -/
inductive Turns (E : Engine D) (rounds : Nat) :
    (Bytes → Option Bytes) → List (Turn D) → (Bytes → Option Bytes) → Prop
  | nil {files : Bytes → Option Bytes} : Turns E rounds files [] files
  | turn {t : Turn D} {rest : List (Turn D)} {files : Bytes → Option Bytes}
      {tr : List (Exchange ConfigAnswer)} (idle : t.before.connection = .idle)
      (ends : (configMain rounds t.argv).Ends (E.host true) t.before tr t.code t.after)
      (later : Turns E rounds t.after.disk.content rest files) :
      Turns E rounds t.before.disk.content (t :: rest) files

/-- The configuration that is in force through such runs; there is none once the file is lost. -/
inductive Settles (E : Engine D) (rounds : Nat) :
    Option Config → List (Turn D) → Option Config → Prop
  | nil {c : Option Config} : Settles E rounds c [] c
  | kept {c c' : Option Config} {t : Turn D} {rest : List (Turn D)} (why : t.SetsUp → t.code = 1)
      (later : Settles E rounds c rest c') : Settles E rounds c (t :: rest) c'
  | lost {c : Config} {c' : Option Config} {t : Turn D} {rest : List (Turn D)} (setup : t.SetsUp)
      (failed : t.code = 1) (later : Settles E rounds none rest c') :
      Settles E rounds (some c) (t :: rest) c'
  | set {c config : Config} {c' : Option Config} {t : Turn D} {rest : List (Turn D)}
      (setup : t.SetsUp) (answered : Answered E rounds t.before config)
      (later : Settles E rounds (some config.trimmed) rest c') :
      Settles E rounds (some c) (t :: rest) c'

/-- The configuration that the file stands for. -/
inductive InFile (files : Bytes → Option Bytes) : Option Config → Prop
  | missing (absent : files confPath = none) : InFile files none
  | found {f : Bytes} (present : files confPath = some f) (usable : Usable f) :
      InFile files (some (loaded f))

theorem InFile.of_same {files files' : Bytes → Option Bytes} {c : Option Config}
    (h : InFile files c) (same : files' confPath = files confPath) : InFile files' c := by
  cases h with
  | missing absent => exact .missing (same.trans absent)
  | found present usable => exact .found (same.trans present) usable

/-- Any other command leaves the files alone. -/
theorem wp_other {argv : List Bytes} (idle : k.connection = .idle)
    (other : ¬ ∃ program args, argv = program :: bytes "setup" :: args) :
    (configMain rounds argv).wp (E.host true) (fun _ k' => k'.disk.content = k.disk.content) k := by
  unfold configMain
  split
  · rfl
  · split
    · rename_i program cmd args _
      split
      · rename_i setup
        exact absurd ⟨program, args, by rw [setup]⟩ other
      · rename_i command
        refine (Prog.wp_bind _ _).mpr (Prog.wp_mono (Tool.wp_loadConfig confPath) ?_)
        rintro config _ ⟨disk, rfl, content⟩
        split
        · refine Tool.wp_withDatabase idle content (fun _ => content) ?_
          intro func found
          refine Prog.wp_mono (Tool.connected_command command found _ rfl) ?_
          rintro result k' ⟨up, same⟩
          exact ⟨up, same.trans content⟩
        · exact content
    · rfl

/-- What one run does to the configuration in force. -/
theorem settles_turn {t : Turn D} {tr : List (Exchange ConfigAnswer)} {c : Option Config}
    (idle : t.before.connection = .idle)
    (ends : (configMain rounds t.argv).Ends (E.host true) t.before tr t.code t.after)
    (inFile : InFile t.before.disk.content c) :
    ∃ c₁, InFile t.after.disk.content c₁ ∧ ∀ rest c',
      Settles E rounds c₁ rest c' → Settles E rounds c (t :: rest) c' := by
  by_cases setup : t.SetsUp
  · obtain ⟨program, args, argv⟩ := setup
    have setup : t.SetsUp := ⟨program, args, argv⟩
    rw [argv] at ends
    have result := set_up E rounds program args _ _ _ _ ends
    generalize hcode : t.code = code at result
    generalize hafter : t.after = after at result
    cases result with
    | kept same quiet =>
        exact ⟨c, inFile.of_same same, fun rest c' later => .kept (fun _ => hcode) later⟩
    | gone answered present absent temporary quiet =>
        cases inFile with
        | missing missing => rw [missing] at present; cases present
        | found _ usable =>
            exact ⟨none, .missing absent, fun rest c' later => .lost setup hcode later⟩
    | done answered present content enabling started =>
        cases inFile with
        | missing missing => rw [missing] at present; cases present
        | found found usable =>
            rw [found] at present
            cases present
            have asked := answered.asked
            refine ⟨some (Config.trimmed _), ?_, fun rest c' later => .set setup answered later⟩
            rw [← loaded_rewritten_trimmed asked usable]
            exact .found content (usable_rewritten asked usable)
  · have same := Prog.wp_sound (wp_other idle setup) ends.1 ends.2
    exact ⟨c, inFile.of_same (congrFun same confPath),
      fun rest c' later => .kept (fun h => absurd h setup) later⟩

theorem settles {files files' : Bytes → Option Bytes} {runs : List (Turn D)} {c : Option Config}
    (turns : Turns E rounds files runs files') (inFile : InFile files c) :
    ∃ c', InFile files' c' ∧ Settles E rounds c runs c' := by
  induction turns generalizing c with
  | nil => exact ⟨c, inFile, .nil⟩
  | turn idle ends later ih =>
      obtain ⟨c₁, first, settled⟩ := settles_turn idle ends inFile
      obtain ⟨c', last, rest⟩ := ih first
      exact ⟨c', last, settled _ _ rest⟩

/-- The lines of the configuration file that is installed. -/
def packagedLines : List Bytes :=
  [bytes "# Configuration of simpleproxy program", [], bytes "PORT=3128",
    bytes "DB_DATABASE=simpleproxy", bytes "DB_PORT=3306", bytes "DB_USER=mysql",
    bytes "DB_PASS=mysql", bytes "DB_HOST=127.0.0.1"]

def packaged : Bytes := (packagedLines.map (· ++ [10])).flatten

/-- A new process on a new installation, with this to be typed. -/
def installed (stdin : Bytes) : Host Book where
  stdin := stdin
  disk := { content := Function.update (fun _ => none) confPath (some packaged)
            reading := none
            writing := none }
  connection := .idle
  db := .none
  started := []

/-- Four empty lines, a user, a password with a blank in it, and a no. -/
def typing : Bytes := bytes "\n\n\n\nme\nmy pass\nn\n"

def setupArgs : List Bytes := [bytes "simpleproxy-config", bytes "setup"]

/-- The setup of a new installation. -/
def setupRun : Option (List (Exchange ConfigAnswer) × Int × Host Book) :=
  (configMain 10 setupArgs).drive ((server 1024).host true) (smooth 1024) (installed typing)

/-- No at the last prompt, and the service is started all the same. -/
theorem set_up_packaged :
    ∃ k', SetUp (server 1024) 10 (installed typing) 0 k' ∧ k'.started.length = 2 := by
  have run : setupRun.any (fun r => r.2.1 = 0 && r.2.2.started.length = 2) = true := by
    decide +kernel
  obtain ⟨⟨tr, code, k'⟩, ends, last⟩ := (Option.any_eq_true _ _).mp run
  obtain ⟨exit, service⟩ := Bool.and_eq_true_iff.mp last
  obtain rfl : code = 0 := of_decide_eq_true exit
  exact ⟨k', set_up _ _ _ _ _ _ _ _ (Prog.ends_of_drive ends), of_decide_eq_true service⟩

end SimpleProxy.Theorems.Setup
