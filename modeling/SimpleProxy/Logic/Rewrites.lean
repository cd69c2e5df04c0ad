import SimpleProxy.Logic.Settings

/-!
# Runs of the configuration functions

What `load_config` and `update_config_file` do on a disk whose operations may fail.
The loops are followed piece by piece; what is lost of a write shows only in the
difference between what was `asked` and what was `written`.
-/

namespace SimpleProxy

open Interact CString Files

variable {config c : Config} {d d' : Disk} {tr : List FileIo} {rounds : Nat}
  {filename path temp f w : Bytes}

/-! ## Loading -/

theorem loadLines_ends (h : Ends (loadLines rounds config) d tr c d') :
    c = (pieces maxLine d.unread).foldl loadLine config ∧ d'.content = d.content := by
  induction rounds generalizing config d tr with
  | zero => exact absurd h Prog.not_ends_halt
  | succ rounds ih =>
      obtain ⟨line, d₁, rest, rfl, hstep, h⟩ := Prog.ends_perform_bind.mp h
      obtain ⟨hcontent, -, -, hline⟩ := after_fgets two_le_maxLine hstep
      rcases hline with ⟨rfl, hpieces⟩ | ⟨piece, rfl, hpieces⟩
      · obtain ⟨-, rfl, rfl⟩ := Prog.ends_ret.mp h
        rw [hpieces]
        exact ⟨rfl, hcontent⟩
      · obtain ⟨hc, hcontent'⟩ := ih h
        rw [hpieces, hc]
        exact ⟨rfl, hcontent'.trans hcontent⟩

/-- The same on a disk that may fail to read: the pieces in front of the first read error. -/
theorem loadLines_storage {sound : Bool}
    (h : (loadLines rounds config).Ends (storage sound) d tr c d') :
    ∃ front, front <+: pieces maxLine d.unread ∧ c = front.foldl loadLine config ∧
      (sound = true → front = pieces maxLine d.unread) := by
  induction rounds generalizing config d tr with
  | zero => exact absurd h Prog.not_ends_halt
  | succ rounds ih =>
      obtain ⟨line, d₁, rest, rfl, hstep, later⟩ := Prog.ends_perform_bind.mp h
      rcases storage_fgets hstep with ⟨rfl, rfl, rfl⟩ | hstep
      · obtain ⟨-, rfl, -⟩ := Prog.ends_ret.mp later
        exact ⟨[], List.nil_prefix, rfl, by rintro ⟨⟩⟩
      · obtain ⟨-, -, -, hline⟩ := after_fgets two_le_maxLine hstep
        rcases hline with ⟨rfl, hpieces⟩ | ⟨piece, rfl, hpieces⟩
        · obtain ⟨-, rfl, -⟩ := Prog.ends_ret.mp later
          rw [hpieces]
          exact ⟨[], List.nil_prefix, rfl, fun _ => rfl⟩
        · obtain ⟨front, hfront, hc, whole⟩ := ih later
          rw [hpieces]
          exact ⟨piece :: front, (List.prefix_cons_inj piece).mpr hfront, hc,
            fun sound => by rw [whole sound]⟩

theorem loadConfig_ends (h : Ends (loadConfig rounds path) d tr c d') :
    ⟨.fopenRead path, false⟩ ∈ tr ∨ ∃ f, d.content path = some f ∧ c = loaded f := by
  obtain ⟨opened, d₁, rest, rfl, hopen, h⟩ := Prog.ends_perform_bind.mp h
  cases opened with
  | false => exact .inl List.mem_cons_self
  | true =>
      rw [if_pos rfl] at h
      obtain ⟨config, d₂, t₁, t₂, rfl, hlines, h⟩ := Prog.ends_bind.mp h
      obtain ⟨_, d₃, _, -, -, h⟩ := Prog.ends_perform_bind.mp h
      obtain ⟨-, rfl, -⟩ := Prog.ends_ret.mp h
      obtain ⟨hc, -⟩ := loadLines_ends hlines
      obtain ⟨-, hf⟩ := after_fopenRead hopen
      exact .inr ⟨d₁.unread, hf, hc⟩

/-- Enough rounds read to the end. -/
theorem loadLines_exists (config : Config) (reading : d.reading.isSome = true)
    (enough : (pieces maxLine d.unread).length < rounds) :
    ∃ tr d', Ends (loadLines rounds config) d tr
        ((pieces maxLine d.unread).foldl loadLine config) d' ∧ ∀ e ∈ tr, succeeds e = true := by
  induction rounds generalizing config d with
  | zero => exact absurd enough (Nat.not_lt_zero _)
  | succ rounds ih =>
      obtain ⟨line, d₁, hread⟩ := fgets_answers maxLine reading
      obtain ⟨-, -, -, hline⟩ := after_fgets two_le_maxLine hread
      rcases hline with ⟨rfl, hpieces⟩ | ⟨line, rfl, hpieces⟩
      · rw [hpieces]
        exact ⟨_, _, Prog.ends_perform_bind.mpr ⟨none, d₁, [], rfl, hread,
          Prog.ends_ret.mpr ⟨rfl, rfl, rfl⟩⟩, List.forall_mem_singleton.mpr rfl⟩
      · rw [hpieces, List.length_cons] at enough
        obtain ⟨tr, d', hends, succeed⟩ := ih (loadLine config line)
          ((reading_after_fgets two_le_maxLine hread).trans reading)
          (Nat.lt_of_succ_lt_succ enough)
        rw [hpieces]
        exact ⟨_, d', Prog.ends_perform_bind.mpr ⟨some line, d₁, tr, rfl, hread, hends⟩,
          List.forall_mem_cons.mpr ⟨rfl, succeed⟩⟩

/-- `load_config` can return `c` when every operation succeeds. -/
def Loads (d : Disk) (path : Bytes) (c : Config) : Prop :=
  ∃ rounds tr d', Ends (loadConfig rounds path) d tr c d' ∧ ∀ e ∈ tr, succeeds e = true

/-- What `load_config` returns is what the text of the file means. -/
theorem loads_iff : Loads d path c ↔ ∃ f, d.content path = some f ∧ c = loaded f := by
  constructor
  · rintro ⟨rounds, tr, d', h, succeed⟩
    rcases loadConfig_ends h with failed | found
    · exact absurd (succeed _ failed) Bool.false_ne_true
    · exact found
  · rintro ⟨f, hf, rfl⟩
    have hunread : ({ d with reading := some (path, 0) } : Disk).unread = f := by
      rw [Disk.unread_of_reading rfl, hf]
      rfl
    obtain ⟨tr, d', hends, succeed⟩ := loadLines_exists createDefaultConfig
      (d := { d with reading := some (path, 0) }) rfl (Nat.lt_succ_self _)
    rw [hunread] at hends
    have hopen : fileSystem.step d (.fopenRead path) true =
        some { d with reading := some (path, 0) } := by
      show (if (d.content path).isSome then _ else _) = _
      rw [hf]
      rfl
    refine ⟨_, _, _, Prog.ends_perform_bind.mpr ⟨true, _, _, rfl, hopen,
      Prog.ends_bind.mpr ⟨_, _, tr, _, rfl, hends, Prog.ends_perform_bind.mpr
        ⟨(), _, [], rfl, rfl, Prog.ends_ret.mpr ⟨rfl, rfl, rfl⟩⟩⟩⟩, ?_⟩
    exact List.forall_mem_cons.mpr ⟨rfl, List.forall_mem_append.mpr
      ⟨succeed, List.forall_mem_singleton.mpr rfl⟩⟩

/-- `load_config` returns `c` when every operation succeeds, and nothing else. -/
def LoadsExactly (d : Disk) (path : Bytes) (c : Config) : Prop :=
  ∀ c', Loads d path c' ↔ c' = c

theorem loadsExactly_iff (hf : d.content path = some f) :
    LoadsExactly d path c ↔ loaded f = c := by
  have loads : ∀ c', Loads d path c' ↔ c' = loaded f := by
    intro c'
    rw [loads_iff, hf]
    constructor
    · rintro ⟨f', same, rfl⟩
      rw [Option.some.inj same]
    · rintro rfl
      exact ⟨f, rfl, rfl⟩
  constructor
  · intro exactly
    exact (exactly _).mp ((loads _).mpr rfl)
  · rintro rfl
    exact loads

/-! ## Writing the temporary file -/

/-- What the loop of `update_config_file` leaves: all it read was given to `fputs` as
rewritten, and what was not lost of that is behind the text `w` that the file had. -/
structure Copied (config : Config) (temp w : Bytes) (d : Disk) (tr : List FileIo)
    (d' : Disk) : Prop where
  writing : d'.writing = some temp
  asked : asked tr = rewritten config d.unread
  succeeds_iff : (∀ e ∈ tr, succeeds e = true) ↔ written tr = Files.asked tr
  content : d'.content = Function.update d.content temp (some (w ++ written tr))

theorem Copied.cons {line : Bytes} {kept : Nat} {d₁ d₂ : Disk}
    (h : Copied config temp (w ++ (updateLine config line).take kept) d₂ tr d')
    (within : kept ≤ (updateLine config line).length)
    (hpieces : pieces maxLine d.unread = line :: pieces maxLine d₂.unread)
    (hcontent : d₁.content = d.content)
    (hwrite : d₂.content =
      Function.update d₁.content temp (some (w ++ (updateLine config line).take kept))) :
    Copied config temp w d (⟨.fgets maxLine, some line⟩ ::
      ⟨.fputs (updateLine config line), kept⟩ :: tr) d' where
  writing := h.writing
  asked := by
    rw [rewritten, hpieces, List.flatMap_cons]
    exact congrArg (updateLine config line ++ ·) h.asked
  succeeds_iff := by
    rw [List.forall_mem_cons, List.forall_mem_cons, written_eq_asked_cons, written_eq_asked_cons,
      succeeds_fputs within, h.succeeds_iff]
    exact and_congr_left' (iff_of_true rfl rfl)
  content := by
    rw [h.content, hwrite, Function.update_idem, hcontent, List.append_assoc]
    rfl

theorem updateLines_ends (h : Ends (updateLines config rounds) d tr () d')
    (writing : d.writing = some temp) (hcontent : d.content temp = some w)
    (apart : d.reading.map Prod.fst ≠ some temp ∨ d.unread = []) :
    Copied config temp w d tr d' := by
  induction rounds generalizing d tr w with
  | zero => exact absurd h Prog.not_ends_halt
  | succ rounds ih =>
      obtain ⟨line, d₁, rest, rfl, hread, h⟩ := Prog.ends_perform_bind.mp h
      obtain ⟨hsame, hwriting, hreading, hline⟩ := after_fgets two_le_maxLine hread
      rcases hline with ⟨rfl, hpieces⟩ | ⟨line, rfl, hpieces⟩
      · obtain ⟨rfl, -, rfl⟩ := Prog.ends_ret.mp h
        have succeed : ∀ e ∈ [(⟨.fgets maxLine, none⟩ : FileIo)], succeeds e = true :=
          List.forall_mem_singleton.mpr rfl
        refine ⟨hwriting.trans writing, ?_, iff_of_true succeed rfl, ?_⟩
        · rw [rewritten, hpieces]
          rfl
        · show d'.content = Function.update d.content temp (some (w ++ []))
          rw [List.append_nil, ← hcontent, Function.update_eq_self, hsame]
      -- a file that is read while it is written is empty, so a piece shows that it is another
      · obtain ⟨kept, d₂, tr, rfl, hwrite, h⟩ := Prog.ends_perform_bind.mp h
        have apart : d₁.reading.map Prod.fst ≠ some temp := by
          rw [hreading]
          refine apart.resolve_right fun nothing => ?_
          rw [nothing, pieces_nil] at hpieces
          cases hpieces
        obtain ⟨within, rfl⟩ := after_fputs (hwriting.trans writing)
          ((congrFun hsame temp).trans hcontent) hwrite
        refine (ih h (hwriting.trans writing) (Function.update_self ..) (.inl apart)).cons
          within ?_ hsame rfl
        rw [Disk.unread_change apart]
        exact hpieces

/-! ## Replacing the file -/

/-- What `remove` and `rename` leave, and what is returned. -/
inductive Replaces (filename : Bytes) (d : Disk) : List FileIo → Bool → Disk → Prop
  | kept {d' : Disk} (content : d'.content = d.content) :
      Replaces filename d [⟨.remove filename, false⟩] false d'
  | removed {d' : Disk} (content : d'.content = Function.update d.content filename none) :
      Replaces filename d
        [⟨.remove filename, true⟩, ⟨.rename (tempFilename filename) filename, false⟩] false d'
  | renamed {d' : Disk} (text : Bytes)
      (source : Function.update d.content filename none (tempFilename filename) = some text)
      (target : d'.content filename = some text) :
      Replaces filename d
        [⟨.remove filename, true⟩, ⟨.rename (tempFilename filename) filename, true⟩] true d'

/-- What `update_config_file` reads: nothing when the temporary file has the name of the
configuration file, which is empty then. -/
def readBack (filename f : Bytes) : Bytes := if tempFilename filename = filename then [] else f

/-- Both files were opened, `t` was done between them, and `lost` bytes never reached the
temporary file after it was closed. -/
structure Filled (config : Config) (filename f : Bytes) (t : List FileIo) (lost : Nat)
    (d d' : Disk) : Prop where
  present : d.content filename = some f
  calls : ∀ e ∈ t, e.call = .fgets maxLine ∨ ∃ text, e.call = .fputs text
  asked : asked t = rewritten config (readBack filename f)
  succeeds_iff : (∀ e ∈ t, succeeds e = true) ↔ written t = Files.asked t
  lost_le : lost ≤ (written t).length
  content : d'.content = Function.update d.content (tempFilename filename)
    (some ((written t).take ((written t).length - lost)))

/-- Enough rounds copy the file to its end. -/
theorem updateLines_exists (config : Config) (reading : d.reading.isSome = true)
    (writing : d.writing = some temp) (hcontent : d.content temp = some w)
    (apart : d.reading.map Prod.fst ≠ some temp)
    (enough : (pieces maxLine d.unread).length < rounds) :
    ∃ tr d', Ends (updateLines config rounds) d tr () d' ∧ ∀ e ∈ tr, succeeds e = true := by
  induction rounds generalizing d w with
  | zero => exact absurd enough (Nat.not_lt_zero _)
  | succ rounds ih =>
      obtain ⟨line, d₁, hread⟩ := fgets_answers maxLine reading
      obtain ⟨hsame, hwriting, hreading, hline⟩ := after_fgets two_le_maxLine hread
      rcases hline with ⟨rfl, -⟩ | ⟨line, rfl, hpieces⟩
      · exact ⟨_, _, Prog.ends_perform_bind.mpr ⟨none, d₁, [], rfl, hread,
          Prog.ends_ret.mpr ⟨rfl, rfl, rfl⟩⟩, List.forall_mem_singleton.mpr rfl⟩
      · rw [hpieces, List.length_cons] at enough
        obtain ⟨d₂, hwrite⟩ := fputs_answers (updateLine config line) (hwriting.trans writing)
        obtain ⟨-, hd₂⟩ := after_fputs (hwriting.trans writing)
          ((congrFun hsame temp).trans hcontent) hwrite
        have elsewhere : d₁.reading.map Prod.fst ≠ some temp := hreading ▸ apart
        have hunread : d₂.unread = d₁.unread := by rw [hd₂, Disk.unread_change elsewhere]
        have hreading₂ : d₂.reading = d₁.reading := by rw [hd₂, Disk.change]
        have reading₂ : d₂.reading.isSome = true := by
          rw [hreading₂, reading_after_fgets two_le_maxLine hread]
          exact reading
        have writing₂ : d₂.writing = some temp := by
          rw [hd₂]
          exact hwriting.trans writing
        have hcontent₂ : d₂.content temp =
            some (w ++ (updateLine config line).take (updateLine config line).length) := by
          rw [hd₂]
          exact Function.update_self ..
        obtain ⟨tr, d', hends, succeed⟩ := ih reading₂ writing₂ hcontent₂ (hreading₂ ▸ elsewhere)
          (hunread ▸ Nat.lt_of_succ_lt_succ enough)
        refine ⟨_, d', Prog.ends_perform_bind.mpr ⟨some line, d₁, _, rfl, hread,
          Prog.ends_perform_bind.mpr ⟨_, _, tr, rfl, hwrite, hends⟩⟩, ?_⟩
        refine List.forall_mem_cons.mpr ⟨rfl, List.forall_mem_cons.mpr ⟨?_, succeed⟩⟩
        exact (succeeds_fputs (Nat.le_refl _)).mpr List.take_length

theorem updateLines_calls (config : Config) (rounds : Nat) :
    (updateLines config rounds).Calls fun c => c = .fgets maxLine ∨ ∃ text, c = .fputs text := by
  induction rounds with
  | zero => trivial
  | succ rounds ih =>
      refine Prog.Calls.call (.inl rfl) fun line => ?_
      cases line with
      | none => trivial
      | some line => exact Prog.Calls.call (.inr ⟨_, rfl⟩) fun _ => ih

theorem replace_ends {b : Bool}
    (h : Ends (do
        let removed ← Files.perform (.remove filename)
        if removed then
          let renamed ← Files.perform (.rename (tempFilename filename) filename)
          if renamed then return true else return false
        else
          return false) d tr b d') :
    Replaces filename d tr b d' := by
  obtain ⟨removed, d₁, rest, rfl, hremove, h⟩ := Prog.ends_perform_bind.mp h
  replace hremove := after_remove hremove
  cases removed with
  | false =>
      obtain ⟨rfl, rfl, rfl⟩ := Prog.ends_ret.mp h
      exact .kept hremove
  | true =>
      obtain ⟨renamed, d₂, rest, rfl, hrename, h⟩ := Prog.ends_perform_bind.mp h
      replace hrename := after_rename hrename
      rw [if_pos rfl] at hremove
      cases renamed with
      | false =>
          obtain ⟨rfl, rfl, rfl⟩ := Prog.ends_ret.mp h
          exact .removed (Eq.trans hrename hremove)
      | true =>
          obtain ⟨rfl, rfl, rfl⟩ := Prog.ends_ret.mp h
          obtain ⟨text, source, target⟩ := hrename
          rw [hremove] at source
          exact .renamed text source (by rw [target, Function.update_self])

/-- Both files are open, and nothing is read or written. -/
def bothOpen (d : Disk) (filename : Bytes) : Disk where
  content := Function.update d.content (tempFilename filename) (some [])
  reading := some (filename, 0)
  writing := some (tempFilename filename)

/-- What is read is the configuration file, unless that is the file that was emptied. -/
theorem unread_bothOpen (hf : d.content filename = some f) :
    (bothOpen d filename).unread = readBack filename f := by
  rw [Disk.unread_of_reading rfl, readBack]
  show (((Function.update d.content (tempFilename filename) (some [])) filename).getD []).drop 0 = _
  by_cases same : tempFilename filename = filename
  · rw [if_pos same, same, Function.update_self]
    rfl
  · rw [if_neg same, Function.update_of_ne (Ne.symm same), hf]
    rfl

theorem bothOpen_apart (apart : tempFilename filename ≠ filename) :
    (bothOpen d filename).reading.map Prod.fst ≠ some (tempFilename filename) :=
  fun same => apart (Option.some.inj same).symm

/-- The exchanges of a run in which both files are opened. -/
def openedRun (filename : Bytes) (t : List FileIo) (lost : Nat) (rest : List FileIo) :
    List FileIo :=
  ⟨.fopenRead filename, true⟩ :: ⟨.fopenWrite (tempFilename filename), true⟩ ::
    (t ++ ⟨.fcloseRead, ()⟩ :: ⟨.fcloseWrite, lost⟩ :: rest)

/-- From opening to closing both files. -/
theorem filled {lost : Nat} {d₃ d₅ : Disk} (hf : d.content filename = some f)
    (hcopy : Ends (updateLines config rounds) (bothOpen d filename) tr () d₃)
    (hcloseWrite : fileSystem.step { d₃ with reading := none } .fcloseWrite lost = some d₅) :
    Filled config filename f tr lost d d₅ := by
  have hunread := unread_bothOpen hf
  have apart : (bothOpen d filename).reading.map Prod.fst ≠ some (tempFilename filename) ∨
      (bothOpen d filename).unread = [] := by
    by_cases same : tempFilename filename = filename
    · rw [hunread, readBack, if_pos same]
      exact .inr rfl
    · exact .inl (bothOpen_apart same)
  have copied := updateLines_ends hcopy rfl (Function.update_self ..) apart
  have hcontent : d₃.content (tempFilename filename) = some (written tr) := by
    rw [copied.content, Function.update_self, List.nil_append]
  obtain ⟨hlost, hd₅⟩ := after_fcloseWrite (d := { d₃ with reading := none }) copied.writing
    hcontent hcloseWrite
  refine ⟨hf, (updateLines_calls config rounds).runs hcopy.1, ?_, copied.succeeds_iff, hlost, ?_⟩
  · rw [copied.asked, hunread]
  · rw [hd₅]
    show Function.update d₃.content _ _ = _
    rw [copied.content]
    exact (Function.update_idem ..).trans (Function.update_idem ..)

/-- **What `update_config_file` can do.** A file is not opened and nothing changes; or the
temporary file is filled, and takes the place of the configuration file or not. -/
theorem updateConfigFile_ends {b : Bool}
    (h : Ends (updateConfigFile rounds filename config) d tr b d') :
    (b = false ∧ d'.content = d.content ∧ (∀ e ∈ tr, e.call ≠ .remove filename) ∧
        ⟨.fopenWrite (tempFilename filename), true⟩ ∉ tr) ∨
      ∃ f t lost rest d₁, tr = openedRun filename t lost rest ∧
        Filled config filename f t lost d d₁ ∧ Replaces filename d₁ rest b d' := by
  obtain ⟨fin, d₁, rest, rfl, hread, h₁⟩ := Prog.ends_perform_bind.mp h
  clear h
  cases fin with
  | false =>
      obtain ⟨rfl, rfl, rfl⟩ := Prog.ends_ret.mp h₁
      cases hread
      exact .inl ⟨rfl, rfl, by simp, by simp⟩
  | true =>
      obtain ⟨fout, d₂, rest, rfl, hwrite, h₂⟩ := Prog.ends_perform_bind.mp h₁
      clear h₁
      cases fout with
      | false =>
          obtain ⟨_, d₃, rest, rfl, hclose, h₃⟩ := Prog.ends_perform_bind.mp h₂
          obtain ⟨rfl, rfl, rfl⟩ := Prog.ends_ret.mp h₃
          obtain ⟨rfl, -⟩ := after_fopenRead hread
          cases hwrite
          cases hclose
          exact .inl ⟨rfl, rfl, by simp, by simp⟩
      | true =>
          obtain ⟨_, d₃, t, rest, rfl, hcopy, h₃⟩ := Prog.ends_bind.mp h₂
          obtain ⟨_, d₄, rest, rfl, hcloseRead, h₄⟩ := Prog.ends_perform_bind.mp h₃
          obtain ⟨lost, d₅, rest, rfl, hcloseWrite, h₅⟩ := Prog.ends_perform_bind.mp h₄
          refine .inr ⟨d₁.unread, t, lost, rest, d₅, rfl, ?_, replace_ends h₅⟩
          obtain ⟨rfl, hf⟩ := after_fopenRead hread
          obtain rfl := Option.some.inj hwrite
          obtain rfl := Option.some.inj hcloseRead
          exact filled hf hcopy hcloseWrite

/-! ## What is left under the name of the file -/

namespace Filled

variable {lost : Nat} {t : List FileIo}

/-- The bytes that the temporary file has in the end. -/
theorem temporary (h : Filled config filename f t lost d d') :
    d'.content (tempFilename filename) =
      some ((written t).take ((written t).length - lost)) := by
  rw [h.content, Function.update_self]

/-- The configuration file is not touched, if the temporary file is another one. -/
theorem original (h : Filled config filename f t lost d d')
    (apart : tempFilename filename ≠ filename) : d'.content filename = d.content filename := by
  rw [h.content, Function.update_of_ne apart.symm]

/-- The temporary file is complete if and only if no operation lost anything. -/
theorem complete_iff (h : Filled config filename f t lost d d')
    (apart : tempFilename filename ≠ filename) :
    (written t).take ((written t).length - lost) = rewritten config f ↔
      (∀ e ∈ t, succeeds e = true) ∧ lost = 0 := by
  have asked := h.asked
  rw [readBack, if_neg apart] at asked
  rw [← asked, take_written_eq_asked h.lost_le, h.succeeds_iff]

/-- A configuration file that is its own temporary file is empty in the end. -/
theorem emptied (h : Filled config filename f t lost d d')
    (same : tempFilename filename = filename) : d'.content filename = some [] := by
  have nothing : written t = [] := by
    have asked := h.asked
    rw [readBack, if_pos same, rewritten, pieces_nil] at asked
    have hle := length_written_le t
    rw [asked] at hle
    exact List.eq_nil_of_length_eq_zero (Nat.le_zero.mp hle)
  have temporary := h.temporary
  rw [same, nothing, List.take_nil] at temporary
  exact temporary

/-- Nothing is removed between opening and closing. -/
theorem remove_mem_iff (h : Filled config filename f t lost d d') (rest : List FileIo) :
    ⟨.remove filename, true⟩ ∈ openedRun filename t lost rest ↔
      (⟨.remove filename, true⟩ : FileIo) ∈ rest := by
  have absent : (⟨.remove filename, true⟩ : FileIo) ∉ t := by
    intro member
    rcases h.calls _ member with reads | ⟨text, writes⟩
    · cases reads
    · cases writes
  simp [openedRun, absent]

/-- A run loses nothing if the copy loses nothing and the file is replaced. -/
theorem succeed_iff (filename : Bytes) (t rest : List FileIo) (lost : Nat) :
    (∀ e ∈ openedRun filename t lost rest, succeeds e = true) ↔
      ((∀ e ∈ t, succeeds e = true) ∧ lost = 0) ∧ ∀ e ∈ rest, succeeds e = true := by
  rw [openedRun, List.forall_mem_cons, List.forall_mem_cons, List.forall_mem_append,
    List.forall_mem_cons, List.forall_mem_cons]
  simp only [Files.succeeds, true_and, decide_eq_true_eq, and_assoc]

end Filled

/-- A file that is its own temporary file is not replaced. -/
theorem Replaces.apart {rest : List FileIo} (h : Replaces filename d rest true d') :
    tempFilename filename ≠ filename := by
  intro same
  cases h with
  | renamed text source target =>
      rw [same, Function.update_self] at source
      cases source

/-- What the name of the file stands for when both files were opened. -/
theorem replaces_content_iff {b : Bool} {lost : Nat} {t rest : List FileIo} {d₁ : Disk}
    (filled : Filled config filename f t lost d d₁) (replaces : Replaces filename d₁ rest b d') :
    d'.content filename =
        (if b then (d.content filename).map (rewritten config) else d.content filename) ↔
      ((⟨.remove filename, true⟩ : FileIo) ∈ rest →
          ((∀ e ∈ t, succeeds e = true) ∧ lost = 0) ∧ ∀ e ∈ rest, succeeds e = true) ∧
        (tempFilename filename = filename → d.content filename = some []) := by
  rw [filled.present]
  cases replaces with
  | kept content =>
      rw [content, and_iff_right (fun h => absurd h (by simp))]
      -- nothing was removed: the file is lost only if it was opened as the temporary one
      by_cases same : tempFilename filename = filename
      · rw [filled.emptied same]
        exact ⟨fun h _ => h.symm, fun h => (h same).symm⟩
      · rw [filled.original same, filled.present]
        exact iff_of_true rfl fun h => absurd h same
  | removed content =>
      -- the old file is gone, and nothing came in its place
      rw [content, Function.update_self]
      refine iff_of_false (by simp) fun h => ?_
      have renamed := (h.1 List.mem_cons_self).2 _ (List.mem_cons_of_mem _ List.mem_cons_self)
      cases renamed
  | renamed text source target =>
      have replaces : Replaces filename d₁ _ true d' := .renamed text source target
      have apart := replaces.apart
      rw [Function.update_of_ne apart, filled.temporary] at source
      have replaced : ∀ e ∈ ([⟨.remove filename, true⟩,
          ⟨.rename (tempFilename filename) filename, true⟩] : List FileIo), succeeds e = true := by
        simp [Files.succeeds]
      -- what is found now is the temporary file, complete or not
      rw [target, ← source, and_iff_left fun h => absurd h apart, ← filled.complete_iff apart]
      show some _ = some (rewritten config f) ↔ _
      rw [Option.some_inj]
      exact ⟨fun h _ => ⟨h, replaced⟩, fun h => (h List.mem_cons_self).1⟩

/-! ## Runs in which everything succeeds -/

/-- `update_config_file` can return true and leave this disk when every operation
succeeds. -/
def Updates (d : Disk) (filename : Bytes) (config : Config) (d' : Disk) : Prop :=
  ∃ rounds tr, Ends (updateConfigFile rounds filename config) d tr true d' ∧
    ∀ e ∈ tr, succeeds e = true

theorem Updates.content (h : Updates d filename config d') :
    ∃ f, d.content filename = some f ∧ d'.content filename = some (rewritten config f) := by
  obtain ⟨rounds, tr, hends, succeed⟩ := h
  rcases updateConfigFile_ends hends with ⟨failed, -⟩ | ⟨f, t, lost, rest, d₁, rfl, filled, replaces⟩
  · cases failed
  · have whole := (replaces_content_iff filled replaces).mpr
      ⟨fun _ => (Filled.succeed_iff filename t rest lost).mp succeed,
        fun same => absurd same replaces.apart⟩
    refine ⟨f, filled.present, ?_⟩
    rw [whole, if_pos rfl, filled.present, Option.map_some]

theorem Updates.loadsExactly_iff (h : Updates d filename config d')
    (hf : d.content filename = some f) :
    LoadsExactly d' filename c ↔ loaded (rewritten config f) = c := by
  obtain ⟨f', hf', hcontent⟩ := h.content
  rw [hf] at hf'
  rw [Option.some.inj hf']
  exact SimpleProxy.loadsExactly_iff hcontent

/-- A file that is there can be rewritten, if its name leaves room for the other one's. -/
theorem exists_updates (config : Config) (apart : tempFilename filename ≠ filename)
    (hf : d.content filename = some f) : ∃ d', Updates d filename config d' := by
  have present : (d.content filename).isSome = true := by rw [hf]; rfl
  obtain ⟨t, d₃, hcopy, succeed⟩ := updateLines_exists config (d := bothOpen d filename) rfl rfl
    (Function.update_self ..) (bothOpen_apart apart) (Nat.lt_succ_self _)
  have copied := updateLines_ends hcopy rfl (Function.update_self ..)
    (.inl (bothOpen_apart apart))
  obtain ⟨d₅, hclose⟩ := fcloseWrite_answers (d := { d₃ with reading := none }) copied.writing
  have complete := filled hf hcopy hclose
  have stays : (d₅.content filename).isSome = true := by
    rw [complete.original apart]
    exact present
  have hremove := remove_answers stays
  have temporary := complete.temporary
  rw [← Function.update_of_ne apart none d₅.content] at temporary
  obtain ⟨d', hrename⟩ : ∃ d', fileSystem.step (d₅.change filename none)
      (.rename (tempFilename filename) filename) true = some d' :=
    ⟨_, rename_answers filename temporary⟩
  refine ⟨d', (pieces maxLine (bothOpen d filename).unread).length + 1,
    openedRun filename t 0 [⟨.remove filename, true⟩,
      ⟨.rename (tempFilename filename) filename, true⟩], ?_, ?_⟩
  · refine Prog.ends_perform_bind.mpr ⟨true, _, _, rfl, fopenRead_answers present, ?_⟩
    refine Prog.ends_perform_bind.mpr ⟨true, bothOpen d filename, _, rfl, rfl, ?_⟩
    refine Prog.ends_bind.mpr ⟨(), d₃, t, _, rfl, hcopy, ?_⟩
    refine Prog.ends_perform_bind.mpr ⟨(), _, _, rfl, rfl, ?_⟩
    refine Prog.ends_perform_bind.mpr ⟨(0 : Nat), d₅, _, rfl, hclose, ?_⟩
    refine Prog.ends_perform_bind.mpr ⟨true, _, _, rfl, hremove, ?_⟩
    refine Prog.ends_perform_bind.mpr ⟨true, _, [], rfl, hrename, ?_⟩
    exact Prog.ends_ret.mpr ⟨rfl, rfl, rfl⟩
  · refine (Filled.succeed_iff filename t _ 0).mpr ⟨⟨succeed, rfl⟩, ?_⟩
    simp [Files.succeeds]

end SimpleProxy
