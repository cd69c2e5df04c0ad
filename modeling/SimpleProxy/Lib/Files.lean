import SimpleProxy.Lib.Prog
import SimpleProxy.Lib.Lines
import Mathlib.Logic.Function.Basic

/-!
# Files

C streams over a file system, as an environment for programs: a program has at most
one stream open for reading and one for writing. Any operation may fail. `fgets` answers a
read error as it answers the end of the file, with nothing; `fileSystem` is the file system
on which no read fails, `faulty` the one with read errors. What is lost of a write shows
nowhere but in the file: `fputs` is answered by the number of bytes that reach the file,
and the `fclose` of a stream that was written by the number of bytes at its end that do not.
-/

namespace Files

open Interact CString

inductive Call
  | fopenRead (path : Bytes)
  | fopenWrite (path : Bytes)
  | fgets (size : Nat)
  | fputs (text : Bytes)
  | fcloseRead
  | fcloseWrite
  | remove (path : Bytes)
  | rename (old new : Bytes)
  deriving DecidableEq, Repr

abbrev Answer : Call → Type
  | .fopenRead _ => Bool
  | .fopenWrite _ => Bool
  | .fgets _ => Option Bytes
  | .fputs _ => Nat
  | .fcloseRead => Unit
  | .fcloseWrite => Nat
  | .remove _ => Bool
  | .rename .. => Bool

/-- A program that works on files. -/
abbrev FileProg := Prog Answer

abbrev perform (c : Call) : FileProg (Answer c) := Prog.perform c

/-- One operation and its result. -/
abbrev FileIo := Exchange Answer

/-- The operation did all it was asked for. -/
def succeeds : FileIo → Bool
  | ⟨.fopenRead _, ok⟩ => ok
  | ⟨.fopenWrite _, ok⟩ => ok
  | ⟨.fgets _, _⟩ => true
  | ⟨.fputs text, kept⟩ => kept = text.length
  | ⟨.fcloseRead, _⟩ => true
  | ⟨.fcloseWrite, lost⟩ => lost = 0
  | ⟨.remove _, ok⟩ => ok
  | ⟨.rename .., ok⟩ => ok

/-- The files, and the two streams: the file that is read with the position in it, and
the file that is written. -/
structure Disk where
  content : Bytes → Option Bytes
  reading : Option (Bytes × Nat)
  writing : Option Bytes

namespace Disk

/-- The part of the file that is not read yet. -/
def unread (d : Disk) : Bytes :=
  match d.reading with
  | none => []
  | some (path, position) => ((d.content path).getD []).drop position

/-- Change a file. -/
def change (d : Disk) (path : Bytes) (content : Option Bytes) : Disk :=
  { d with content := Function.update d.content path content }

/-- The disk after an operation that was answered so; `none` if it never is. -/
def after (d : Disk) : (c : Call) → Answer c → Option Disk
  | .fopenRead path, ok =>
    if ok then
      if (d.content path).isSome then some { d with reading := some (path, 0) } else none
    else some d
  | .fopenWrite path, ok =>
    if ok then some { d.change path (some []) with writing := some path } else some d
  | .fgets size, line =>
    match d.reading with
    | none => none
    | some (path, position) =>
      if line = (CString.fgets size d.unread).map Prod.fst then
        some { d with reading := some (path, position + (line.getD []).length) }
      -- a read error
      else if line = none then some d
      else none
  | .fputs text, kept =>
    match d.writing with
    | none => none
    | some path =>
      if kept ≤ text.length then
        some (d.change path ((d.content path).map (· ++ text.take kept)))
      else none
  | .fcloseRead, _ => some { d with reading := none }
  | .fcloseWrite, lost =>
    match d.writing with
    | none => none
    | some path =>
      if lost ≤ ((d.content path).getD []).length then
        some { d.change path ((d.content path).map fun text => text.take (text.length - lost)) with
          writing := none }
      else none
  | .remove path, ok =>
    if ok then if (d.content path).isSome then some (d.change path none) else none else some d
  | .rename old new, ok =>
    if ok then
      match d.content old with
      | none => none
      | some text => some ((d.change old none).change new (some text))
    else some d

/-- A read that fails, though there is more to read. -/
def readFails (d : Disk) : (c : Call) → Answer c → Bool
  | .fgets size, line => line = none && (CString.fgets size d.unread).isSome
  | _, _ => false

end Disk

/-- The file system as an environment, with read errors. -/
def faulty : Env Answer Disk where
  step d c r := d.after c r

/-- The file system on which no read fails. -/
def fileSystem : Env Answer Disk where
  step d c r := if d.readFails c r then none else d.after c r

/-- Something of a write is lost. -/
def loses : FileIo → Bool
  | ⟨.fputs text, kept⟩ => kept ≠ text.length
  | ⟨.fcloseWrite, lost⟩ => lost ≠ 0
  | _ => false

/-- On a sound disk no read fails and nothing of a write is lost; on any other both can happen. -/
def storage (sound : Bool) : Env Answer Disk :=
  if sound then fileSystem.restrict fun e => !loses e else faulty

/-- The program can end so on this disk, and leaves that one. -/
abbrev Ends {α : Type} (p : FileProg α) (d : Disk) (tr : List FileIo) (a : α) (d' : Disk) : Prop :=
  Prog.Ends fileSystem p d tr a d'

/-! ## Reading -/

variable {d d' : Disk} {size : Nat} {tr : List FileIo}

theorem Disk.unread_of_reading {path : Bytes} {position : Nat}
    (h : d.reading = some (path, position)) :
    d.unread = ((d.content path).getD []).drop position := by
  rw [unread, h]

/-- A file that is there can be opened. -/
theorem fopenRead_answers {path : Bytes} (present : (d.content path).isSome = true) :
    fileSystem.step d (.fopenRead path) true = some { d with reading := some (path, 0) } := by
  show (if (d.content path).isSome then _ else _) = _
  rw [if_pos present]

/-- A file that is opened is there, and nothing of it is read. -/
theorem after_fopenRead {path : Bytes} (h : fileSystem.step d (.fopenRead path) true = some d') :
    d' = { d with reading := some (path, 0) } ∧ d.content path = some d'.unread := by
  change (if (d.content path).isSome then _ else none) = some d' at h
  split at h
  · rename_i present
    cases h
    obtain ⟨f, hf⟩ := Option.isSome_iff_exists.mp present
    refine ⟨rfl, ?_⟩
    rw [Disk.unread_of_reading rfl, List.drop_zero, hf, Option.getD_some]
  · cases h

/-- What `fgets` answers where reads do not fail. -/
theorem fileSystem_fgets {line : Option Bytes} :
    fileSystem.step d (.fgets size) line = some d' ↔
      line = (CString.fgets size d.unread).map Prod.fst ∧
        d.after (.fgets size) line = some d' := by
  show (if Disk.readFails d (.fgets size) line then none else _) = some d' ↔ _
  constructor
  · intro h
    split at h
    · cases h
    · rename_i well
      refine ⟨?_, h⟩
      by_contra other
      unfold Disk.after at h
      dsimp only at h
      split at h
      · cases h
      · rw [if_neg other] at h
        split at h
        · rename_i nothing
          subst nothing
          cases hnext : CString.fgets size d.unread with
          | none => exact other (by rw [hnext]; rfl)
          | some next => exact well (by simp [Disk.readFails, hnext])
        · cases h
  · rintro ⟨rfl, h⟩
    rw [if_neg ?_]
    · exact h
    · cases hnext : CString.fgets size d.unread <;> simp [Disk.readFails, hnext]

/-- A read error changes nothing; any other answer is that of a disk on which no read fails. -/
theorem faulty_fgets {line : Option Bytes} (h : faulty.step d (.fgets size) line = some d') :
    line = none ∧ d' = d ∨ fileSystem.step d (.fgets size) line = some d' := by
  by_cases next : line = (CString.fgets size d.unread).map Prod.fst
  · exact .inr (fileSystem_fgets.mpr ⟨next, h⟩)
  · change d.after (.fgets size) line = some d' at h
    unfold Disk.after at h
    dsimp only at h
    split at h
    · cases h
    · rw [if_neg next] at h
      split at h
      · rename_i nothing
        cases h
        exact .inl ⟨nothing, rfl⟩
      · cases h

/-- On a sound disk there are no read errors. -/
theorem storage_fgets {sound : Bool} {line : Option Bytes}
    (h : (storage sound).step d (.fgets size) line = some d') :
    (sound = false ∧ line = none ∧ d' = d) ∨ fileSystem.step d (.fgets size) line = some d' := by
  cases sound with
  | false => exact (faulty_fgets h).imp_left fun fails => ⟨rfl, fails⟩
  | true => exact .inr h

/-- Whatever a disk does, one that may fail can do. -/
theorem storage_after {sound : Bool} {c : Call} {r : Answer c}
    (step : (storage sound).step d c r = some d') : d.after c r = some d' := by
  cases sound with
  | false => exact step
  | true =>
      change (if _ then (if _ then none else d.after c r) else none) = some d' at step
      split at step
      · split at step
        · cases step
        · exact step
      · cases step

/-- One `fgets` reads the next piece and leaves the others. -/
theorem after_fgets (big : 2 ≤ size) {line : Option Bytes}
    (h : fileSystem.step d (.fgets size) line = some d') :
    d'.content = d.content ∧ d'.writing = d.writing ∧
      d'.reading.map Prod.fst = d.reading.map Prod.fst ∧
      ((line = none ∧ pieces size d.unread = []) ∨
        ∃ piece, line = some piece ∧
          pieces size d.unread = piece :: pieces size d'.unread) := by
  obtain ⟨hline, h⟩ := fileSystem_fgets.mp h
  unfold Disk.after at h
  cases hreading : d.reading with
  | none => simp [hreading] at h
  | some stream =>
      obtain ⟨path, position⟩ := stream
      simp only [hreading, if_pos hline] at h
      cases h
      refine ⟨rfl, rfl, rfl, ?_⟩
      cases hnext : CString.fgets size d.unread with
      | none =>
          rw [hnext] at hline
          exact .inl ⟨hline, pieces_of_fgets_eq_none hnext⟩
      | some next =>
          obtain ⟨piece, rest⟩ := next
          rw [hnext] at hline
          obtain rfl : line = some piece := hline
          obtain ⟨hcut, hpieces⟩ := fgets_eq_some big hnext
          have hrest : ((d.content path).getD []).drop (position + piece.length) = rest := by
            rw [← List.drop_drop, ← Disk.unread_of_reading hreading, hcut, List.drop_left]
          refine .inr ⟨piece, rfl, ?_⟩
          rw [hpieces, ← hrest]
          rfl

/-- The stream stays open. -/
theorem reading_after_fgets (big : 2 ≤ size) {line : Option Bytes}
    (h : fileSystem.step d (.fgets size) line = some d') :
    d'.reading.isSome = d.reading.isSome := by
  obtain ⟨-, -, same, -⟩ := after_fgets big h
  rw [← Option.isSome_map (f := Prod.fst), same, Option.isSome_map]

/-- An open stream can be read. -/
theorem fgets_answers (size : Nat) (reading : d.reading.isSome = true) :
    ∃ line d', fileSystem.step d (.fgets size) line = some d' := by
  obtain ⟨⟨path, position⟩, hreading⟩ := Option.isSome_iff_exists.mp reading
  refine ⟨_, { d with reading := some (path, position +
    (((CString.fgets size d.unread).map Prod.fst).getD []).length) },
    fileSystem_fgets.mpr ⟨rfl, ?_⟩⟩
  unfold Disk.after
  simp only [hreading, if_true]

/-- The stream that is read is not changed by a write to another file. -/
theorem Disk.unread_change {path : Bytes} {content : Option Bytes}
    (apart : d.reading.map Prod.fst ≠ some path) : (d.change path content).unread = d.unread := by
  unfold Disk.unread Disk.change
  cases hreading : d.reading with
  | none => rfl
  | some stream =>
      obtain ⟨source, position⟩ := stream
      have other : source ≠ path := by
        rintro rfl
        exact apart (by rw [hreading]; rfl)
      dsimp only
      rw [Function.update_of_ne other]

/-! ## Writing -/

section Writing

variable {path text w : Bytes}

/-- One `fputs` adds to the file what is not lost. -/
theorem after_fputs {kept : Nat} (writing : d.writing = some path)
    (hcontent : d.content path = some w)
    (h : fileSystem.step d (.fputs text) kept = some d') :
    kept ≤ text.length ∧ d' = d.change path (some (w ++ text.take kept)) := by
  change d.after (.fputs text) kept = some d' at h
  unfold Disk.after at h
  rw [writing] at h
  dsimp only at h
  rw [hcontent] at h
  split at h
  · rename_i within
    cases h
    exact ⟨within, rfl⟩
  · cases h

theorem fputs_answers (text : Bytes) (writing : d.writing = some path) :
    ∃ d', fileSystem.step d (.fputs text) text.length = some d' := by
  refine Option.isSome_iff_exists.mp ?_
  show (d.after (.fputs text) _).isSome = true
  unfold Disk.after
  simp only [writing, Nat.le_refl, if_true, Option.isSome_some]

/-- What is lost when the stream is closed is missing at the end. -/
theorem after_fcloseWrite {lost : Nat} (writing : d.writing = some path)
    (hcontent : d.content path = some w)
    (h : fileSystem.step d .fcloseWrite lost = some d') :
    lost ≤ w.length ∧
      d'.content = Function.update d.content path (some (w.take (w.length - lost))) := by
  change d.after .fcloseWrite lost = some d' at h
  unfold Disk.after at h
  rw [writing] at h
  dsimp only at h
  rw [hcontent] at h
  split at h
  · rename_i within
    cases h
    exact ⟨within, rfl⟩
  · cases h

theorem fcloseWrite_answers (writing : d.writing = some path) :
    ∃ d', fileSystem.step d .fcloseWrite 0 = some d' := by
  refine Option.isSome_iff_exists.mp ?_
  show (d.after .fcloseWrite 0).isSome = true
  unfold Disk.after
  simp only [writing, Nat.zero_le, if_true, Option.isSome_some]

theorem remove_answers (present : (d.content path).isSome = true) :
    fileSystem.step d (.remove path) true = some (d.change path none) := by
  show (if (d.content path).isSome then _ else _) = _
  rw [if_pos present]

theorem rename_answers (new : Bytes) (present : d.content path = some text) :
    fileSystem.step d (.rename path new) true =
      some ((d.change path none).change new (some text)) := by
  show d.after (.rename path new) true = _
  unfold Disk.after
  simp only [if_true, present]

theorem after_remove {removed : Bool} (h : fileSystem.step d (.remove path) removed = some d') :
    d'.content = if removed then Function.update d.content path none else d.content := by
  change d.after (.remove path) removed = some d' at h
  unfold Disk.after at h
  cases removed with
  | false =>
      cases h
      rfl
  | true =>
      simp only [↓reduceIte] at h
      split at h
      · cases h
        rfl
      · cases h

/-- A file that is not there is not renamed. -/
theorem after_rename {new : Bytes} {renamed : Bool}
    (h : fileSystem.step d (.rename path new) renamed = some d') :
    if renamed then
      ∃ text, d.content path = some text ∧
        d'.content = Function.update (Function.update d.content path none) new (some text)
    else d'.content = d.content := by
  change d.after (.rename path new) renamed = some d' at h
  unfold Disk.after at h
  cases renamed with
  | false =>
      cases h
      rfl
  | true =>
      simp only [↓reduceIte] at h
      split at h
      · cases h
      · rename_i text hcontent
        cases h
        exact ⟨text, hcontent, rfl⟩

end Writing

/-- What was given to `fputs`. -/
def FileIo.asked : FileIo → Bytes
  | ⟨.fputs text, _⟩ => text
  | _ => []

/-- What of it reached the file. -/
def FileIo.written : FileIo → Bytes
  | ⟨.fputs text, kept⟩ => text.take kept
  | _ => []

def asked (tr : List FileIo) : Bytes := tr.flatMap FileIo.asked

def written (tr : List FileIo) : Bytes := tr.flatMap FileIo.written

@[simp] theorem asked_nil : asked [] = [] := rfl

@[simp] theorem written_nil : written [] = [] := rfl

@[simp] theorem asked_cons (e : FileIo) (tr : List FileIo) :
    asked (e :: tr) = e.asked ++ asked tr := rfl

@[simp] theorem written_cons (e : FileIo) (tr : List FileIo) :
    written (e :: tr) = e.written ++ written tr := rfl

theorem FileIo.length_written_le (e : FileIo) : e.written.length ≤ e.asked.length := by
  obtain ⟨c, r⟩ := e
  cases c with
  | fputs text => exact List.length_take_le' r text
  | _ => exact Nat.le_refl _

theorem length_written_le (tr : List FileIo) : (written tr).length ≤ (asked tr).length := by
  induction tr with
  | nil => exact Nat.le_refl _
  | cons e tr ih =>
      rw [written_cons, asked_cons, List.length_append, List.length_append]
      exact Nat.add_le_add e.length_written_le ih

/-- Nothing is lost of a list of writes when nothing is lost of each. -/
theorem written_eq_asked_cons {e : FileIo} :
    written (e :: tr) = asked (e :: tr) ↔ e.written = e.asked ∧ written tr = asked tr := by
  constructor
  · intro same
    rw [written_cons, asked_cons] at same
    have hlength := congrArg List.length same
    rw [List.length_append, List.length_append] at hlength
    have hfirst := e.length_written_le
    have hrest := length_written_le tr
    exact List.append_inj same (by omega)
  · rintro ⟨hfirst, hrest⟩
    rw [written_cons, asked_cons, hfirst, hrest]

/-- A write that keeps everything it was asked for succeeds. -/
theorem succeeds_fputs {text : Bytes} {kept : Nat} (within : kept ≤ text.length) :
    succeeds ⟨.fputs text, kept⟩ = true ↔
      FileIo.written ⟨.fputs text, kept⟩ = FileIo.asked ⟨.fputs text, kept⟩ := by
  show decide (kept = text.length) = true ↔ text.take kept = text
  rw [decide_eq_true_eq]
  constructor
  · rintro rfl
    exact List.take_length
  · intro same
    have hlength := congrArg List.length same
    rw [List.length_take] at hlength
    omega

/-- A text that may be cut at its end is the one that was asked for if and only if nothing
was lost, neither on the way nor at the end. -/
theorem take_written_eq_asked {lost : Nat} (within : lost ≤ (written tr).length) :
    (written tr).take ((written tr).length - lost) = asked tr ↔
      written tr = asked tr ∧ lost = 0 := by
  constructor
  · intro same
    have hlength := congrArg List.length same
    have hle := length_written_le tr
    rw [List.length_take] at hlength
    have none : lost = 0 := by omega
    rw [none, Nat.sub_zero, List.take_length] at same
    exact ⟨same, none⟩
  · rintro ⟨same, rfl⟩
    rw [Nat.sub_zero, List.take_length, same]

end Files
