import SimpleProxy.Core.Config
import SimpleProxy.Lib.Loop
import SimpleProxy.ProxyConfig.Commands

/-!
# The prompts of the setup

`ask_port` and `ask_db_port` of `setup.c`. Each asks until it gets a line it takes; what
they print is left out.
-/

namespace SimpleProxy

open Interact CString

/-- What `get_input` leaves in its buffer, unless reading fails. -/
def getInput (bufferLen : Nat) : ToolProc (Option Bytes) := do
  let line ← toolPerform (.fgets bufferLen)
  return line.map chomp

def isAllDigits (str : Bytes) : Bool := str ≠ [] && str.all isdigit

/-- What a prompt makes of its input: it asks again, or returns a number. -/
def takeLine (default : Int) (outside : Int → Bool) : Option Bytes → Unit ⊕ Int
  | none => .inr (-1)
  | some buffer =>
    if buffer = [] then .inr default
    else if !isAllDigits buffer then .inl ()
    else
      let port := atoi buffer
      if outside port then .inl () else .inr port

/-- One round of a prompt for a port. -/
def askRound (default : Int) (outside : Int → Bool) (bufferSize : Nat) :
    Loop ToolAnswer Unit Int := fun _ => do
  let input ← getInput bufferSize
  return takeLine default outside input

/-- `DEFAULT_PORT` -/
def defaultPort : Int := 3128

/-- `DEFAULT_DB_PORT` -/
def defaultDbPort : Int := 3306

/-- The test of `ask_port`: no number is below 0 and above 65535. -/
def outsidePort (port : Int) : Bool := port < 0 && port > 65535

def outsideDbPort (port : Int) : Bool := port < 0 || port > 65535

def askPort (bufferSize : Nat) : Loop ToolAnswer Unit Int :=
  askRound defaultPort outsidePort bufferSize

def askDbPort (bufferSize : Nat) : Loop ToolAnswer Unit Int :=
  askRound defaultDbPort outsideDbPort bufferSize

/-! ## A prompt and its input -/

/-- What `fgets` stores at each call, and nothing once reading fails. -/
abbrev Typed := Nat → Option Bytes

/-- A terminal with someone at its keyboard. -/
def keyboard (typed : Typed) : Peer ToolAnswer
  | past, .fgets _ => typed past.length
  | _, .malloc => true
  | _, .dbExecute _ => .failed

/-- The prompt returns a number after line `n`. -/
def Answers (typed : Typed) (ask : Loop ToolAnswer Unit Int) (n : Nat) (r : Int) : Prop :=
  ∃ past, Loop.Returns (keyboard typed) ask [] () past r ∧ past.length = n + 1

/-- What is in the buffer after the `n`th call of `get_input`. -/
def Typed.line (typed : Typed) (n : Nat) : Option Bytes := (typed n).map chomp

variable {typed : Typed} {default : Int} {outside : Int → Bool} {size : Nat}

/-- One round reads one line. -/
theorem askRound_play (typed : Typed) (default : Int) (outside : Int → Bool) (size : Nat)
    (s : Unit) (past : List ToolIo) :
    ∃ e, (askRound default outside size s).play (keyboard typed) past =
      some (past ++ [e], takeLine default outside (typed.line past.length)) :=
  ⟨⟨.fgets size, typed past.length⟩, rfl⟩

/-- Lines that are not taken are read one after the other. -/
theorem reaches_of_again (size : Nat) (past : List ToolIo) (n : Nat)
    (again : ∀ i < n, takeLine default outside (typed.line (past.length + i)) = .inl ()) :
    ∃ past', Loop.Reaches (keyboard typed) (askRound default outside size) past () past' () ∧
      past'.length = past.length + n := by
  induction n generalizing past with
  | zero => exact ⟨past, .here, rfl⟩
  | succ n ih =>
      obtain ⟨e, first⟩ := askRound_play typed default outside size () past
      have now := again 0 (Nat.succ_pos n)
      rw [Nat.add_zero] at now
      rw [now] at first
      have one : (past ++ [e]).length = past.length + 1 := List.length_append
      obtain ⟨past', rest, length⟩ := ih (past ++ [e]) fun i hi => by
        rw [one, Nat.add_assoc, Nat.add_comm 1 i]
        exact again (i + 1) (Nat.succ_lt_succ hi)
      exact ⟨past', .round first rest, by omega⟩

/-- Every line before the last one was asked for again. -/
theorem again_of_reaches {past past' : List ToolIo} {s s' : Unit}
    (reaches : Loop.Reaches (keyboard typed) (askRound default outside size) past s past' s') :
    ∀ i, past.length ≤ i → i < past'.length → takeLine default outside (typed.line i) = .inl () := by
  induction reaches with
  | here =>
      intro i low high
      omega
  | @round past past₁ _ s _ _ first rest ih =>
      obtain ⟨e, played⟩ := askRound_play typed default outside size s past
      rw [first] at played
      obtain ⟨rfl, again⟩ := Prod.mk.inj (Option.some.inj played)
      intro i low high
      rcases Nat.eq_or_lt_of_le low with rfl | later
      · exact again.symm
      · refine ih i ?_ high
        rw [List.length_append, List.length_singleton]
        exact later

/-- A prompt returns what it makes of the first line it takes. -/
theorem answers_iff {n : Nat} {r : Int} :
    Answers typed (askRound default outside size) n r ↔
      takeLine default outside (typed.line n) = .inr r ∧
        ∀ i < n, takeLine default outside (typed.line i) = .inl () := by
  constructor
  · rintro ⟨past, ⟨past₁, s₁, reaches, last⟩, length⟩
    obtain ⟨e, played⟩ := askRound_play typed default outside size s₁ past₁
    rw [last] at played
    obtain ⟨rfl, taken⟩ := Prod.mk.inj (Option.some.inj played)
    rw [List.length_append, List.length_singleton] at length
    obtain rfl : past₁.length = n := Nat.succ.inj length
    exact ⟨taken.symm, fun i hi => again_of_reaches reaches i (Nat.zero_le i) hi⟩
  · rintro ⟨taken, again⟩
    obtain ⟨past, reaches, length⟩ := reaches_of_again size [] n fun i hi => by
      rw [List.length_nil, Nat.zero_add]
      exact again i hi
    rw [List.length_nil, Nat.zero_add] at length
    obtain ⟨e, last⟩ := askRound_play typed default outside size () past
    rw [length, taken] at last
    refine ⟨past ++ [e], ⟨past, (), reaches, last⟩, ?_⟩
    rw [List.length_append, List.length_singleton, length]

end SimpleProxy
