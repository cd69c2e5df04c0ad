import Mathlib.Logic.Relation

/-!
# Programs that talk to an environment

A program is a tree of calls: it returns, stops, or makes a call and goes on
with whatever the environment answers. `Prog.Runs` lists the exchanges of one
completed run. An `Env` is a state machine that decides which answers it may
give to which call and how it changes; `Prog.wp` is the weakest precondition
of a program run against it, with one rule for each way to build a program.

`Prog.halt` is a program without any outcome (a crash, or a loop cut off by
its fuel). The rules are about partial correctness: a halted run has no
outcome to speak about, and a claim that a program does return is stated with
`Prog.Total`.
-/

namespace Interact

variable {Call : Type} {Answer : Call → Type} {α β K H : Type}

/-- One call of a program together with the answer it got. -/
structure Exchange (Answer : Call → Type) where
  call : Call
  answer : Answer call

/-- A program making calls from `Call` and returning an `α`. -/
inductive Prog (Answer : Call → Type) (α : Type)
  | ret (a : α)
  | call (c : Call) (next : Answer c → Prog Answer α)
  | halt

namespace Prog

/-- Run `f` on the result of a program. -/
def andThen : Prog Answer α → (α → Prog Answer β) → Prog Answer β
  | .ret a, f => f a
  | .call c next, f => .call c fun r => (next r).andThen f
  | .halt, _ => .halt

instance : Monad (Prog Answer) where
  pure := .ret
  bind := andThen

/-- The program that makes one call and returns its answer. -/
def perform (c : Call) : Prog Answer (Answer c) := .call c .ret

/-- `p.Runs tr a`: some run of `p` makes exactly the exchanges `tr` and
returns `a`. -/
def Runs : Prog Answer α → List (Exchange Answer) → α → Prop
  | .ret a, tr, b => tr = [] ∧ b = a
  | .call c next, tr, b => ∃ r rest, tr = ⟨c, r⟩ :: rest ∧ (next r).Runs rest b
  | .halt, _, _ => False

/-- Follow a program along recorded exchanges to its result; `none` if it makes
other calls than the recorded ones, or halts. -/
def replay [DecidableEq Call] : Prog Answer α → List (Exchange Answer) → Option α
  | .ret a, [] => some a
  | .call c next, e :: tr => if h : e.call = c then (next (h ▸ e.answer)).replay tr else none
  | _, _ => none

/-! ## Runs of composed programs -/

@[simp] theorem pure_def (a : α) : (pure a : Prog Answer α) = .ret a := rfl

@[simp] theorem runs_ret (a b : α) (tr : List (Exchange Answer)) :
    (ret a : Prog Answer α).Runs tr b ↔ tr = [] ∧ b = a := Iff.rfl

@[simp] theorem runs_halt (tr : List (Exchange Answer)) (a : α) :
    (halt : Prog Answer α).Runs tr a ↔ False := Iff.rfl

@[simp] theorem runs_perform (c : Call) (tr : List (Exchange Answer)) (r : Answer c) :
    (perform c).Runs tr r ↔ tr = [⟨c, r⟩] := by
  constructor
  · rintro ⟨r', rest, rfl, rfl, rfl⟩
    rfl
  · rintro rfl
    exact ⟨r, [], rfl, rfl, rfl⟩

/-- A run that starts with a call goes on with its answer. -/
theorem runs_perform_bind (c : Call) (f : Answer c → Prog Answer β)
    (tr : List (Exchange Answer)) (b : β) :
    (perform c >>= f).Runs tr b ↔ ∃ r rest, tr = ⟨c, r⟩ :: rest ∧ (f r).Runs rest b := Iff.rfl

/-- A run of `p >>= f` is a run of `p` followed by a run of `f`. -/
theorem runs_bind (p : Prog Answer α) (f : α → Prog Answer β) (tr : List (Exchange Answer))
    (b : β) :
    (p >>= f).Runs tr b ↔ ∃ a t₁ t₂, tr = t₁ ++ t₂ ∧ p.Runs t₁ a ∧ (f a).Runs t₂ b := by
  show (p.andThen f).Runs tr b ↔ _
  induction p generalizing tr with
  | ret a =>
      constructor
      · intro h
        exact ⟨a, [], tr, rfl, ⟨rfl, rfl⟩, h⟩
      · rintro ⟨a', t₁, t₂, rfl, ⟨rfl, rfl⟩, h⟩
        exact h
  | call c next ih =>
      constructor
      · rintro ⟨r, rest, rfl, h⟩
        obtain ⟨a, t₁, t₂, rfl, h₁, h₂⟩ := (ih r rest).mp h
        exact ⟨a, ⟨c, r⟩ :: t₁, t₂, rfl, ⟨r, t₁, rfl, h₁⟩, h₂⟩
      · rintro ⟨a, t₁, t₂, rfl, ⟨r, rest, rfl, h₁⟩, h₂⟩
        exact ⟨r, rest ++ t₂, rfl, (ih r _).mpr ⟨a, rest, t₂, rfl, h₁, h₂⟩⟩
  | halt =>
      constructor
      · intro h
        exact h.elim
      · rintro ⟨_, _, _, _, h, _⟩
        exact h.elim

/-- What `replay` follows is a run. -/
theorem runs_of_replay [DecidableEq Call] {p : Prog Answer α} {tr : List (Exchange Answer)}
    {a : α} (h : p.replay tr = some a) : p.Runs tr a := by
  induction p generalizing tr with
  | ret b =>
      cases tr with
      | nil => exact ⟨rfl, (Option.some.inj h).symm⟩
      | cons e tr => exact absurd h (by simp [replay])
  | call c next ih =>
      cases tr with
      | nil => exact absurd h (by simp [replay])
      | cons e tr =>
          obtain ⟨c', r⟩ := e
          simp only [replay] at h
          split at h
          · rename_i same
            subst same
            exact ⟨r, tr, rfl, ih r h⟩
          · exact absurd h (by simp)
  | halt => exact absurd h (by simp [replay])

/-! ## Which calls are made -/

/-- Whatever it is answered, the program makes only calls that satisfy `P`. -/
def Calls (P : Call → Prop) : Prog Answer α → Prop
  | .ret _ => True
  | .call c next => P c ∧ ∀ r, (next r).Calls P
  | .halt => True

theorem Calls.bind {P : Call → Prop} {p : Prog Answer α} {f : α → Prog Answer β} (h : p.Calls P)
    (hf : ∀ a, (f a).Calls P) : (p >>= f).Calls P := by
  show (p.andThen f).Calls P
  induction p with
  | ret a => exact hf a
  | call c next ih => exact ⟨h.1, fun r => ih r (h.2 r)⟩
  | halt => trivial

theorem Calls.call {P : Call → Prop} {c : Call} {f : Answer c → Prog Answer β} (hc : P c)
    (hf : ∀ r, (f r).Calls P) : (perform c >>= f).Calls P := ⟨hc, hf⟩

theorem Calls.runs {P : Call → Prop} {p : Prog Answer α} {tr : List (Exchange Answer)} {a : α}
    (h : p.Calls P) (run : p.Runs tr a) : ∀ e ∈ tr, P e.call := by
  induction p generalizing tr with
  | ret b =>
      obtain ⟨rfl, -⟩ := run
      intro e he
      cases he
  | call c next ih =>
      obtain ⟨r, rest, rfl, hrest⟩ := run
      exact List.forall_mem_cons.mpr ⟨h.1, ih r (h.2 r) hrest⟩
  | halt => exact run.elim

/-! ## A fixed answer to every call -/

/-- The result of a program that is always answered by `answer`. -/
def follow (answer : (c : Call) → Answer c) : Prog Answer α → Option α
  | .ret a => some a
  | .call c next => (next (answer c)).follow answer
  | .halt => none

theorem follow_bind (answer : (c : Call) → Answer c) (p : Prog Answer α) (f : α → Prog Answer β) :
    (p >>= f).follow answer = (p.follow answer).bind fun a => (f a).follow answer := by
  show (p.andThen f).follow answer = _
  induction p with
  | ret a => rfl
  | call c next ih => exact ih (answer c)
  | halt => rfl

theorem follow_perform_bind (answer : (c : Call) → Answer c) (c : Call)
    (f : Answer c → Prog Answer β) :
    (perform c >>= f).follow answer = (f (answer c)).follow answer := rfl

/-- A run in which every call got its answer. -/
theorem follow_of_runs {answer : (c : Call) → Answer c} {p : Prog Answer α}
    {tr : List (Exchange Answer)} {a : α} (run : p.Runs tr a)
    (answered : ∀ e ∈ tr, e.answer = answer e.call) : p.follow answer = some a := by
  induction p generalizing tr with
  | ret b =>
      obtain ⟨-, rfl⟩ := run
      rfl
  | call c next ih =>
      obtain ⟨r, rest, rfl, hrest⟩ := run
      obtain ⟨hfirst, hothers⟩ := List.forall_mem_cons.mp answered
      obtain rfl : r = answer c := hfirst
      exact ih _ hrest hothers
  | halt => exact run.elim

theorem runs_of_follow {answer : (c : Call) → Answer c} {p : Prog Answer α} {a : α}
    (h : p.follow answer = some a) :
    ∃ tr, p.Runs tr a ∧ ∀ e ∈ tr, e.answer = answer e.call := by
  induction p with
  | ret b =>
      cases h
      exact ⟨[], ⟨rfl, rfl⟩, by simp⟩
  | call c next ih =>
      obtain ⟨tr, run, answered⟩ := ih (answer c) h
      exact ⟨⟨c, answer c⟩ :: tr, ⟨answer c, tr, rfl, run⟩,
        List.forall_mem_cons.mpr ⟨rfl, answered⟩⟩
  | halt => cases h

end Prog

/-! ## Environments -/

/-- An environment with state `K`: `step k c r` is its state after answering
`r` to the call `c`, or `none` when it never gives that answer there. -/
structure Env (Answer : Call → Type) (K : Type) where
  step : K → (c : Call) → Answer c → Option K

/-- The state after a list of exchanges, if the environment allows them. -/
def Env.run (E : Env Answer K) : K → List (Exchange Answer) → Option K
  | k, [] => some k
  | k, e :: tr => (E.step k e.call e.answer).bind fun k' => E.run k' tr

theorem Env.run_append (E : Env Answer K) (k : K) (t₁ t₂ : List (Exchange Answer)) :
    E.run k (t₁ ++ t₂) = (E.run k t₁).bind fun k' => E.run k' t₂ := by
  induction t₁ generalizing k with
  | nil => rfl
  | cons e t₁ ih =>
      simp only [List.cons_append, Env.run]
      cases E.step k e.call e.answer with
      | none => rfl
      | some k' => exact ih k'

namespace Prog

/-- Every outcome of `p`, run in `E` from state `k`, satisfies `Q`. -/
def wp (E : Env Answer K) : Prog Answer α → (α → K → Prop) → K → Prop
  | .ret a, Q, k => Q a k
  | .call c next, Q, k => ∀ r k', E.step k c r = some k' → (next r).wp E Q k'
  | .halt, _, _ => True

/-- No run of `p` in `E` from `k` halts. -/
def Total (E : Env Answer K) : Prog Answer α → K → Prop
  | .ret _, _ => True
  | .call c next, k => ∀ r k', E.step k c r = some k' → (next r).Total E k'
  | .halt, _ => False

variable {E : Env Answer K} {Q : α → K → Prop} {k : K}

@[simp] theorem wp_ret (a : α) : (ret a : Prog Answer α).wp E Q k ↔ Q a k := Iff.rfl

@[simp] theorem wp_halt : (halt : Prog Answer α).wp E Q k ↔ True := Iff.rfl

theorem wp_perform (c : Call) {Q : Answer c → K → Prop} :
    (perform c).wp E Q k ↔ ∀ r k', E.step k c r = some k' → Q r k' := Iff.rfl

theorem wp_bind (p : Prog Answer α) (f : α → Prog Answer β) {Q : β → K → Prop} :
    (p >>= f).wp E Q k ↔ p.wp E (fun a k' => (f a).wp E Q k') k := by
  show (p.andThen f).wp E Q k ↔ _
  induction p generalizing k with
  | ret a => exact Iff.rfl
  | call c next ih =>
      exact forall_congr' fun r => forall_congr' fun k' => imp_congr_right fun _ => ih r
  | halt => exact Iff.rfl

theorem total_bind (p : Prog Answer α) (f : α → Prog Answer β) :
    (p >>= f).Total E k ↔ p.Total E k ∧ p.wp E (fun a k' => (f a).Total E k') k := by
  show (p.andThen f).Total E k ↔ _
  induction p generalizing k with
  | ret a => exact ⟨fun h => ⟨trivial, h⟩, And.right⟩
  | call c next ih =>
      constructor
      · intro h
        exact ⟨fun r k' hk => ((ih r).mp (h r k' hk)).1, fun r k' hk => ((ih r).mp (h r k' hk)).2⟩
      · rintro ⟨h₁, h₂⟩ r k' hk
        exact (ih r).mpr ⟨h₁ r k' hk, h₂ r k' hk⟩
  | halt => exact ⟨fun h => h.elim, fun h => h.1.elim⟩

theorem Total.bind {p : Prog Answer α} {f : α → Prog Answer β} (h : p.Total E k)
    (hf : ∀ a k', (f a).Total E k') : (p >>= f).Total E k := by
  show (p.andThen f).Total E k
  induction p generalizing k with
  | ret a => exact hf a k
  | call c next ih => exact fun r k' hk => ih r (h r k' hk)
  | halt => exact h

theorem total_perform_bind (c : Call) (f : Answer c → Prog Answer β) :
    (perform c >>= f).Total E k ↔ ∀ r k', E.step k c r = some k' → (f r).Total E k' := Iff.rfl

theorem Total.call {c : Call} {f : Answer c → Prog Answer β} (hf : ∀ r k', (f r).Total E k') :
    (perform c >>= f).Total E k := fun r k' _ => hf r k'

/-- Consequence. -/
theorem wp_mono {p : Prog Answer α} {Q' : α → K → Prop} (h : p.wp E Q k)
    (hQ : ∀ a k', Q a k' → Q' a k') : p.wp E Q' k := by
  induction p generalizing k with
  | ret a => exact hQ a k h
  | call c next ih => exact fun r k' hk => ih r (h r k' hk)
  | halt => trivial

/-- Soundness: the outcome of a run the environment allows satisfies whatever
the weakest precondition promised. -/
theorem wp_sound {p : Prog Answer α} {tr : List (Exchange Answer)} {a : α} {k' : K}
    (h : p.wp E Q k) (hrun : p.Runs tr a) (hk : E.run k tr = some k') : Q a k' := by
  induction p generalizing k tr with
  | ret b =>
      obtain ⟨rfl, rfl⟩ := hrun
      cases hk
      exact h
  | call c next ih =>
      obtain ⟨r, rest, rfl, hrest⟩ := hrun
      obtain ⟨k₁, hk₁, hk₂⟩ := Option.bind_eq_some_iff.mp hk
      exact ih r (h r k₁ hk₁) hrest hk₂
  | halt => exact hrun.elim

/-- What holds of every outcome the environment allows is a postcondition. -/
theorem wp_of_runs {p : Prog Answer α}
    (h : ∀ tr a k', p.Runs tr a → E.run k tr = some k' → Q a k') : p.wp E Q k := by
  induction p generalizing k with
  | ret a => exact h [] a k ⟨rfl, rfl⟩ rfl
  | call c next ih =>
      intro r k₁ hk₁
      refine ih r fun tr a k' hrun hk => h (⟨c, r⟩ :: tr) a k' ⟨r, tr, rfl, hrun⟩ ?_
      exact Option.bind_eq_some_iff.mpr ⟨k₁, hk₁, hk⟩
  | halt => trivial

/-- What every call keeps that the program makes, the program keeps. -/
theorem Calls.wp {P : Call → Prop} {p : Prog Answer α} {I : K → Prop} (h : p.Calls P)
    (kept : ∀ k c r k', P c → I k → E.step k c r = some k' → I k') (start : I k) :
    p.wp E (fun _ k' => I k') k := by
  induction p generalizing k with
  | ret a => exact start
  | call c next ih => exact fun r k' hk => ih r (h.2 r) (kept k c r k' h.1 start hk)
  | halt => trivial

theorem calls_true (p : Prog Answer α) : p.Calls fun _ => True := by
  induction p with
  | ret a => trivial
  | call c next ih => exact ⟨trivial, ih⟩
  | halt => trivial

/-- The postcondition that says nothing. -/
theorem wp_true (p : Prog Answer α) (k : K) : p.wp E (fun _ _ => True) k :=
  (calls_true p).wp (fun _ _ _ _ _ _ _ => trivial) trivial

end Prog

/-! ## Complete runs -/

namespace Prog

variable {E : Env Answer K} {k k' : K} {tr : List (Exchange Answer)}

/-- `p`, run in `E` from `k`, can make the exchanges `tr`, return `a` and leave `k'`. -/
def Ends (E : Env Answer K) (p : Prog Answer α) (k : K) (tr : List (Exchange Answer)) (a : α)
    (k' : K) : Prop :=
  p.Runs tr a ∧ E.run k tr = some k'

theorem ends_ret {a b : α} :
    (ret a : Prog Answer α).Ends E k tr b k' ↔ tr = [] ∧ b = a ∧ k' = k := by
  constructor
  · rintro ⟨⟨rfl, rfl⟩, h⟩
    exact ⟨rfl, rfl, (Option.some.inj h).symm⟩
  · rintro ⟨rfl, rfl, rfl⟩
    exact ⟨⟨rfl, rfl⟩, rfl⟩

theorem not_ends_halt {a : α} : ¬ (halt : Prog Answer α).Ends E k tr a k' := And.left

theorem ends_perform_bind {c : Call} {f : Answer c → Prog Answer β} {b : β} :
    (perform c >>= f).Ends E k tr b k' ↔
      ∃ r k₁ rest, tr = ⟨c, r⟩ :: rest ∧ E.step k c r = some k₁ ∧ (f r).Ends E k₁ rest b k' := by
  constructor
  · rintro ⟨⟨r, rest, rfl, hrun⟩, h⟩
    obtain ⟨k₁, hstep, hrest⟩ := Option.bind_eq_some_iff.mp h
    exact ⟨r, k₁, rest, rfl, hstep, hrun, hrest⟩
  · rintro ⟨r, k₁, rest, rfl, hstep, hrun, hrest⟩
    exact ⟨⟨r, rest, rfl, hrun⟩, Option.bind_eq_some_iff.mpr ⟨k₁, hstep, hrest⟩⟩

theorem ends_bind {p : Prog Answer α} {f : α → Prog Answer β} {b : β} :
    (p >>= f).Ends E k tr b k' ↔
      ∃ a k₁ t₁ t₂, tr = t₁ ++ t₂ ∧ p.Ends E k t₁ a k₁ ∧ (f a).Ends E k₁ t₂ b k' := by
  constructor
  · rintro ⟨hrun, h⟩
    obtain ⟨a, t₁, t₂, rfl, h₁, h₂⟩ := (runs_bind p f tr b).mp hrun
    rw [Env.run_append] at h
    obtain ⟨k₁, hk₁, hk₂⟩ := Option.bind_eq_some_iff.mp h
    exact ⟨a, k₁, t₁, t₂, rfl, ⟨h₁, hk₁⟩, h₂, hk₂⟩
  · rintro ⟨a, k₁, t₁, t₂, rfl, ⟨h₁, hk₁⟩, h₂, hk₂⟩
    refine ⟨(runs_bind p f _ b).mpr ⟨a, t₁, t₂, rfl, h₁, h₂⟩, ?_⟩
    rw [Env.run_append]
    exact Option.bind_eq_some_iff.mpr ⟨k₁, hk₁, hk₂⟩

end Prog

namespace Prog

/-- The run in which every call gets the answer that `pick` chooses; `none` if the environment
does not allow it, or the program halts. -/
def drive (E : Env Answer K) (pick : K → (c : Call) → Answer c) :
    Prog Answer α → K → Option (List (Exchange Answer) × α × K)
  | .ret a, k => some ([], a, k)
  | .call c next, k =>
    (E.step k c (pick k c)).bind fun k' =>
      ((next (pick k c)).drive E pick k').map fun (tr, result) => (⟨c, pick k c⟩ :: tr, result)
  | .halt, _ => none

theorem ends_of_drive {E : Env Answer K} {pick : K → (c : Call) → Answer c} {p : Prog Answer α}
    {k k' : K} {tr : List (Exchange Answer)} {a : α} (h : p.drive E pick k = some (tr, a, k')) :
    p.Ends E k tr a k' := by
  induction p generalizing k tr with
  | ret b =>
      cases h
      exact ⟨⟨rfl, rfl⟩, rfl⟩
  | call c next ih =>
      obtain ⟨k₁, step, rest⟩ := Option.bind_eq_some_iff.mp h
      obtain ⟨⟨t, result⟩, hrest, heq⟩ := Option.map_eq_some_iff.mp rest
      cases heq
      obtain ⟨hrun, hk⟩ := ih _ hrest
      exact ⟨⟨_, t, rfl, hrun⟩, Option.bind_eq_some_iff.mpr ⟨k₁, step, hk⟩⟩
  | halt => cases h

end Prog

/-! ## Programs of several parties -/

variable {Party : Type}

/-- The answers to calls labelled with the party that makes them. -/
abbrev ByParty (Party : Type) (Answer : Call → Type) : Party × Call → Type :=
  fun c => Answer c.2

/-- Let `who` make all the calls of a program. -/
def Prog.by (who : Party) : Prog Answer α → Prog (ByParty Party Answer) α
  | .ret a => .ret a
  | .call c next => .call (who, c) fun r => (next r).by who
  | .halt => .halt

/-- An exchange made by `who`. -/
def Exchange.by (who : Party) (e : Exchange Answer) : Exchange (ByParty Party Answer) :=
  ⟨(who, e.call), e.answer⟩

/-- The runs of a party's program are its runs with every call labelled. -/
theorem Prog.runs_by {who : Party} {p : Prog Answer α}
    {tr : List (Exchange (ByParty Party Answer))} {a : α} :
    (p.by who).Runs tr a ↔ ∃ t, tr = t.map (Exchange.by who) ∧ p.Runs t a := by
  induction p generalizing tr with
  | ret b =>
      constructor
      · rintro ⟨rfl, rfl⟩
        exact ⟨[], rfl, rfl, rfl⟩
      · rintro ⟨_, rfl, rfl, rfl⟩
        exact ⟨rfl, rfl⟩
  | call c next ih =>
      constructor
      · rintro ⟨r, rest, rfl, hrest⟩
        obtain ⟨t, rfl, ht⟩ := (ih r).mp hrest
        exact ⟨⟨c, r⟩ :: t, rfl, r, t, rfl, ht⟩
      · rintro ⟨_, rfl, r, t, rfl, ht⟩
        exact ⟨r, _, rfl, (ih r).mpr ⟨t, rfl, ht⟩⟩
  | halt =>
      constructor
      · exact False.elim
      · rintro ⟨_, _, h⟩
        exact h

/-- An environment as one party sees it. -/
def Env.as (E : Env (ByParty Party Answer) K) (who : Party) : Env Answer K where
  step k c r := E.step k (who, c) r

theorem Prog.total_by {E : Env (ByParty Party Answer) K} {who : Party} {p : Prog Answer α} {k : K}
    (h : p.Total (E.as who) k) : (p.by who).Total E k := by
  induction p generalizing k with
  | ret a => trivial
  | call c next ih => exact fun r k' hk => ih r (h r k' hk)
  | halt => exact h

/-! ## What came before each exchange -/

section EachAfter

variable {ε : Type} {P : List ε → ε → Prop} {past t t₁ t₂ : List ε}

/-- `P` holds of each item of a list together with everything before it, of
which `past` is the part before the list. -/
def EachAfter (P : List ε → ε → Prop) : List ε → List ε → Prop
  | _, [] => True
  | past, e :: rest => P past e ∧ EachAfter P (past ++ [e]) rest

@[simp] theorem eachAfter_nil : EachAfter P past [] ↔ True := Iff.rfl

@[simp] theorem eachAfter_cons (e : ε) :
    EachAfter P past (e :: t) ↔ P past e ∧ EachAfter P (past ++ [e]) t := Iff.rfl

theorem eachAfter_append :
    EachAfter P past (t₁ ++ t₂) ↔ EachAfter P past t₁ ∧ EachAfter P (past ++ t₁) t₂ := by
  induction t₁ generalizing past with
  | nil => simp
  | cons e t₁ ih => simp [ih, and_assoc]

/-- The same, item by item. -/
theorem eachAfter_iff :
    EachAfter P past t ↔ ∀ earlier e later, t = earlier ++ e :: later → P (past ++ earlier) e := by
  induction t generalizing past with
  | nil => simp
  | cons e t ih =>
      simp only [eachAfter_cons, ih]
      constructor
      · rintro ⟨hfirst, hrest⟩ (_ | ⟨e₁, earlier⟩) e' later heq
        · cases heq
          simpa using hfirst
        · cases heq
          simpa using hrest earlier e' later rfl
      · intro h
        refine ⟨by simpa using h [] e t rfl, fun earlier e' later heq => ?_⟩
        have := h (e :: earlier) e' later (by rw [heq, List.cons_append])
        simpa using this

theorem eachAfter_and {Q : List ε → ε → Prop} :
    EachAfter (fun past e => P past e ∧ Q past e) past t ↔
      EachAfter P past t ∧ EachAfter Q past t := by
  induction t generalizing past with
  | nil => simp
  | cons e t ih =>
      simp only [eachAfter_cons, ih]
      exact and_and_and_comm

/-- A property that does not look back. -/
theorem eachAfter_forall {Q : ε → Prop} : EachAfter (fun _ e => Q e) past t ↔ ∀ e ∈ t, Q e := by
  induction t generalizing past with
  | nil => simp
  | cons e t ih => rw [eachAfter_cons, ih, List.forall_mem_cons]

theorem eachAfter_of_mem (h : ∀ earlier, ∀ e ∈ t, P (past ++ earlier) e) : EachAfter P past t :=
  eachAfter_iff.mpr fun earlier e later heq => h earlier e (by simp [heq])

end EachAfter

/-! ## The environment that only keeps a record -/

/-- The environment that gives any answer `Admits` allows and remembers what
was said. -/
def recorder (Admits : (c : Call) → Answer c → Prop) [∀ c r, Decidable (Admits c r)] :
    Env Answer (List (Exchange Answer)) where
  step h c r := if Admits c r then some (h ++ [⟨c, r⟩]) else none

variable {Admits : (c : Call) → Answer c → Prop} [∀ c r, Decidable (Admits c r)]

theorem recorder_step {h h' : List (Exchange Answer)} {c : Call} {r : Answer c} :
    (recorder Admits).step h c r = some h' ↔ Admits c r ∧ h' = h ++ [⟨c, r⟩] := by
  simp only [recorder]
  split <;> simp [*, eq_comm]

/-- Exactly the lists of admitted answers can be recorded. -/
theorem recorder_run {h h' tr : List (Exchange Answer)} :
    (recorder Admits).run h tr = some h' ↔
      (∀ e ∈ tr, Admits e.call e.answer) ∧ h' = h ++ tr := by
  induction tr generalizing h with
  | nil => simp [Env.run, eq_comm]
  | cons e tr ih =>
      simp only [Env.run, Option.bind_eq_some_iff, recorder_step, List.forall_mem_cons]
      constructor
      · rintro ⟨h₁, ⟨ok, rfl⟩, hrest⟩
        obtain ⟨oks, rfl⟩ := ih.mp hrest
        exact ⟨⟨ok, oks⟩, by simp⟩
      · rintro ⟨⟨ok, oks⟩, rfl⟩
        exact ⟨_, ⟨ok, rfl⟩, ih.mpr ⟨oks, by simp⟩⟩

/-! ## Runs that cannot go wrong -/

namespace Prog

/-- `p`, run in `E` from `k`, is answered at every call, never halts, and ends in `Q`. -/
def Sure (E : Env Answer K) : Prog Answer α → (α → K → Prop) → K → Prop
  | .ret a, Q, k => Q a k
  | .call c next, Q, k =>
      (∃ r k', E.step k c r = some k') ∧ ∀ r k', E.step k c r = some k' → (next r).Sure E Q k'
  | .halt, _, _ => False

variable {E : Env Answer K} {Q : α → K → Prop} {k : K}

@[simp] theorem sure_ret (a : α) : (ret a : Prog Answer α).Sure E Q k ↔ Q a k := Iff.rfl

@[simp] theorem sure_halt : (halt : Prog Answer α).Sure E Q k ↔ False := Iff.rfl

theorem sure_bind (p : Prog Answer α) (f : α → Prog Answer β) {Q : β → K → Prop} :
    (p >>= f).Sure E Q k ↔ p.Sure E (fun a k' => (f a).Sure E Q k') k := by
  show (p.andThen f).Sure E Q k ↔ _
  induction p generalizing k with
  | ret a => exact Iff.rfl
  | call c next ih =>
      exact and_congr_right fun _ =>
        forall_congr' fun r => forall_congr' fun k' => imp_congr_right fun _ => ih r
  | halt => exact Iff.rfl

/-- Consequence. -/
theorem Sure.mono {p : Prog Answer α} {Q' : α → K → Prop} (h : p.Sure E Q k)
    (hQ : ∀ a k', Q a k' → Q' a k') : p.Sure E Q' k := by
  induction p generalizing k with
  | ret a => exact hQ a k h
  | call c next ih => exact ⟨h.1, fun r k' hk => ih r (h.2 r k' hk)⟩
  | halt => exact h

/-- First `p`, then `f` on its result. -/
theorem Sure.bind {p : Prog Answer α} {f : α → Prog Answer β} {Q' : β → K → Prop}
    (h : p.Sure E Q k) (hf : ∀ a k', Q a k' → (f a).Sure E Q' k') : (p >>= f).Sure E Q' k :=
  (sure_bind p f).mpr (h.mono hf)

/-- The total rule gives the partial one, and no run halts. -/
theorem Sure.wp {p : Prog Answer α} (h : p.Sure E Q k) : p.wp E Q k ∧ p.Total E k := by
  induction p generalizing k with
  | ret a => exact ⟨h, trivial⟩
  | call c next ih =>
      exact ⟨fun r k' hk => (ih r (h.2 r k' hk)).1, fun r k' hk => (ih r (h.2 r k' hk)).2⟩
  | halt => exact h.elim

/-- A run exists. -/
theorem Sure.exists_run {p : Prog Answer α} (h : p.Sure E Q k) :
    ∃ tr a k', p.Runs tr a ∧ E.run k tr = some k' ∧ Q a k' := by
  induction p generalizing k with
  | ret a => exact ⟨[], a, k, ⟨rfl, rfl⟩, rfl, h⟩
  | call c next ih =>
      obtain ⟨⟨r, k₁, hk₁⟩, hnext⟩ := h
      obtain ⟨tr, a, k', hrun, hk', hQ⟩ := ih r (hnext r k₁ hk₁)
      exact ⟨⟨c, r⟩ :: tr, a, k', ⟨r, tr, rfl, hrun⟩,
        Option.bind_eq_some_iff.mpr ⟨k₁, hk₁, hk'⟩, hQ⟩
  | halt => exact h.elim

/-- `for (i = first; i < first + count; i++) body(i);` -/
def countUp (body : Nat → Prog Answer Unit) : Nat → Nat → Prog Answer Unit
  | _, 0 => .ret ()
  | first, count + 1 => do
    body first
    countUp body (first + 1) count

/-- The rule of the counting loop: an invariant that speaks of the index. -/
theorem sure_countUp {body : Nat → Prog Answer Unit} {I : Nat → K → Prop} {stop : Nat}
    (step : ∀ i k, i < stop → I i k → (body i).Sure E (fun _ k' => I (i + 1) k') k) {first count : Nat}
    (hstop : first + count = stop) (h : I first k) :
    (countUp body first count).Sure E (fun _ k' => I stop k') k := by
  induction count generalizing first k with
  | zero =>
      obtain rfl : first = stop := hstop
      exact h
  | succ count ih =>
      refine (step first k (by omega) h).bind fun _ k' h' => ?_
      exact ih (by omega) h'

end Prog

/-! ## Two kinds of calls -/

section Sum

variable {Call₁ Call₂ L : Type} {A₁ : Call₁ → Type} {A₂ : Call₂ → Type}

/-- A program that makes calls of the first kind only. -/
def Prog.inLeft : Prog A₁ α → Prog (Sum.elim A₁ A₂) α
  | .ret a => .ret a
  | .call c next => .call (.inl c) fun r => (next r).inLeft
  | .halt => .halt

/-- A program that makes calls of the second kind only. -/
def Prog.inRight : Prog A₂ α → Prog (Sum.elim A₁ A₂) α
  | .ret a => .ret a
  | .call c next => .call (.inr c) fun r => (next r).inRight
  | .halt => .halt

/-- What an environment does with the calls of one kind. -/
def Env.left (E : Env (Sum.elim A₁ A₂) K) : Env A₁ K where
  step k c r := E.step k (.inl c) r

def Env.right (E : Env (Sum.elim A₁ A₂) K) : Env A₂ K where
  step k c r := E.step k (.inr c) r

theorem Prog.wp_inLeft {E : Env (Sum.elim A₁ A₂) K} {p : Prog A₁ α} {Q : α → K → Prop} {k : K} :
    p.inLeft.wp E Q k ↔ p.wp E.left Q k := by
  induction p generalizing k with
  | ret a => exact Iff.rfl
  | call c next ih =>
      exact forall_congr' fun r => forall_congr' fun k' => imp_congr_right fun _ => ih r
  | halt => exact Iff.rfl

theorem Prog.wp_inRight {E : Env (Sum.elim A₁ A₂) K} {p : Prog A₂ α} {Q : α → K → Prop} {k : K} :
    p.inRight.wp E Q k ↔ p.wp E.right Q k := by
  induction p generalizing k with
  | ret a => exact Iff.rfl
  | call c next ih =>
      exact forall_congr' fun r => forall_congr' fun k' => imp_congr_right fun _ => ih r
  | halt => exact Iff.rfl

/-- An exchange of the first kind. -/
def Exchange.inLeft (e : Exchange A₁) : Exchange (Sum.elim A₁ A₂) := ⟨.inl e.call, e.answer⟩

theorem Prog.runs_inLeft {p : Prog A₁ α} {tr : List (Exchange (Sum.elim A₁ A₂))} {a : α} :
    p.inLeft.Runs tr a ↔ ∃ t, tr = t.map Exchange.inLeft ∧ p.Runs t a := by
  induction p generalizing tr with
  | ret b =>
      constructor
      · rintro ⟨rfl, rfl⟩
        exact ⟨[], rfl, rfl, rfl⟩
      · rintro ⟨t, rfl, rfl, rfl⟩
        exact ⟨rfl, rfl⟩
  | call c next ih =>
      constructor
      · rintro ⟨r, rest, rfl, after⟩
        obtain ⟨t, rfl, run⟩ := (ih r).mp after
        exact ⟨⟨c, r⟩ :: t, rfl, r, t, rfl, run⟩
      · rintro ⟨t, rfl, r, rest, rfl, run⟩
        exact ⟨r, _, rfl, (ih r).mpr ⟨rest, rfl, run⟩⟩
  | halt =>
      constructor
      · exact False.elim
      · rintro ⟨t, -, run⟩
        exact run

/-- An environment that keeps its state in a part of a larger one. -/
def Env.zoom (E : Env Answer L) (get : K → L) (set : K → L → K) : Env Answer K where
  step k c r := (E.step (get k) c r).map (set k)

/-- A program in such an environment changes nothing but that part. -/
theorem Prog.wp_zoom {E : Env Answer L} {get : K → L} {set : K → L → K}
    (get_set : ∀ k l, get (set k l) = l) (set_set : ∀ k l l', set (set k l) l' = set k l')
    (set_get : ∀ k, set k (get k) = k) {p : Prog Answer α} {Q : α → K → Prop} {k : K}
    (h : p.wp E (fun a l => Q a (set k l)) (get k)) : p.wp (E.zoom get set) Q k := by
  induction p generalizing k with
  | ret a =>
      have whole : Q a (set k (get k)) := h
      rwa [set_get] at whole
  | call c next ih =>
      intro r k' hk
      obtain ⟨l, hl, rfl⟩ := Option.map_eq_some_iff.mp hk
      refine ih r ?_
      rw [get_set]
      simp only [set_set]
      exact h r l hl
  | halt => trivial

end Sum

/-- An environment that gives some of its answers only. -/
def Env.restrict (E : Env Answer K) (admits : Exchange Answer → Bool) : Env Answer K where
  step k c r := if admits ⟨c, r⟩ then E.step k c r else none

theorem Env.run_restrict {E : Env Answer K} {admits : Exchange Answer → Bool} {k k' : K}
    {tr : List (Exchange Answer)} :
    (E.restrict admits).run k tr = some k' ↔
      E.run k tr = some k' ∧ ∀ e ∈ tr, admits e = true := by
  induction tr generalizing k with
  | nil => simp [Env.run]
  | cons e tr ih =>
      obtain ⟨c, r⟩ := e
      simp only [Env.run, Option.bind_eq_some_iff, List.forall_mem_cons]
      constructor
      · rintro ⟨k₁, step, rest⟩
        obtain ⟨rest, others⟩ := ih.mp rest
        change (if admits ⟨c, r⟩ = true then E.step k c r else none) = some k₁ at step
        split at step
        · rename_i first
          exact ⟨⟨k₁, step, rest⟩, first, others⟩
        · cases step
      · rintro ⟨⟨k₁, step, rest⟩, first, others⟩
        exact ⟨k₁, (if_pos first).trans step, ih.mpr ⟨rest, others⟩⟩

end Interact
