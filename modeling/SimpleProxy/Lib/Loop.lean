import SimpleProxy.Lib.Prog

/-!
# Loops without a bound

A round of a loop is a program that goes on with a new state or returns. A loop that the
other side can keep going is not a `Prog`, whose runs are finite; here it is run round by
round against a peer, which answers each call as it likes and knows all that was said
before. `Loop.Reaches` is where the loop can stand at its head, `Loop.Returns` how it ends.
The rule for both is a measure that every round which goes on makes smaller: it bounds the
calls as well.
-/

namespace Interact

variable {Call : Type} {Answer : Call → Type} {α β σ : Type}

/-- How the other side answers a call after all that was said. -/
abbrev Peer (Answer : Call → Type) := List (Exchange Answer) → (c : Call) → Answer c

/-- A program against a peer: all that was said by its end, and its result. -/
def Prog.play (peer : Peer Answer) :
    Prog Answer α → List (Exchange Answer) → Option (List (Exchange Answer) × α)
  | .ret a, past => some (past, a)
  | .call c next, past => (next (peer past c)).play peer (past ++ [⟨c, peer past c⟩])
  | .halt, _ => none

theorem Prog.play_perform_bind (peer : Peer Answer) (c : Call) (f : Answer c → Prog Answer α)
    (past : List (Exchange Answer)) :
    (Prog.perform c >>= f).play peer past =
      (f (peer past c)).play peer (past ++ [⟨c, peer past c⟩]) := rfl

/-- A loop by what its body does: the next state, or the result. -/
abbrev Loop (Answer : Call → Type) (σ α : Type) := σ → Prog Answer (σ ⊕ α)

namespace Loop

variable {peer : Peer Answer} {body : Loop Answer σ α}
  {past past' past₁ : List (Exchange Answer)} {s s' s₁ : σ} {a : α}

/-- The loop as a program, cut off after some rounds. -/
def run (body : Loop Answer σ α) : Nat → σ → Prog Answer α
  | 0, _ => .halt
  | rounds + 1, s => do
    match ← body s with
    | .inl s' => run body rounds s'
    | .inr a => pure a

/-- The rule of the loop: what every round keeps, and what the last one gives. -/
theorem wp_run {K : Type} {E : Env Answer K} {body : Loop Answer σ α} {I : σ → K → Prop}
    {Q : α → K → Prop}
    (step : ∀ s k, I s k → (body s).wp E (fun r k' =>
      match r with
      | .inl s' => I s' k'
      | .inr a => Q a k') k) {rounds : Nat} {s : σ} {k : K} (h : I s k) :
    (run body rounds s).wp E Q k := by
  induction rounds generalizing s k with
  | zero => trivial
  | succ rounds ih =>
      refine (Prog.wp_bind _ _).mpr (Prog.wp_mono (step s k h) ?_)
      rintro (s' | a) k' next
      · exact ih next
      · exact next

theorem calls_run {P : Call → Prop} {body : Loop Answer σ α} (h : ∀ s, (body s).Calls P)
    (rounds : Nat) (s : σ) : (run body rounds s).Calls P := by
  induction rounds generalizing s with
  | zero => trivial
  | succ rounds ih =>
      refine (h s).bind ?_
      rintro (s' | a)
      · exact ih s'
      · trivial

/-- From its head in one state the loop comes back to it in another. -/
inductive Reaches (peer : Peer Answer) (body : Loop Answer σ α) :
    List (Exchange Answer) → σ → List (Exchange Answer) → σ → Prop
  | here {past : List (Exchange Answer)} {s : σ} : Reaches peer body past s past s
  | round {past past₁ past' : List (Exchange Answer)} {s s₁ s' : σ}
      (first : (body s).play peer past = some (past₁, .inl s₁))
      (rest : Reaches peer body past₁ s₁ past' s') : Reaches peer body past s past' s'

/-- The loop ends, after whatever number of rounds. -/
def Returns (peer : Peer Answer) (body : Loop Answer σ α) (past : List (Exchange Answer)) (s : σ)
    (past' : List (Exchange Answer)) (a : α) : Prop :=
  ∃ past₁ s₁, Reaches peer body past s past₁ s₁ ∧
    (body s₁).play peer past₁ = some (past', .inr a)

theorem Returns.round (first : (body s).play peer past = some (past₁, .inl s₁))
    (rest : Returns peer body past₁ s₁ past' a) : Returns peer body past s past' a := by
  obtain ⟨past₂, s₂, reaches, last⟩ := rest
  exact ⟨past₂, s₂, .round first reaches, last⟩

/-- What every round keeps holds at every head. -/
theorem Reaches.keeps (Inv : List (Exchange Answer) → σ → Prop)
    (round : ∀ past s past' s', Inv past s → (body s).play peer past = some (past', .inl s') →
      Inv past' s')
    (reaches : Reaches peer body past s past' s') (inv : Inv past s) : Inv past' s' := by
  induction reaches with
  | here => exact inv
  | round first rest ih => exact ih (round _ _ _ _ inv first)

/-- A loop ends after at most as many calls as its measure, and one more, if no round makes
two calls and every round that goes on makes the measure smaller. -/
theorem returns_of_measure {Inv : σ → Prop} (measure : σ → Nat)
    (round : ∀ past s, Inv s → ∃ past' out, (body s).play peer past = some (past', out) ∧
      past'.length ≤ past.length + 1 ∧
      ∀ s', out = .inl s' → Inv s' ∧ measure s' < measure s)
    (past : List (Exchange Answer)) (inv : Inv s) :
    ∃ past' a, Returns peer body past s past' a ∧
      past'.length ≤ past.length + (measure s + 1) := by
  induction hn : measure s using Nat.strongRecOn generalizing past s with
  | ind n ih =>
      obtain ⟨past₁, out, first, one, next⟩ := round past s inv
      cases out with
      | inr a => exact ⟨past₁, a, ⟨past, s, .here, first⟩, by omega⟩
      | inl s₁ =>
          obtain ⟨inv₁, less⟩ := next s₁ rfl
          obtain ⟨past', a, rest, few⟩ := ih _ (hn ▸ less) past₁ inv₁ rfl
          exact ⟨past', a, rest.round first, by omega⟩

/-- A version with a bound on its rounds does the same while the bound is not below the
measure. -/
theorem Returns.play_bounded (Inv : σ → Prop) (measure : σ → Nat)
    (bounded : Nat → σ → Prog Answer β) (result : α → β)
    (unroll : ∀ n past s, Inv s → measure s ≤ n → (bounded n s).play peer past =
      ((body s).play peer past).bind fun (past', out) =>
        out.elim (fun s' => (bounded (n - 1) s').play peer past') fun a => some (past', result a))
    (round : ∀ past s past' s', Inv s → (body s).play peer past = some (past', .inl s') →
      Inv s' ∧ measure s' < measure s)
    (returns : Returns peer body past s past' a) (inv : Inv s) {n : Nat} (enough : measure s ≤ n) :
    (bounded n s).play peer past = some (past', result a) := by
  obtain ⟨past₁, s₁, reaches, last⟩ := returns
  induction reaches generalizing n with
  | here =>
      rw [unroll _ _ _ inv enough, last]
      rfl
  | round first rest ih =>
      obtain ⟨inv', less⟩ := round _ _ _ _ inv first
      rw [unroll _ _ _ inv enough, first]
      exact ih inv' (by omega) last

end Loop

end Interact
