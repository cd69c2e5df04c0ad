import Mathlib.Logic.Relation

/-!
# Transition systems

Initial states, steps, and what holds along every run. A run is Mathlib's
`Relation.ReflTransGen` of the step relation; `System.invariant` is the one
induction over runs, and `System.limit` keeps only the runs all of whose
steps meet a condition. A labelled system shows an observer what it does.
-/

namespace Interact

/-- A transition system on `σ`. -/
structure System (σ : Type) where
  init : σ → Prop
  step : σ → σ → Prop

namespace System

variable {σ : Type} {S : System σ}

/-- Some run from an initial state ends in `s`. -/
def Reachable (S : System σ) (s : σ) : Prop :=
  ∃ s₀, S.init s₀ ∧ Relation.ReflTransGen S.step s₀ s

theorem Reachable.start {s : σ} (h : S.init s) : S.Reachable s := ⟨s, h, .refl⟩

theorem Reachable.next {s s' : σ} (h : S.Reachable s) (hstep : S.step s s') : S.Reachable s' :=
  let ⟨s₀, h₀, hrun⟩ := h
  ⟨s₀, h₀, hrun.tail hstep⟩

/-- What holds initially and is kept by every step from a reachable state
holds in every reachable state. -/
theorem invariant (I : σ → Prop) (hinit : ∀ s, S.init s → I s)
    (hstep : ∀ s s', S.Reachable s → I s → S.step s s' → I s') {s : σ} (h : S.Reachable s) :
    I s := by
  obtain ⟨s₀, h₀, hrun⟩ := h
  induction hrun with
  | refl => exact hinit s₀ h₀
  | tail hrun hlast ih => exact hstep _ _ ⟨s₀, h₀, hrun⟩ ih hlast

/-- The runs all of whose steps meet `C`. -/
def limit (S : System σ) (C : σ → σ → Prop) : System σ where
  init := S.init
  step s s' := S.step s s' ∧ C s s'

theorem limit_reachable {C : σ → σ → Prop} {s : σ} (h : (S.limit C).Reachable s) :
    S.Reachable s := by
  obtain ⟨s₀, h₀, hrun⟩ := h
  exact ⟨s₀, h₀, Relation.ReflTransGen.mono (fun _ _ hlast => hlast.1) _ _ hrun⟩

end System

/-! ## Labelled systems -/

/-- A transition system on `σ` whose steps are observed as `τ`. -/
structure Labelled (σ τ : Type) where
  init : σ
  step : σ → τ → σ → Prop

namespace Labelled

variable {σ τ : Type} {M : Labelled σ τ} {s s₁ s' : σ} {t t₁ t₂ : List τ}

/-- Steps that are observed as `t`. -/
inductive Run (M : Labelled σ τ) : σ → List τ → σ → Prop
  | nil {s : σ} : Run M s [] s
  | cons {s s₁ s' : σ} {e : τ} {t : List τ} (first : M.step s e s₁) (rest : Run M s₁ t s') :
      Run M s (e :: t) s'

theorem Run.single {e : τ} (h : M.step s e s') : M.Run s [e] s' := .cons h .nil

theorem Run.append (h₁ : M.Run s t₁ s₁) (h₂ : M.Run s₁ t₂ s') : M.Run s (t₁ ++ t₂) s' := by
  induction h₁ with
  | nil => exact h₂
  | cons first _ ih => exact .cons first (ih h₂)

/-- What holds before the first observation and is kept by every step holds after a run, of the
observations and the state. -/
theorem Run.invariant {I : List τ → σ → Prop} (start : I [] M.init)
    (keep : ∀ {t s e s'}, I t s → M.step s e s' → I (t ++ [e]) s') (h : M.Run M.init t s) : I t s := by
  have from_ : ∀ {t₀ t s s'}, I t₀ s → M.Run s t s' → I (t₀ ++ t) s' := by
    intro t₀ t s s' hI run
    induction run generalizing t₀ with
    | nil => rwa [List.append_nil]
    | cons first _ ih => simpa using ih (keep hI first)
  exact from_ start h

end Labelled

end Interact
