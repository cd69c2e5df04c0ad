import Mathlib.Data.Finmap

/-!
# Key-value maps

The calls of a map in which adding never overwrites, and what they mean: an
abstract finite map, changed by an `add` of an absent key and by a `remove` of
a present one only. A data structure implements it if related states answer
alike and stay related; `replies_eq` carries that over to sequences of calls.
-/

namespace KeyValue

variable {K V S : Type}

/-- A call on a map. -/
inductive Op (K V : Type)
  | add (key : K) (value : V)
  | remove (key : K)
  | contains (key : K)
  | get (key : K)

/-- What a call returns. -/
inductive Reply (V : Type)
  | done
  | present (found : Bool)
  | value (found : Option V)
  deriving DecidableEq, Repr

/-- The state after a list of calls. -/
def after (step : S → Op K V → S × Reply V) (s : S) (ops : List (Op K V)) : S :=
  ops.foldl (fun s op => (step s op).1) s

/-- What a list of calls returns. -/
def replies (step : S → Op K V → S × Reply V) : S → List (Op K V) → List (Reply V)
  | _, [] => []
  | s, op :: ops => (step s op).2 :: replies step (step s op).1 ops

section Abstract

variable [DecidableEq K]

/-- The abstract map. -/
abbrev Spec (K V : Type) := Finmap fun _ : K => V

/-- One call on the abstract map. -/
def Spec.step (map : Spec K V) : Op K V → Spec K V × Reply V
  | .add key value => (if key ∈ map then map else map.insert key value, .done)
  | .remove key => (if key ∈ map then map.erase key else map, .done)
  | .contains key => (map, .present (decide (key ∈ map)))
  | .get key => (map, .value (map.lookup key))

/-- The value of a key after one call, given its value before. -/
def Op.effect (key : K) (old : Option V) : Op K V → Option V
  | .add k value => if k = key then old.or (some value) else old
  | .remove k => if k = key then none else old
  | .contains _ => old
  | .get _ => old

/-- The value that came with the `add` that introduced a key after its last
removal. -/
def introduced (key : K) (ops : List (Op K V)) : Option V :=
  ops.foldl (fun old op => op.effect key old) none

/-- A call on the abstract map changes each key as it should. -/
theorem Spec.lookup_step (map : Spec K V) (op : Op K V) (key : K) :
    (map.step op).1.lookup key = op.effect key (map.lookup key) := by
  cases op with
  | add k value =>
      show (if k ∈ map then map else map.insert k value).lookup key =
        if k = key then (map.lookup key).or (some value) else map.lookup key
      by_cases hk : k = key
      · subst hk
        by_cases present : k ∈ map
        · obtain ⟨old, hold⟩ := Finmap.mem_iff.mp present
          rw [if_pos present, if_pos rfl, hold]
          rfl
        · rw [if_neg present, if_pos rfl, Finmap.lookup_insert, Finmap.lookup_eq_none.mpr present]
          rfl
      · rw [if_neg hk]
        split
        · rfl
        · exact Finmap.lookup_insert_of_ne map (Ne.symm hk)
  | remove k =>
      show (if k ∈ map then map.erase k else map).lookup key =
        if k = key then none else map.lookup key
      by_cases hk : k = key
      · subst hk
        rw [if_pos rfl]
        split
        · exact Finmap.lookup_erase k map
        · rename_i absent
          exact Finmap.lookup_eq_none.mpr absent
      · rw [if_neg hk]
        split
        · exact Finmap.lookup_erase_ne (Ne.symm hk)
        · rfl
  | contains k => rfl
  | get k => rfl

end Abstract

/-! ## Simulation -/

variable {T : Type} {stepS : S → Op K V → S × Reply V} {stepT : T → Op K V → T × Reply V}
  {R : S → T → Prop}

/-- Two implementations that answer alike in related states, and stay related,
answer alike in every sequence of calls. -/
theorem replies_eq (same : ∀ s t op, R s t → (stepS s op).2 = (stepT t op).2)
    (kept : ∀ s t op, R s t → R (stepS s op).1 (stepT t op).1) {s : S} {t : T} (h : R s t)
    (ops : List (Op K V)) : replies stepS s ops = replies stepT t ops := by
  induction ops generalizing s t with
  | nil => rfl
  | cons op ops ih =>
      unfold replies
      rw [same s t op h, ih (kept s t op h)]

/-- What every call keeps, every sequence of calls keeps. -/
theorem after_induct {I : S → Prop} (kept : ∀ s op, I s → I (stepS s op).1) {s : S} (h : I s)
    (ops : List (Op K V)) : I (after stepS s ops) := by
  induction ops generalizing s with
  | nil => exact h
  | cons op ops ih => exact ih (kept s op h)

/-- A view of the state that every call changes as it changes the value of a key
shows, after any calls, what introduced the key. -/
theorem view_after [DecidableEq K] {I : S → Prop} {f : S → Option V} {key : K}
    (kept : ∀ s op, I s → I (stepS s op).1)
    (effect : ∀ s op, I s → f (stepS s op).1 = op.effect key (f s)) {s : S} (h : I s)
    (new : f s = none) (ops : List (Op K V)) : f (after stepS s ops) = introduced key ops := by
  unfold introduced after
  rw [← new]
  clear new
  induction ops generalizing s with
  | nil => rfl
  | cons op ops ih =>
      rw [List.foldl_cons, List.foldl_cons, ih (kept s op h), effect s op h]

end KeyValue
