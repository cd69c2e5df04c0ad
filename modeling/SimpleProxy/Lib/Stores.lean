import Mathlib.Data.List.Basic

/-!
# Stores into a buffer

The stores a function makes into one buffer, oldest first, each at an index.
`Inside` bounds all of them by the size of the buffer; `contents` is what they
leave at an index, where a later store hides an earlier one.
-/

namespace Stores

variable {α : Type}

structure Store (α : Type) where
  index : Nat
  value : α
  deriving DecidableEq, Repr

/-- The stores of `xs` one after the other, from index `j` on. -/
def sequential (j : Nat) : List α → List (Store α)
  | [] => []
  | x :: xs => ⟨j, x⟩ :: sequential (j + 1) xs

/-- Every store hits the buffer. -/
def Inside (size : Nat) (stores : List (Store α)) : Prop := ∀ s ∈ stores, s.index < size

instance (size : Nat) (stores : List (Store α)) : Decidable (Inside size stores) :=
  inferInstanceAs (Decidable (∀ s ∈ stores, s.index < size))

/-- What an index holds after the stores; `none` if none of them hit it. -/
def contents (stores : List (Store α)) (i : Nat) : Option α :=
  (stores.reverse.find? fun s => s.index = i).map Store.value

@[simp] theorem inside_nil (size : Nat) : Inside size ([] : List (Store α)) := by
  simp [Inside]

@[simp] theorem inside_cons (size : Nat) (s : Store α) (stores : List (Store α)) :
    Inside size (s :: stores) ↔ s.index < size ∧ Inside size stores :=
  List.forall_mem_cons

@[simp] theorem inside_append (size : Nat) (front back : List (Store α)) :
    Inside size (front ++ back) ↔ Inside size front ∧ Inside size back :=
  List.forall_mem_append

/-- Stores one after the other fit when the last one does. -/
theorem inside_sequential (size j : Nat) (xs : List α) :
    Inside size (sequential j xs) ↔ xs = [] ∨ j + xs.length ≤ size := by
  induction xs generalizing j with
  | nil => simp [sequential]
  | cons x xs ih =>
      rw [sequential, inside_cons, ih]
      cases xs with
      | nil =>
          simp only [true_or, and_true, List.length_singleton, reduceCtorEq, false_or]
          omega
      | cons y ys =>
          simp only [List.length_cons, reduceCtorEq, false_or]
          omega

/-- Later stores hide earlier ones. -/
theorem contents_append (front back : List (Store α)) (i : Nat) :
    contents (front ++ back) i = (contents back i).or (contents front i) := by
  unfold contents
  rw [List.reverse_append, List.find?_append]
  cases back.reverse.find? fun s => s.index = i <;> rfl

theorem contents_append_singleton (stores : List (Store α)) (s : Store α) (i : Nat) :
    contents (stores ++ [s]) i = if s.index = i then some s.value else contents stores i := by
  rw [contents_append]
  by_cases hit : s.index = i
  · simp [contents, hit]
  · simp [contents, hit]

/-- What an index holds was stored there. -/
theorem lt_of_contents {size i : Nat} {stores : List (Store α)} {x : α}
    (inside : Inside size stores) (h : contents stores i = some x) : i < size := by
  obtain ⟨s, found, -⟩ := Option.map_eq_some_iff.mp h
  have here : s.index = i := by simpa using List.find?_some found
  rw [← here]
  exact inside s (List.mem_reverse.mp (List.mem_of_find?_eq_some found))

/-- An index in front of all stores keeps what it held. -/
theorem contents_sequential_of_lt {j i : Nat} (before : i < j) (xs : List α) :
    contents (sequential j xs) i = none := by
  have missed : ∀ s ∈ (sequential j xs).reverse, ¬ s.index = i := by
    intro s hs
    rw [List.mem_reverse] at hs
    induction xs generalizing j with
    | nil => cases hs
    | cons x xs ih =>
        rcases List.mem_cons.mp hs with rfl | hs
        · show j ≠ i
          omega
        · exact ih (by omega) hs
  unfold contents
  rw [List.find?_eq_none.mpr (by simpa using missed)]
  rfl

/-- Stores one after the other leave the sequence. -/
theorem contents_sequential (j : Nat) (xs : List α) (i : Nat) :
    contents (sequential j xs) (j + i) = xs[i]? := by
  induction xs generalizing j i with
  | nil => rfl
  | cons x xs ih =>
      have split : contents (sequential j (x :: xs)) (j + i) =
          (contents (sequential (j + 1) xs) (j + i)).or (contents [⟨j, x⟩] (j + i)) :=
        contents_append [⟨j, x⟩] (sequential (j + 1) xs) (j + i)
      rw [split]
      cases i with
      | zero =>
          have missed : contents (sequential (j + 1) xs) (j + 0) = none :=
            contents_sequential_of_lt (Nat.lt_succ_self j) xs
          rw [missed]
          simp [contents]
      | succ i =>
          have later : j + (i + 1) = j + 1 + i := by omega
          have missed : contents [(⟨j, x⟩ : Store α)] (j + (i + 1)) = none := by simp [contents]
          rw [missed, later, ih, Option.or_none, List.getElem?_cons_succ]

end Stores
