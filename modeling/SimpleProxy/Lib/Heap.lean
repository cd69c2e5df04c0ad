import SimpleProxy.Lib.Prog
import Mathlib.Data.Finmap
import Mathlib.Data.Fintype.EquivFin
import Mathlib.Tactic.Abel

/-!
# A heap of blocks

Programs that allocate blocks, read and write them whole, and free them. The heap answers
no access to an address that is not allocated, so a program that is sure to end in it
(`Prog.Sure`) has neither a use after free nor a double free. A precondition says what the
entries of the heap are: those the program works on and, added to them, a rest it does not
touch. One rule an access follows; an entry of the whole heap that comes back unchanged was
neither leaked nor written.
-/

namespace Heap

open Interact

abbrev Addr := Nat

variable {B : Type}

/-- What a program does with the heap. A new block comes with its first contents. -/
inductive Access (B : Type)
  | malloc (block : B)
  | load (a : Addr)
  | store (a : Addr) (block : B)
  | free (a : Addr)

abbrev Got (B : Type) : Access B → Type
  | .malloc _ => Addr
  | .load _ => B
  | .store .. => Unit
  | .free _ => Unit

/-- The allocated blocks. -/
abbrev State (B : Type) := Finmap fun _ : Addr => B

/-- One allocated block. -/
abbrev cell (a : Addr) (block : B) : Multiset (Sigma fun _ : Addr => B) := {⟨a, block⟩}

def malloc (block : B) : Prog (Got B) Addr := .perform (Access.malloc block)

def store (a : Addr) (block : B) : Prog (Got B) Unit := .perform (Access.store a block)

def free (a : Addr) : Prog (Got B) Unit := .perform (Access.free a)

/-- Read a block that must be of the kind `read` knows. -/
def load {C : Type} (read : B → Option C) (a : Addr) : Prog (Got B) C :=
  Prog.perform (Access.load a) >>= fun block => (read block).elim .halt .ret

section Memory

variable [DecidableEq B]

/-- `malloc` may answer any address that is not in use. -/
def memory : Env (Got B) (State B) where
  step heap
    | .malloc block, (a : Addr) => if a ∈ heap then none else some (heap.insert a block)
    | .load a, r => if heap.lookup a = some r then some heap else none
    | .store a block, _ => if a ∈ heap then some (heap.insert a block) else none
    | .free a, _ => if a ∈ heap then some (heap.erase a) else none

end Memory

/-! ## Entries -/

variable {heap : State B} {a : Addr} {block : B} {rest : Multiset (Sigma fun _ : Addr => B)}

theorem exists_fresh (heap : State B) : ∃ a, a ∉ heap := by
  obtain ⟨a, ha⟩ := Infinite.exists_notMem_finset heap.keys
  exact ⟨a, fun h => ha (Finmap.mem_keys.mpr h)⟩

theorem entries_insert (fresh : a ∉ heap) (block : B) :
    (heap.insert a block).entries = cell a block + heap.entries := by
  rw [Finmap.entries_insert_of_notMem fresh]
  exact (Multiset.singleton_add _ _).symm

/-- A heap with a block is a smaller heap into which the block was put. -/
theorem exists_insert (own : heap.entries = cell a block + rest) :
    ∃ smaller : State B, smaller.entries = rest ∧ a ∉ smaller ∧ heap = smaller.insert a block := by
  have nodup := heap.nodupKeys
  rw [own, Multiset.singleton_add] at nodup
  induction rest using Quotient.inductionOn with
  | h l =>
      obtain ⟨hnew, hrest⟩ := List.nodupKeys_cons.mp (Multiset.coe_nodupKeys.mp nodup)
      let smaller : State B := ⟨l, Multiset.coe_nodupKeys.mpr hrest⟩
      have hfresh : a ∉ smaller := hnew
      exact ⟨smaller, rfl, hfresh, Finmap.ext (own.trans (entries_insert hfresh block).symm)⟩

theorem lookup_of_mem (own : ⟨a, block⟩ ∈ heap.entries) : heap.lookup a = some block := by
  obtain ⟨rest, hrest⟩ := Multiset.exists_cons_of_mem own
  rw [← Multiset.singleton_add] at hrest
  obtain ⟨smaller, -, -, rfl⟩ := exists_insert hrest
  exact Finmap.lookup_insert smaller

/-! ## One rule an access -/

section Rules

variable [DecidableEq B] {block' : B}

theorem sure_malloc {Q : Addr → State B → Prop} (own : heap.entries = rest)
    (next : ∀ (a : Addr) (heap' : State B), heap'.entries = cell a block + rest → Q a heap') :
    (malloc block).Sure memory Q heap := by
  obtain ⟨a, ha⟩ := exists_fresh heap
  refine ⟨⟨a, heap.insert a block, if_neg ha⟩, fun (a : Addr) heap' hstep => ?_⟩
  have hstep : (if a ∈ heap then none else some (heap.insert a block)) = some heap' := hstep
  split at hstep
  · cases hstep
  · rename_i fresh
    cases hstep
    exact next a _ (by rw [entries_insert fresh, own])

theorem sure_load {C : Type} {read : B → Option C} {c : C} {Q : C → State B → Prop}
    (own : ⟨a, block⟩ ∈ heap.entries) (kind : read block = some c) (next : Q c heap) :
    (load read a).Sure memory Q heap := by
  have found := lookup_of_mem own
  refine ⟨⟨block, heap, if_pos found⟩, fun r heap' hstep => ?_⟩
  have hstep : (if heap.lookup a = some r then some heap else none) = some heap' := hstep
  split at hstep
  · rename_i hr
    cases hstep
    obtain rfl : block = r := Option.some.inj (found.symm.trans hr)
    show ((read block).elim .halt .ret : Prog (Got B) C).Sure memory Q heap
    rw [kind]
    exact next
  · cases hstep

theorem sure_store {Q : Unit → State B → Prop} (own : heap.entries = cell a block + rest)
    (next : ∀ heap' : State B, heap'.entries = cell a block' + rest → Q () heap') :
    (store a block').Sure memory Q heap := by
  obtain ⟨smaller, hrest, fresh, rfl⟩ := exists_insert own
  have live : a ∈ smaller.insert a block := Finmap.mem_insert.mpr (.inl rfl)
  refine ⟨⟨(), _, if_pos live⟩, fun _ heap' hstep => ?_⟩
  obtain rfl := Option.some.inj ((if_pos live).symm.trans hstep)
  rw [Finmap.insert_insert]
  exact next _ (by rw [entries_insert fresh, hrest])

theorem sure_free {Q : Unit → State B → Prop} (own : heap.entries = cell a block + rest)
    (next : ∀ heap' : State B, heap'.entries = rest → Q () heap') :
    (free a).Sure memory Q heap := by
  obtain ⟨smaller, hrest, fresh, rfl⟩ := exists_insert own
  have live : a ∈ smaller.insert a block := Finmap.mem_insert.mpr (.inl rfl)
  refine ⟨⟨(), _, if_pos live⟩, fun _ heap' hstep => ?_⟩
  obtain rfl := Option.some.inj ((if_pos live).symm.trans hstep)
  refine next _ ?_
  have same : (smaller.insert a block).erase a = smaller := by
    refine Finmap.ext_lookup fun x => ?_
    by_cases hx : x = a
    · subst hx
      rw [Finmap.lookup_erase, Finmap.lookup_eq_none.mpr fresh]
    · rw [Finmap.lookup_erase_ne hx, Finmap.lookup_insert_of_ne _ hx]
  rw [same, hrest]

end Rules

end Heap
