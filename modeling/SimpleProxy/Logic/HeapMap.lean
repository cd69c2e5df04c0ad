import SimpleProxy.Core.HeapMap

/-!
# The hash map in memory: one rule a function

A `Layout` says where the blocks of a map lie: a `Spot` has the three addresses of a node and
what the node holds. Its `cells` are the entries the map has in the heap, its `contents` the
map of buckets they spell. Each function ends with the layout of the map its namesake on
buckets returns, and leaves every other entry of the heap alone.
-/

namespace SimpleProxy.HeapMap

open Interact CString KeyValue
open Heap (Addr cell memory State malloc store free)

variable {V : Type}

/-! ## Layouts -/

/-- Where a node is, with its key and its value, and what it holds. -/
structure Spot (V : Type) where
  node : Addr
  key : Addr
  value : Addr
  entry : Node V

abbrev Cells (V : Type) := Multiset (Sigma fun _ : Addr => Block V)

def Spot.cells (s : Spot V) (next : Option Addr) : Cells V :=
  cell s.node (.node ⟨s.key, s.value, next⟩) +
    (cell s.key (.text s.entry.key) + cell s.value (.value s.entry.value))

/-- The pointer to the first node of a chain, or to what follows it. -/
def front : List (Spot V) → Option Addr → Option Addr
  | [], last => last
  | s :: _, _ => some s.node

/-- The cells of a part of a chain that goes on at `last`. -/
def segment : List (Spot V) → Option Addr → Cells V
  | [], _ => 0
  | s :: rest, last => s.cells (front rest last) + segment rest last

theorem front_append (before after : List (Spot V)) (last : Option Addr) :
    front (before ++ after) last = front before (front after last) := by
  cases before <;> rfl

theorem segment_append (before after : List (Spot V)) (last : Option Addr) :
    segment (before ++ after) last = segment before (front after last) + segment after last := by
  induction before with
  | nil => exact (zero_add _).symm
  | cons s before ih =>
      show s.cells (front (before ++ after) last) + segment (before ++ after) last = _
      rw [ih, front_append, ← add_assoc]
      rfl

abbrev Chain (V : Type) := List (Spot V)

/-- The bucket array. -/
def heads (chains : List (Chain V)) : List (Option Addr) := chains.map (front · none)

/-- The cells of all chains. -/
def spread (chains : List (Chain V)) : Cells V := (chains.map (segment · none)).sum

structure Layout (V : Type) where
  addr : Addr
  buckets : Addr
  size : Nat
  chains : List (Chain V)

namespace Layout

/-- The map that a layout spells. -/
def contents (L : Layout V) : HashMap V where
  buckets := L.chains.map (·.map Spot.entry)
  capacity := L.chains.length
  size := L.size

/-- The cells of a map whose mutex is held or not. -/
def cells (L : Layout V) (locked : Bool) : Cells V :=
  cell L.addr (.map ⟨L.buckets, L.chains.length, L.size, locked⟩) +
    (cell L.buckets (.buckets (heads L.chains)) + spread L.chains)

end Layout

variable {chains : List (Chain V)} {chain : Chain V} {i : Nat} {heap : State (Block V)}
  {L : Layout V} {locked : Bool} {rest : Cells V}

theorem heads_get (hi : chains[i]? = some chain) : (heads chains)[i]? = some (front chain none) := by
  rw [heads, List.getElem?_map, hi]
  rfl

theorem heads_set (chain : Chain V) :
    heads (chains.set i chain) = (heads chains).set i (front chain none) :=
  List.map_set

/-- A chain with the same first node. -/
theorem heads_set_front {chain' : Chain V} (hi : chains[i]? = some chain)
    (same : front chain' none = front chain none) :
    (heads chains).set i (front chain' none) = heads chains := by
  obtain ⟨hlt, hget⟩ := List.getElem?_eq_some_iff.mp (heads_get hi)
  rw [same, ← hget]
  exact List.set_getElem_self hlt

theorem lt_of_get (hi : chains[i]? = some chain) : i < (heads chains).length := by
  rw [heads, List.length_map]
  exact (List.getElem?_eq_some_iff.mp hi).1

theorem spread_append (before after : List (Chain V)) :
    spread (before ++ after) = spread before + spread after := by
  rw [spread, List.map_append, List.sum_append]
  rfl

theorem spread_replicate (n : Nat) : spread (List.replicate n ([] : Chain V)) = 0 := by
  rw [spread, List.map_replicate]
  exact List.sum_eq_zero fun _ h => List.eq_of_mem_replicate h

theorem heads_replicate (n : Nat) : heads (List.replicate n ([] : Chain V)) = List.replicate n none :=
  List.map_replicate

/-- One chain, and the cells of the others. -/
theorem exists_others (hi : chains[i]? = some chain) :
    ∃ others, spread chains = segment chain none + others ∧
      ∀ chain', spread (chains.set i chain') = segment chain' none + others := by
  obtain ⟨hlt, rfl⟩ := List.getElem?_eq_some_iff.mp hi
  refine ⟨spread (chains.take i) + spread (chains.drop (i + 1)), ?_, fun chain' => ?_⟩
  · have split : chains.take i ++ chains[i] :: chains.drop (i + 1) = chains := by
      rw [← List.drop_eq_getElem_cons hlt, List.take_append_drop]
    conv_lhs => rw [← split, spread_append]
    show _ + (segment chains[i] none + spread (chains.drop (i + 1))) = _
    abel
  · rw [List.set_eq_take_append_cons_drop, if_pos hlt, spread_append]
    show _ + (segment chain' none + spread (chains.drop (i + 1))) = _
    abel

/-- Changing one chain changes one bucket of the map. -/
theorem map_set_chain {chain' : Chain V} {f : List (Node V) → List (Node V)}
    (hi : chains[i]? = some chain) (hf : chain'.map Spot.entry = f (chain.map Spot.entry)) :
    (chains.set i chain').map (·.map Spot.entry) = (chains.map (·.map Spot.entry)).modify i f := by
  refine List.ext_getElem? fun j => ?_
  by_cases hj : i = j
  · subst hj
    rw [List.getElem?_modify_eq, List.getElem?_map, List.getElem?_map, hi,
      List.getElem?_set_self (List.getElem?_eq_some_iff.mp hi).1]
    exact congrArg some hf
  · rw [List.getElem?_modify_ne _ _ hj, List.getElem?_map, List.getElem?_map,
      List.getElem?_set_ne hj]

namespace Layout

/-- The layout with another chain at one place, and another count. -/
def setChain (L : Layout V) (i : Nat) (chain : Chain V) (size : Nat) : Layout V :=
  { L with chains := L.chains.set i chain, size := size }

/-- The layout with one more node, in front of its chain. -/
def push (L : Layout V) (s : Spot V) : Layout V :=
  let index := hash s.entry.key L.chains.length
  L.setChain index (s :: (L.chains[index]?).getD []) (L.size + 1)

theorem length_setChain (L : Layout V) (i : Nat) (chain : Chain V) (size : Nat) :
    (L.setChain i chain size).chains.length = L.chains.length :=
  List.length_set

theorem contents_push {s : Spot V} (positive : 0 < L.chains.length) :
    (L.push s).contents = L.contents.push s.entry := by
  have hlt := HashMap.hash_lt positive s.entry.key
  have buckets : (L.push s).chains.map (·.map Spot.entry) =
      (L.chains.map (·.map Spot.entry)).modify (hash s.entry.key L.chains.length)
        (s.entry :: ·) := by
    refine map_set_chain (List.getElem?_eq_getElem hlt) ?_
    rw [List.getElem?_eq_getElem hlt]
    rfl
  have length : (L.push s).chains.length = L.chains.length := L.length_setChain _ _ _
  rw [contents, buckets, length]
  rfl

/-- One node after the other. -/
theorem contents_foldl_push (spots : Chain V) (positive : 0 < L.chains.length) :
    (spots.foldl push L).contents = (spots.map Spot.entry).foldl HashMap.push L.contents := by
  induction spots generalizing L with
  | nil => rfl
  | cons s spots ih =>
      have positive' : 0 < (L.push s).chains.length := by rwa [push, length_setChain]
      rw [List.foldl_cons, ih positive', contents_push positive]
      rfl

theorem length_foldl_push (spots : Chain V) (L : Layout V) :
    (spots.foldl push L).chains.length = L.chains.length := by
  induction spots generalizing L with
  | nil => rfl
  | cons s spots ih => rw [List.foldl_cons, ih, push, length_setChain]

theorem addr_foldl_push (spots : Chain V) (L : Layout V) :
    (spots.foldl push L).addr = L.addr ∧ (spots.foldl push L).buckets = L.buckets := by
  induction spots generalizing L with
  | nil => exact ⟨rfl, rfl⟩
  | cons s spots ih => exact ih (L.push s)

/-- The map in the course of a rehash, when the first `i` chains have been moved to the bucket
array at `new`. -/
def moved (L : Layout V) (new : Addr) (i : Nat) : Layout V :=
  (L.chains.take i).flatten.foldl push
    ⟨L.addr, new, 0, List.replicate (L.chains.length * 2) []⟩

theorem addr_moved (L : Layout V) (new : Addr) (i : Nat) : (L.moved new i).addr = L.addr :=
  (addr_foldl_push _ _).1

theorem moved_positive (L : Layout V) (new : Addr) (i : Nat) (positive : 0 < L.chains.length) :
    0 < (L.moved new i).chains.length := by
  rw [moved, length_foldl_push]
  show 0 < (List.replicate (L.chains.length * 2) ([] : Chain V)).length
  rw [List.length_replicate]
  exact Nat.mul_pos positive Nat.two_pos

theorem moved_succ (L : Layout V) (new : Addr) (hi : i < L.chains.length) :
    L.moved new (i + 1) = L.chains[i].foldl push (L.moved new i) := by
  rw [moved, List.take_succ_eq_append_getElem hi, List.flatten_append, List.foldl_append,
    List.flatten_singleton]
  rfl

/-- When all have been moved, this is the rehashed map. -/
theorem contents_moved (L : Layout V) (new : Addr) (positive : 0 < L.chains.length) :
    (L.moved new L.chains.length).contents = L.contents.rehash := by
  have flat : L.chains.flatten.map Spot.entry = L.contents.buckets.flatten := List.map_flatten
  have fold := contents_foldl_push L.chains.flatten (L.moved_positive new 0 positive)
  rw [flat] at fold
  rw [moved, List.take_length]
  refine fold.trans ?_
  rw [moved, List.take_zero, List.flatten_nil, List.foldl_nil, contents, List.map_replicate,
    List.length_replicate]
  rfl

/-- The layout without the first node behind `before` that has the key. -/
def remove (L : Layout V) (key : Bytes) (index : Nat) (before spots : Chain V) : Layout V :=
  if spots.any (·.entry.key = key) then
    L.setChain index (before ++ spots.eraseP (·.entry.key = key)) (L.size - 1)
  else L

theorem contents_remove {key : Bytes} (hi : L.chains[hash key L.chains.length]? = some chain)
    (hchain : L.contents.chain key = chain.map Spot.entry) :
    (L.remove key (hash key L.chains.length) [] chain).contents = L.contents.remove key := by
  have found : L.contents.contains key = chain.any (·.entry.key = key) := by
    rw [HashMap.contains, hchain, List.any_map]
    rfl
  rw [Layout.remove, HashMap.remove, found]
  split
  · have buckets : (L.chains.set (hash key L.chains.length) (chain.eraseP (·.entry.key = key))).map
        (·.map Spot.entry) = (L.chains.map (·.map Spot.entry)).modify (hash key L.chains.length)
          (·.eraseP fun node => node.key = key) :=
      map_set_chain hi (by rw [List.eraseP_map]; rfl)
    rw [contents, length_setChain]
    exact congrArg (HashMap.mk · L.chains.length (L.size - 1)) buckets
  · rfl

end Layout

/-! ## What lies in the heap -/

theorem mem_map (own : heap.entries = L.cells locked + rest) :
    ⟨L.addr, .map ⟨L.buckets, L.chains.length, L.size, locked⟩⟩ ∈ heap.entries := by
  simp [own, Layout.cells]

theorem mem_buckets (own : heap.entries = L.cells locked + rest) :
    ⟨L.buckets, .buckets (heads L.chains)⟩ ∈ heap.entries := by
  simp [own, Layout.cells]

/-- The bucket of a key, in a map with buckets. -/
theorem Layout.chain_get (positive : 0 < L.chains.length) (key : Bytes) :
    ∃ chain, L.chains[hash key L.chains.length]? = some chain ∧
      L.contents.chain key = chain.map Spot.entry := by
  have hlt := HashMap.hash_lt positive key
  refine ⟨_, List.getElem?_eq_getElem hlt, ?_⟩
  show ((L.chains.map (·.map Spot.entry))[hash key L.chains.length]?).getD [] = _
  rw [List.getElem?_map, List.getElem?_eq_getElem hlt]
  rfl

/-- The chain of a key is somewhere in the heap. -/
theorem Layout.segment_le (own : heap.entries = L.cells locked + rest)
    (hi : L.chains[i]? = some chain) : segment chain none ≤ heap.entries := by
  obtain ⟨others, split, -⟩ := exists_others hi
  rw [own, Layout.cells, split]
  refine le_trans ?_ (Multiset.le_add_right _ _)
  refine le_trans ?_ (Multiset.le_add_left _ _)
  refine le_trans ?_ (Multiset.le_add_left _ _)
  exact Multiset.le_add_right _ _

theorem mem_spot {s : Spot V} {last : Option Addr}
    (own : segment (s :: chain) last ≤ heap.entries) :
    ⟨s.node, .node ⟨s.key, s.value, front chain last⟩⟩ ∈ heap.entries ∧
      ⟨s.key, .text s.entry.key⟩ ∈ heap.entries ∧ ⟨s.value, .value s.entry.value⟩ ∈ heap.entries :=
  ⟨Multiset.mem_of_le own (by simp [segment, Spot.cells]),
    Multiset.mem_of_le own (by simp [segment, Spot.cells]),
    Multiset.mem_of_le own (by simp [segment, Spot.cells])⟩

/-- The chains a walk of some rounds gets to the end of. -/
structure Layout.Fits (L : Layout V) (rounds : Nat) : Prop where
  positive : 0 < L.chains.length
  short : ∀ chain ∈ L.chains, chain.length ≤ rounds

/-- What is found in the chain of a key is what the map of buckets finds. -/
theorem Layout.lookup_eq {key : Bytes} (hchain : L.contents.chain key = chain.map Spot.entry) :
    L.contents.contains key = (chain.find? (·.entry.key = key)).isSome ∧
      L.contents.get key = (chain.find? (·.entry.key = key)).map (·.entry.value) := by
  constructor
  · rw [HashMap.contains, hchain, List.any_map, List.isSome_find?]
    rfl
  · rw [HashMap.get, hchain, List.find?_map, Option.map_map]
    rfl

/-! ## Reading and writing the blocks -/

section Rules

variable [DecidableEq V]

theorem sure_bucket {Q : Option Addr → State (Block V) → Prop} {buckets : Addr}
    {hs : List (Option Addr)} {first : Option Addr} (own : ⟨buckets, .buckets hs⟩ ∈ heap.entries)
    (hi : hs[i]? = some first) (next : Q first heap) : (bucket buckets i).Sure memory Q heap := by
  refine (Prog.sure_bind _ _).mpr (Heap.sure_load own rfl ?_)
  rw [hi]
  exact next

theorem sure_setBucket {Q : Unit → State (Block V) → Prop} {buckets : Addr}
    {hs : List (Option Addr)} {first : Option Addr}
    (own : heap.entries = cell buckets (.buckets hs) + rest) (hi : i < hs.length)
    (next : ∀ heap' : State (Block V),
      heap'.entries = cell buckets (.buckets (hs.set i first)) + rest → Q () heap') :
    (setBucket buckets i first).Sure memory Q heap := by
  have mem : ⟨buckets, .buckets hs⟩ ∈ heap.entries := by simp [own]
  refine (Prog.sure_bind _ _).mpr (Heap.sure_load mem rfl ?_)
  rw [if_pos hi]
  exact Heap.sure_store own next

theorem sure_lock {Q : Unit → State (Block V) → Prop} (own : heap.entries = L.cells false + rest)
    (next : ∀ heap' : State (Block V), heap'.entries = L.cells true + rest → Q () heap') :
    (lock L.addr).Sure memory Q heap := by
  refine (Prog.sure_bind _ _).mpr (Heap.sure_load (mem_map own) rfl ?_)
  exact Heap.sure_store (own.trans (add_assoc _ _ _)) fun heap' own' =>
    next heap' (own'.trans (add_assoc _ _ _).symm)

/-- The mutex alone, whatever else is left of the map. -/
theorem sure_unlock_map {Q : Unit → State (Block V) → Prop} {a : Addr} {m : MapBlock}
    (own : heap.entries = cell a (.map m) + rest) (held : m.locked = true)
    (next : ∀ heap' : State (Block V),
      heap'.entries = cell a (.map { m with locked := false }) + rest → Q () heap') :
    (unlock a).Sure memory Q heap := by
  have mem : ⟨a, .map m⟩ ∈ heap.entries := by simp [own]
  refine (Prog.sure_bind _ _).mpr (Heap.sure_load mem rfl ?_)
  rw [if_pos held]
  exact Heap.sure_store own next

theorem sure_unlock {Q : Unit → State (Block V) → Prop} (own : heap.entries = L.cells true + rest)
    (next : ∀ heap' : State (Block V), heap'.entries = L.cells false + rest → Q () heap') :
    (unlock L.addr).Sure memory Q heap :=
  sure_unlock_map (own.trans (add_assoc _ _ _)) rfl fun heap' own' =>
    next heap' (own'.trans (add_assoc _ _ _).symm)

/-- Both loops find the first node with the key. -/
theorem sure_search {key : Bytes} {rounds : Nat} (own : segment chain none ≤ heap.entries)
    (hrounds : chain.length ≤ rounds) :
    (search key rounds (front chain none)).Sure memory
      (fun found heap' => heap' = heap ∧
        found.map NodeBlock.value = (chain.find? (·.entry.key = key)).map Spot.value) heap := by
  induction chain generalizing rounds with
  | nil =>
      cases rounds <;> exact ⟨rfl, rfl⟩
  | cons s chain ih =>
      obtain ⟨rounds, rfl⟩ : ∃ r, rounds = r + 1 := ⟨rounds - 1, by simp at hrounds; omega⟩
      obtain ⟨hnode, hkey, -⟩ := mem_spot own
      refine (Prog.sure_bind _ _).mpr (Heap.sure_load hnode rfl ?_)
      refine (Prog.sure_bind _ _).mpr (Heap.sure_load hkey rfl ?_)
      by_cases same : s.entry.key = key
      · rw [if_pos same]
        refine ⟨rfl, ?_⟩
        rw [List.find?_cons_of_pos (by simpa using same)]
        rfl
      · rw [if_neg same]
        have own' : segment chain none ≤ heap.entries :=
          le_trans (Multiset.le_add_left _ _) own
        refine (ih own' (Nat.le_of_succ_le_succ hrounds)).mono fun found heap' h => ?_
        rw [List.find?_cons_of_neg (by simpa using same)]
        exact h

variable {rounds : Nat} {key : Bytes}

theorem sure_hashmapContains (own : heap.entries = L.cells locked + rest) (fits : L.Fits rounds) :
    (hashmapContains rounds L.addr key).Sure memory
      (fun found heap' => heap' = heap ∧ found = L.contents.contains key) heap := by
  obtain ⟨chain, hi, hchain⟩ := L.chain_get fits.positive key
  refine (Prog.sure_bind _ _).mpr (Heap.sure_load (mem_map own) rfl ?_)
  refine (Prog.sure_bind _ _).mpr (sure_bucket (mem_buckets own) (heads_get hi) ?_)
  refine (sure_search (L.segment_le own hi) (fits.short chain (List.mem_of_getElem? hi))).bind ?_
  rintro found _ ⟨rfl, hfound⟩
  refine ⟨rfl, ?_⟩
  have := congrArg Option.isSome hfound
  rw [Option.isSome_map, Option.isSome_map] at this
  rw [this, (Layout.lookup_eq hchain).1]

/-- The pointer that is returned leads to the value. -/
theorem sure_hashmapGet (own : heap.entries = L.cells false + rest) (fits : L.Fits rounds) :
    (hashmapGet rounds L.addr key).Sure memory
      (fun found heap' => heap'.entries = L.cells false + rest ∧
        match found with
        | some a => ∃ v, ⟨a, .value v⟩ ∈ heap'.entries ∧ L.contents.get key = some v
        | none => L.contents.get key = none) heap := by
  obtain ⟨chain, hi, hchain⟩ := L.chain_get fits.positive key
  refine (Prog.sure_bind _ _).mpr (sure_lock own fun heap₁ own₁ => ?_)
  refine (Prog.sure_bind _ _).mpr (Heap.sure_load (mem_map own₁) rfl ?_)
  refine (Prog.sure_bind _ _).mpr (sure_bucket (mem_buckets own₁) (heads_get hi) ?_)
  refine (sure_search (L.segment_le own₁ hi) (fits.short chain (List.mem_of_getElem? hi))).bind ?_
  rintro found _ ⟨rfl, hfound⟩
  refine (Prog.sure_bind _ _).mpr (sure_unlock own₁ fun heap₂ own₂ => ?_)
  refine ⟨own₂, ?_⟩
  rw [(Layout.lookup_eq hchain).2, hfound]
  cases hspot : chain.find? (·.entry.key = key) with
  | none => rfl
  | some s =>
      refine ⟨s.entry.value, ?_, rfl⟩
      obtain ⟨before, after, rfl⟩ := List.append_of_mem (List.mem_of_find?_eq_some hspot)
      have own₃ := L.segment_le own₂ hi
      rw [segment_append] at own₃
      exact (mem_spot (le_trans (Multiset.le_add_left _ _) own₃)).2.2

/-! ## Creating -/

theorem sure_hashmapCreate (own : heap.entries = rest) :
    (hashmapCreate (V := V)).Sure memory (fun a heap' => ∃ L : Layout V,
      L.addr = a ∧ L.contents = .create ∧ heap'.entries = L.cells false + rest) heap := by
  refine (Prog.sure_bind _ _).mpr (Heap.sure_malloc own fun map heap₁ own₁ => ?_)
  refine (Prog.sure_bind _ _).mpr (Heap.sure_malloc own₁ fun buckets heap₂ own₂ => ?_)
  rw [add_left_comm] at own₂
  refine (Prog.sure_bind _ _).mpr (Heap.sure_store own₂ fun heap₃ own₃ => ?_)
  refine ⟨⟨map, buckets, 0, List.replicate initialCapacity []⟩, rfl, ?_, ?_⟩
  · rfl
  · rw [own₃, Layout.cells, spread_replicate, heads_replicate, List.length_replicate, add_zero,
      add_assoc]

/-! ## Adding -/

variable {α : Type} {Q : α → State (Block V) → Prop}

/-- The last steps of `hashmap_add`, and of the loop of `hashmap_rehash`: a node whose `next`
is the first node of its bucket becomes the first. -/
theorem sure_link {s : Spot V} {f : MemProg V α}
    (hi : L.chains[hash s.entry.key L.chains.length]? = some chain)
    (own : heap.entries = s.cells (front chain none) + (L.cells locked + rest))
    (next : ∀ heap' : State (Block V), heap'.entries = (L.push s).cells locked + rest →
      f.Sure memory Q heap') :
    (do
      setBucket L.buckets (hash s.entry.key L.chains.length) (some s.node)
      store L.addr (.map ⟨L.buckets, L.chains.length, L.size + 1, locked⟩)
      f : MemProg V α).Sure memory Q heap := by
  obtain ⟨others, hspread, hset⟩ := exists_others hi
  let index := hash s.entry.key L.chains.length
  have own₀ : heap.entries = cell L.buckets (.buckets (heads L.chains)) +
      (s.cells (front chain none) + (cell L.addr (.map ⟨L.buckets, L.chains.length, L.size, locked⟩) +
        (spread L.chains + rest))) := by
    rw [own, Layout.cells]
    abel
  refine (Prog.sure_bind _ _).mpr (sure_setBucket own₀ (lt_of_get hi) fun heap₁ own₁ => ?_)
  have own₁' : heap₁.entries = cell L.addr (.map ⟨L.buckets, L.chains.length, L.size, locked⟩) +
      (cell L.buckets (.buckets ((heads L.chains).set index (some s.node))) +
        (s.cells (front chain none) + (spread L.chains + rest))) := by
    rw [own₁]
    abel
  refine (Prog.sure_bind _ _).mpr (Heap.sure_store own₁' fun heap₂ own₂ => next heap₂ ?_)
  have push : L.push s = L.setChain index (s :: chain) (L.size + 1) := by
    rw [Layout.push, hi]
    rfl
  have heads' : heads (L.chains.set index (s :: chain)) = (heads L.chains).set index (some s.node) :=
    heads_set _
  have spread' : spread (L.chains.set index (s :: chain)) =
      s.cells (front chain none) + segment chain none + others := hset _
  rw [own₂, push, Layout.cells, L.length_setChain]
  show _ = cell L.addr (.map ⟨L.buckets, L.chains.length, L.size + 1, locked⟩) +
    (cell L.buckets (.buckets (heads (L.chains.set index (s :: chain)))) +
      spread (L.chains.set index (s :: chain))) + rest
  rw [heads', spread', hspread]
  abel

/-- A whole chain goes to its new buckets, node by node. -/
theorem sure_moveChain {spots : Chain V} (positive : 0 < L.chains.length)
    (hrounds : spots.length ≤ rounds)
    (own : heap.entries = segment spots none + (L.cells locked + rest)) :
    (moveChain L.addr rounds (front spots none)).Sure memory
      (fun _ heap' => heap'.entries = (spots.foldl Layout.push L).cells locked + rest) heap := by
  induction spots generalizing L heap rounds with
  | nil =>
      have done : heap.entries = L.cells locked + rest := own.trans (zero_add _)
      cases rounds <;> exact done
  | cons s spots ih =>
      obtain ⟨rounds, rfl⟩ : ∃ r, rounds = r + 1 := ⟨rounds - 1, by simp at hrounds; omega⟩
      have hlt := HashMap.hash_lt positive s.entry.key
      have hi := List.getElem?_eq_getElem hlt
      have whole : heap.entries = L.cells locked + (segment (s :: spots) none + rest) := by
        rw [own]
        abel
      obtain ⟨hnode, hkey, -⟩ := mem_spot (own ▸ Multiset.le_add_right _ _)
      refine (Prog.sure_bind _ _).mpr (Heap.sure_load (mem_map whole) rfl ?_)
      refine (Prog.sure_bind _ _).mpr (Heap.sure_load hnode rfl ?_)
      refine (Prog.sure_bind _ _).mpr (Heap.sure_load hkey rfl ?_)
      refine (Prog.sure_bind _ _).mpr (sure_bucket (mem_buckets whole) (heads_get hi) ?_)
      have own₀ : heap.entries = cell s.node (.node ⟨s.key, s.value, front spots none⟩) +
          ((cell s.key (.text s.entry.key) + cell s.value (.value s.entry.value)) +
            (segment spots none + (L.cells locked + rest))) := by
        rw [own, segment, Spot.cells]
        abel
      refine (Prog.sure_bind _ _).mpr (Heap.sure_store own₀ fun heap₁ own₁ => ?_)
      have own₁' : heap₁.entries = s.cells (front L.chains[hash s.entry.key L.chains.length] none) +
          (L.cells locked + (segment spots none + rest)) := by
        rw [own₁, Spot.cells]
        abel
      refine sure_link hi own₁' fun heap₂ own₂ => ?_
      have positive' : 0 < (L.push s).chains.length := by
        rwa [Layout.push, Layout.length_setChain]
      refine ih positive' (Nat.le_of_succ_le_succ hrounds) ?_
      rw [own₂]
      abel

/-- One turn of the loop over the old buckets. -/
theorem sure_moveBucket {new : Addr} (fits : L.Fits rounds) (hi : i < L.chains.length)
    (own : heap.entries = cell L.buckets (.buckets (heads L.chains)) +
      (spread (L.chains.drop i) + ((L.moved new i).cells locked + rest))) :
    (bucket L.buckets i >>= moveChain L.addr rounds).Sure memory
      (fun _ heap' => heap'.entries = cell L.buckets (.buckets (heads L.chains)) +
        (spread (L.chains.drop (i + 1)) + ((L.moved new (i + 1)).cells locked + rest))) heap := by
  have old : ⟨L.buckets, .buckets (heads L.chains)⟩ ∈ heap.entries := by
    rw [own]
    exact Multiset.mem_add.mpr (.inl (Multiset.mem_singleton_self _))
  refine (Prog.sure_bind _ _).mpr
    (sure_bucket old (heads_get (List.getElem?_eq_getElem hi)) ?_)
  have drop : spread (L.chains.drop i) =
      segment L.chains[i] none + spread (L.chains.drop (i + 1)) := by
    rw [List.drop_eq_getElem_cons hi]
    rfl
  have own' : heap.entries = segment L.chains[i] none + ((L.moved new i).cells locked +
      (cell L.buckets (.buckets (heads L.chains)) + (spread (L.chains.drop (i + 1)) + rest))) := by
    rw [own, drop]
    abel
  rw [← L.addr_moved new i]
  refine (sure_moveChain (L.moved_positive new i fits.positive)
    (fits.short _ (List.getElem_mem hi)) own').mono fun _ heap' own₁ => ?_
  rw [own₁, L.moved_succ new hi]
  abel

/-- The old chains one after the other, and the old array is freed. -/
theorem sure_hashmapRehash (fits : L.Fits rounds) (own : heap.entries = L.cells locked + rest) :
    (hashmapRehash rounds L.addr).Sure memory (fun _ heap' => ∃ L' : Layout V,
      L'.addr = L.addr ∧ L'.contents = L.contents.rehash ∧
        heap'.entries = L'.cells locked + rest) heap := by
  refine (Prog.sure_bind _ _).mpr (Heap.sure_load (mem_map own) rfl ?_)
  refine (Prog.sure_bind _ _).mpr (Heap.sure_malloc own fun new heap₁ own₁ => ?_)
  have own₁' : heap₁.entries = cell L.addr (.map ⟨L.buckets, L.chains.length, L.size, locked⟩) +
      (cell new (.buckets (List.replicate (L.chains.length * 2) none)) +
        (cell L.buckets (.buckets (heads L.chains)) + (spread L.chains + rest))) := by
    rw [own₁, Layout.cells]
    abel
  refine (Prog.sure_bind _ _).mpr (Heap.sure_store own₁' fun heap₂ own₂ => ?_)
  have start : heap₂.entries = cell L.buckets (.buckets (heads L.chains)) +
      (spread (L.chains.drop 0) + ((L.moved new 0).cells locked + rest)) := by
    show _ = cell L.buckets _ + (spread L.chains +
      (Layout.cells ⟨L.addr, new, 0, List.replicate (L.chains.length * 2) []⟩ locked + rest))
    rw [own₂, Layout.cells, spread_replicate, heads_replicate, List.length_replicate, add_zero]
    abel
  let I (i : Nat) (heap : State (Block V)) : Prop := heap.entries =
    cell L.buckets (.buckets (heads L.chains)) +
      (spread (L.chains.drop i) + ((L.moved new i).cells locked + rest))
  have step : ∀ i heap, i < L.chains.length → I i heap →
      (bucket L.buckets i >>= moveChain L.addr rounds).Sure memory
        (fun _ heap' => I (i + 1) heap') heap := by
    intro i heap hi own
    exact sure_moveBucket fits hi own
  have loop := Prog.sure_countUp step (Nat.zero_add _) start
  refine (Prog.sure_bind _ _).mpr (loop.mono fun _ heap₃ own₃ => ?_)
  refine Heap.sure_free own₃ fun heap₄ own₄ =>
    ⟨L.moved new L.chains.length, L.addr_moved new _, L.contents_moved new fits.positive, ?_⟩
  rw [own₄, List.drop_length]
  exact zero_add _

/-- The new node: three blocks, filled, and linked in front of its bucket. -/
theorem sure_insertNode {value : V} (positive : 0 < L.chains.length)
    (own : heap.entries = L.cells true + rest) :
    (insertNode L.addr key value).Sure memory (fun _ heap' => ∃ L' : Layout V,
      L'.addr = L.addr ∧ L'.contents = L.contents.push ⟨key, value⟩ ∧
        heap'.entries = L'.cells false + rest) heap := by
  have hlt := HashMap.hash_lt positive key
  have hi := List.getElem?_eq_getElem hlt
  refine (Prog.sure_bind _ _).mpr (Heap.sure_load (mem_map own) rfl ?_)
  refine (Prog.sure_bind _ _).mpr (Heap.sure_malloc own fun node heap₁ own₁ => ?_)
  refine (Prog.sure_bind _ _).mpr (Heap.sure_malloc own₁ fun copy heap₂ own₂ => ?_)
  refine (Prog.sure_bind _ _).mpr (Heap.sure_malloc own₂ fun v heap₃ own₃ => ?_)
  refine (Prog.sure_bind _ _).mpr (Heap.sure_store own₃ fun heap₄ own₄ => ?_)
  have whole : heap₄.entries = L.cells true + (cell node .raw +
      (cell copy (.text key) + cell v (.value value)) + rest) := by
    rw [own₄]
    abel
  refine (Prog.sure_bind _ _).mpr (sure_bucket (mem_buckets whole) (heads_get hi) ?_)
  have own₄' : heap₄.entries = cell node .raw +
      (cell copy (.text key) + cell v (.value value) + (L.cells true + rest)) := by
    rw [own₄]
    abel
  refine (Prog.sure_bind _ _).mpr (Heap.sure_store own₄' fun heap₅ own₅ => ?_)
  let s : Spot V := ⟨node, copy, v, ⟨key, value⟩⟩
  have own₅' : heap₅.entries = s.cells (front L.chains[hash key L.chains.length] none) +
      (L.cells true + rest) := by
    rw [own₅, Spot.cells]
    abel
  refine sure_link (s := s) hi own₅' fun heap₆ own₆ => ?_
  exact sure_unlock (L := L.push s) own₆ fun heap₇ own₇ =>
    ⟨L.push s, rfl, Layout.contents_push positive, own₇⟩

theorem sure_hashmapAdd {value : V} (fits : L.Fits rounds)
    (own : heap.entries = L.cells false + rest) :
    (hashmapAdd rounds L.addr key value).Sure memory (fun _ heap' => ∃ L' : Layout V,
      L'.addr = L.addr ∧ L'.contents = L.contents.add key value ∧
        heap'.entries = L'.cells false + rest) heap := by
  refine (Prog.sure_bind _ _).mpr (sure_lock own fun heap₁ own₁ => ?_)
  refine (sure_hashmapContains own₁ fits).bind ?_
  rintro found heap₂ ⟨rfl, rfl⟩
  cases present : L.contents.contains key with
  | true =>
      refine sure_unlock own₁ fun heap₃ own₃ => ⟨L, rfl, ?_, own₃⟩
      rw [HashMap.add, if_pos present]
  | false =>
      refine (Prog.sure_bind _ _).mpr (Heap.sure_load (mem_map own₁) rfl ?_)
      rw [HashMap.add, present, if_neg Bool.false_ne_true]
      by_cases full : 3 * L.chains.length < 4 * (L.size + 1)
      · have full' : 3 * L.contents.capacity < 4 * (L.contents.size + 1) := full
        rw [if_pos full']
        show (if 3 * L.chains.length < 4 * (L.size + 1) then
          hashmapRehash rounds L.addr >>= fun _ => insertNode L.addr key value
          else insertNode L.addr key value).Sure memory _ heap₂
        rw [if_pos full]
        refine (sure_hashmapRehash fits own₁).bind ?_
        rintro _ heap₃ ⟨L', haddr, hrehash, own₃⟩
        have capacity : L'.chains.length = L.chains.length * 2 :=
          (congrArg HashMap.capacity hrehash).trans HashMap.capacity_rehash
        have positive : 0 < L'.chains.length := capacity ▸ Nat.mul_pos fits.positive Nat.two_pos
        rw [← haddr, ← hrehash]
        exact sure_insertNode positive own₃
      · have room : ¬ 3 * L.contents.capacity < 4 * (L.contents.size + 1) := full
        rw [if_neg room]
        show (if 3 * L.chains.length < 4 * (L.size + 1) then
          hashmapRehash rounds L.addr >>= fun _ => insertNode L.addr key value
          else insertNode L.addr key value).Sure memory _ heap₂
        rw [if_neg full]
        exact sure_insertNode fits.positive own₁

/-! ## Removing and freeing -/

theorem sure_freeNode {s : Spot V} {next : Option Addr} {Q : Unit → State (Block V) → Prop}
    (own : heap.entries = s.cells next + rest)
    (goal : ∀ heap' : State (Block V), heap'.entries = rest → Q () heap') :
    (freeNode s.node ⟨s.key, s.value, next⟩).Sure memory Q heap := by
  have own₀ : heap.entries = cell s.key (.text s.entry.key) + (cell s.value (.value s.entry.value) +
      (cell s.node (.node ⟨s.key, s.value, next⟩) + rest)) := by
    rw [own, Spot.cells]
    abel
  refine (Prog.sure_bind _ _).mpr (Heap.sure_free own₀ fun heap₁ own₁ => ?_)
  refine (Prog.sure_bind _ _).mpr (Heap.sure_free own₁ fun heap₂ own₂ => ?_)
  exact Heap.sure_free own₂ goal

theorem sure_freeChain {spots : Chain V} (hrounds : spots.length ≤ rounds)
    (own : heap.entries = segment spots none + rest) :
    (freeChain (V := V) rounds (front spots none)).Sure memory
      (fun _ heap' => heap'.entries = rest) heap := by
  induction spots generalizing heap rounds with
  | nil =>
      have done : heap.entries = rest := own.trans (zero_add _)
      cases rounds <;> exact done
  | cons s spots ih =>
      obtain ⟨rounds, rfl⟩ : ∃ r, rounds = r + 1 := ⟨rounds - 1, by simp at hrounds; omega⟩
      have hnode := (mem_spot (own ▸ Multiset.le_add_right _ _)).1
      refine (Prog.sure_bind _ _).mpr (Heap.sure_load hnode rfl ?_)
      have own₀ : heap.entries = s.cells (front spots none) + (segment spots none + rest) :=
        own.trans (add_assoc _ _ _)
      refine (Prog.sure_bind _ _).mpr (sure_freeNode own₀ fun heap₁ own₁ => ?_)
      exact ih (Nat.le_of_succ_le_succ hrounds) own₁

/-- A node of a chain leaves it. -/
theorem sure_relink {s : Spot V} {before after : Chain V} {index : Nat}
    (hi : L.chains[index]? = some (before ++ s :: after))
    (own : heap.entries = L.cells locked + rest) :
    (relink L.addr index (before.getLast?.map Spot.node) (front after none)).Sure memory
      (fun _ heap' => heap'.entries = s.cells (front after none) +
        ((L.setChain index (before ++ after) L.size).cells locked + rest)) heap := by
  obtain ⟨others, hspread, hset⟩ := exists_others hi
  have cells' : (L.setChain index (before ++ after) L.size).cells locked =
      cell L.addr (.map ⟨L.buckets, L.chains.length, L.size, locked⟩) +
        (cell L.buckets (.buckets ((heads L.chains).set index (front (before ++ after) none))) +
          (segment (before ++ after) none + others)) := by
    rw [Layout.cells, L.length_setChain, ← heads_set, ← hset]
    rfl
  rw [cells']
  obtain rfl | ⟨before, p, rfl⟩ := List.eq_nil_or_concat' before
  · -- the first node: its bucket gets the next one
    have own₀ : heap.entries = cell L.buckets (.buckets (heads L.chains)) +
        (cell L.addr (.map ⟨L.buckets, L.chains.length, L.size, locked⟩) +
          (s.cells (front after none) + segment after none + others + rest)) := by
      rw [own, Layout.cells, hspread, List.nil_append, segment]
      abel
    refine (Prog.sure_bind _ _).mpr (Heap.sure_load (mem_map own) rfl ?_)
    refine sure_setBucket own₀ (lt_of_get hi) fun heap₁ own₁ => ?_
    rw [own₁, List.nil_append]
    abel
  · -- a later one: the node before it gets the next one
    have own₀ : heap.entries = cell p.node (.node ⟨p.key, p.value, some s.node⟩) +
        (cell p.key (.text p.entry.key) + cell p.value (.value p.entry.value) +
          (cell L.addr (.map ⟨L.buckets, L.chains.length, L.size, locked⟩) +
            (cell L.buckets (.buckets (heads L.chains)) + (segment before (some p.node) +
              (s.cells (front after none) + segment after none + others) + rest)))) := by
      rw [own, Layout.cells, hspread, List.append_assoc, segment_append, List.singleton_append]
      simp only [segment, front, Spot.cells]
      abel
    have mem : ⟨p.node, .node ⟨p.key, p.value, some s.node⟩⟩ ∈ heap.entries := by simp [own₀]
    have same : (heads L.chains).set index (front (before ++ [p] ++ after) none) =
        heads L.chains := by
      refine heads_set_front hi ?_
      rw [List.append_assoc, List.append_assoc, front_append, front_append _ ([p] ++ s :: after)]
      rfl
    rw [List.getLast?_concat, same]
    refine (Prog.sure_bind _ _).mpr (Heap.sure_load mem rfl ?_)
    refine Heap.sure_store own₀ fun heap₁ own₁ => ?_
    rw [own₁, List.append_assoc, segment_append, List.singleton_append]
    simp only [segment, front, Spot.cells]
    abel

/-- The loop, when it has passed the nodes `before`. -/
theorem sure_removeFrom {index : Nat} {before spots : Chain V} (hrounds : spots.length ≤ rounds)
    (hi : L.chains[index]? = some (before ++ spots)) (own : heap.entries = L.cells locked + rest) :
    (removeFrom L.addr index key rounds (before.getLast?.map Spot.node) (front spots none)).Sure
      memory (fun _ heap' =>
        heap'.entries = (L.remove key index before spots).cells locked + rest) heap := by
  induction spots generalizing before rounds with
  | nil => cases rounds <;> exact own
  | cons s spots ih =>
      obtain ⟨rounds, rfl⟩ : ∃ r, rounds = r + 1 := ⟨rounds - 1, by simp at hrounds; omega⟩
      have here := L.segment_le own hi
      rw [segment_append] at here
      obtain ⟨hnode, hkey, -⟩ := mem_spot (le_trans (Multiset.le_add_left _ _) here)
      refine (Prog.sure_bind _ _).mpr (Heap.sure_load hnode rfl ?_)
      refine (Prog.sure_bind _ _).mpr (Heap.sure_load hkey rfl ?_)
      by_cases same : s.entry.key = key
      · rw [if_pos same]
        let left := L.setChain index (before ++ spots) L.size
        refine (sure_relink hi own).bind fun _ heap₁ own₁ => ?_
        refine (Prog.sure_bind _ _).mpr (sure_freeNode own₁ fun heap₂ own₂ => ?_)
        refine (Prog.sure_bind _ _).mpr (Heap.sure_load (mem_map (L := left) own₂) rfl ?_)
        refine Heap.sure_store (own₂.trans (add_assoc _ _ _)) fun heap₃ own₃ => ?_
        have removed : L.remove key index before (s :: spots) =
            L.setChain index (before ++ spots) (L.size - 1) := by
          rw [Layout.remove, if_pos (by simp [same]), List.eraseP_cons_of_pos (by simpa using same)]
        rw [own₃, removed]
        exact (add_assoc _ _ _).symm
      · rw [if_neg same]
        have passed : L.remove key index before (s :: spots) =
            L.remove key index (before ++ [s]) spots := by
          rw [Layout.remove, Layout.remove, List.any_cons, List.eraseP_cons_of_neg (by simpa using same),
            List.append_assoc]
          simp [same]
        have prev : (before ++ [s]).getLast?.map Spot.node = some s.node := by
          rw [List.getLast?_concat]
          rfl
        rw [passed, ← prev]
        exact ih (Nat.le_of_succ_le_succ hrounds) (by rw [hi, List.append_assoc]; rfl)

theorem sure_hashmapRemove (fits : L.Fits rounds) (own : heap.entries = L.cells false + rest) :
    (hashmapRemove rounds L.addr key).Sure memory (fun _ heap' => ∃ L' : Layout V,
      L'.addr = L.addr ∧ L'.contents = L.contents.remove key ∧
        heap'.entries = L'.cells false + rest) heap := by
  obtain ⟨chain, hi, hchain⟩ := L.chain_get fits.positive key
  refine (Prog.sure_bind _ _).mpr (sure_lock own fun heap₁ own₁ => ?_)
  refine (Prog.sure_bind _ _).mpr (Heap.sure_load (mem_map own₁) rfl ?_)
  refine (Prog.sure_bind _ _).mpr (sure_bucket (mem_buckets own₁) (heads_get hi) ?_)
  have all : L.chains[hash key L.chains.length]? = some ([] ++ chain) := hi
  refine (sure_removeFrom (fits.short chain (List.mem_of_getElem? hi)) all own₁).bind
    fun _ heap₂ own₂ => ?_
  have addr : (L.remove key (hash key L.chains.length) [] chain).addr = L.addr := by
    unfold Layout.remove
    split <;> rfl
  rw [← addr]
  exact sure_unlock own₂ fun heap₃ own₃ => ⟨_, rfl, Layout.contents_remove hi hchain, own₃⟩

/-- Every block of the map is freed, and nothing else. -/
theorem sure_hashmapFree (fits : L.Fits rounds) (own : heap.entries = L.cells false + rest) :
    (hashmapFree rounds L.addr).Sure memory (fun _ heap' => heap'.entries = rest) heap := by
  refine (Prog.sure_bind _ _).mpr (sure_lock own fun heap₁ own₁ => ?_)
  refine (Prog.sure_bind _ _).mpr (Heap.sure_load (mem_map own₁) rfl ?_)
  let I (i : Nat) (heap : State (Block V)) : Prop := heap.entries =
    cell L.buckets (.buckets (heads L.chains)) + (spread (L.chains.drop i) +
      (cell L.addr (.map ⟨L.buckets, L.chains.length, L.size, true⟩) + rest))
  have start : I 0 heap₁ := by
    show heap₁.entries = _ + (spread L.chains + _)
    rw [own₁, Layout.cells]
    abel
  have step : ∀ i heap, i < L.chains.length → I i heap →
      (bucket L.buckets i >>= freeChain rounds).Sure memory (fun _ heap' => I (i + 1) heap') heap := by
    intro i heap hi own
    have old : ⟨L.buckets, .buckets (heads L.chains)⟩ ∈ heap.entries := by
      rw [own]
      exact Multiset.mem_add.mpr (.inl (Multiset.mem_singleton_self _))
    refine (Prog.sure_bind _ _).mpr
      (sure_bucket old (heads_get (List.getElem?_eq_getElem hi)) ?_)
    refine (sure_freeChain (fits.short _ (List.getElem_mem hi)) ?_).mono fun _ heap' own' => own'
    rw [own, List.drop_eq_getElem_cons hi]
    show _ + (segment L.chains[i] none + spread (L.chains.drop (i + 1)) + _) = _
    abel
  refine (Prog.sure_bind _ _).mpr
    ((Prog.sure_countUp step (Nat.zero_add _) start).mono fun _ heap₂ own₂ => ?_)
  refine (Prog.sure_bind _ _).mpr (Heap.sure_free own₂ fun heap₃ own₃ => ?_)
  have own₃' : heap₃.entries = cell L.addr (.map ⟨L.buckets, L.chains.length, L.size, true⟩) +
      rest := by
    rw [own₃, List.drop_length]
    exact zero_add _
  refine (Prog.sure_bind _ _).mpr (sure_unlock_map own₃' rfl fun heap₄ own₄ => ?_)
  have mem : ⟨L.addr, .map ⟨L.buckets, L.chains.length, L.size, false⟩⟩ ∈ heap₄.entries := by
    simp [own₄]
  refine (Prog.sure_bind _ _).mpr ((Prog.sure_bind _ _).mpr (Heap.sure_load mem rfl ?_))
  exact Heap.sure_free own₄ fun heap₅ own₅ => own₅

end Rules

end SimpleProxy.HeapMap
