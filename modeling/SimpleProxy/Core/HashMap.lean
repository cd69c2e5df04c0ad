import SimpleProxy.Lib.CString
import Mathlib.Data.List.Nodup

/-!
# The hash map

Chained buckets with a doubling rehash, as in `hashmap.c`. A value is whatever
was copied into the node; an allocation failure ends the process, so no
operation has a failure case. `Wf` is the invariant of the operations, and
`get_create`, `Wf.add`, `Wf.add_present` and `Wf.remove` say that under it the
map is the abstract map in which adding a present key changes nothing. `Sized`
adds what the growth of the map keeps.
-/

namespace SimpleProxy

open CString

structure Node (V : Type) where
  key : Bytes
  value : V

structure HashMap (V : Type) where
  buckets : List (List (Node V))
  capacity : Nat
  size : Nat

def initialCapacity : Nat := 8

/-- `size_t` is 64 bits wide. -/
def hash (key : Bytes) (capacity : Nat) : Nat :=
  key.foldl (fun h c => (h * 31 + c.toNat) % 2 ^ 64) 0 % capacity

namespace HashMap

variable {V : Type}

def create : HashMap V where
  buckets := List.replicate initialCapacity []
  capacity := initialCapacity
  size := 0

/-- The chain a key belongs to. -/
def chain (map : HashMap V) (key : Bytes) : List (Node V) :=
  (map.buckets[hash key map.capacity]?).getD []

def contains (map : HashMap V) (key : Bytes) : Bool :=
  (map.chain key).any fun node => node.key = key

def get (map : HashMap V) (key : Bytes) : Option V :=
  ((map.chain key).find? fun node => node.key = key).map Node.value

/-- Put a node in front of its chain. -/
def push (map : HashMap V) (node : Node V) : HashMap V :=
  { map with
    buckets := map.buckets.modify (hash node.key map.capacity) (node :: ·)
    size := map.size + 1 }

/-- Move the nodes, bucket by bucket, to twice as many buckets. -/
def rehash (map : HashMap V) : HashMap V :=
  map.buckets.flatten.foldl push
    { buckets := List.replicate (map.capacity * 2) [], capacity := map.capacity * 2, size := 0 }

/-- A present key is left alone. The map grows when the load would exceed 3/4; the
capacity is a power of two, so the quotient of doubles in the code is exact. -/
def add (map : HashMap V) (key : Bytes) (value : V) : HashMap V :=
  if map.contains key then map
  else if 3 * map.capacity < 4 * (map.size + 1) then map.rehash.push ⟨key, value⟩
  else map.push ⟨key, value⟩

def remove (map : HashMap V) (key : Bytes) : HashMap V :=
  if map.contains key then
    { map with
      buckets := map.buckets.modify (hash key map.capacity) (·.eraseP fun node => node.key = key)
      size := map.size - 1 }
  else map

/-! ## The invariant -/

/-- All nodes, bucket by bucket. -/
def nodes (map : HashMap V) : List (Node V) := map.buckets.flatten

/-- Every node is in its bucket, and no key occurs twice. -/
structure Wf (map : HashMap V) : Prop where
  length : map.buckets.length = map.capacity
  positive : 0 < map.capacity
  placed : ∀ (i : Nat) (chain : List (Node V)), map.buckets[i]? = some chain →
    ∀ node ∈ chain, hash node.key map.capacity = i
  distinct : (map.nodes.map Node.key).Nodup
  counted : map.size = map.nodes.length

theorem hash_lt {capacity : Nat} (h : 0 < capacity) (key : Bytes) : hash key capacity < capacity :=
  Nat.mod_lt _ h

variable {map : HashMap V} {key : Bytes} {value : V}

theorem Wf.hash_lt_length (wf : map.Wf) (key : Bytes) :
    hash key map.capacity < map.buckets.length :=
  wf.length ▸ hash_lt wf.positive key

theorem Wf.chain_eq (wf : map.Wf) (key : Bytes) :
    map.buckets[hash key map.capacity]? = some (map.chain key) := by
  rw [chain, List.getElem?_eq_getElem (wf.hash_lt_length key)]
  rfl

/-- The nodes of a key are all in its chain. -/
theorem Wf.mem_chain (wf : map.Wf) {node : Node V} :
    node ∈ map.chain node.key ↔ node ∈ map.nodes := by
  constructor
  · intro h
    exact List.mem_flatten.mpr ⟨_, List.mem_of_getElem? (wf.chain_eq node.key), h⟩
  · intro h
    obtain ⟨chain, hchain, hnode⟩ := List.mem_flatten.mp h
    obtain ⟨i, hi⟩ := List.mem_iff_getElem?.mp hchain
    obtain rfl := wf.placed i chain hi node hnode
    rw [wf.chain_eq] at hi
    exact Option.some.inj hi ▸ hnode

theorem Wf.eq_of_key_eq (wf : map.Wf) {a b : Node V} (ha : a ∈ map.nodes) (hb : b ∈ map.nodes)
    (h : a.key = b.key) : a = b :=
  List.inj_on_of_nodup_map wf.distinct ha hb h

/-- `get` finds exactly the nodes of the map. -/
theorem Wf.get_eq_some (wf : map.Wf) : map.get key = some value ↔ ⟨key, value⟩ ∈ map.nodes := by
  rw [get, Option.map_eq_some_iff]
  constructor
  · rintro ⟨node, hfound, rfl⟩
    obtain rfl : node.key = key := by simpa using List.find?_some hfound
    exact wf.mem_chain.mp (List.mem_of_find?_eq_some hfound)
  · intro h
    have hchain := wf.mem_chain.mpr h
    obtain ⟨node, hfound⟩ := Option.isSome_iff_exists.mp
      (List.find?_isSome.mpr ⟨_, hchain, by simp⟩ :
        ((map.chain key).find? fun node => node.key = key).isSome)
    have hkey : node.key = key := by simpa using List.find?_some hfound
    subst hkey
    have hnode := wf.mem_chain.mp (List.mem_of_find?_eq_some hfound)
    exact ⟨node, hfound, by rw [wf.eq_of_key_eq hnode h rfl]⟩

theorem Wf.contains_iff (wf : map.Wf) :
    map.contains key = true ↔ ∃ value, map.get key = some value := by
  rw [contains, List.any_eq_true]
  constructor
  · rintro ⟨node, hnode, hkey⟩
    obtain rfl : node.key = key := by simpa using hkey
    exact ⟨node.value, wf.get_eq_some.mpr (wf.mem_chain.mp hnode)⟩
  · rintro ⟨value, h⟩
    exact ⟨_, wf.mem_chain.mpr (wf.get_eq_some.mp h), by simp⟩

/-- Two maps with the same nodes answer alike. -/
theorem Wf.get_congr {map' : HashMap V} (wf : map.Wf) (wf' : map'.Wf)
    (same : map'.nodes.Perm map.nodes)
    (key : Bytes) : map'.get key = map.get key := by
  refine Option.ext fun value => ?_
  rw [wf.get_eq_some, wf'.get_eq_some, same.mem_iff]

/-! ## The operations -/

theorem wf_empty {capacity : Nat} (h : 0 < capacity) :
    Wf (⟨List.replicate capacity [], capacity, 0⟩ : HashMap V) where
  length := List.length_replicate
  positive := h
  placed i chain hi node hnode := by
    rw [List.getElem?_replicate] at hi
    split at hi
    · cases hi
      cases hnode
    · cases hi
  distinct := by simp [nodes]
  counted := by simp [nodes]

theorem nodes_empty {capacity : Nat} :
    (⟨List.replicate capacity [], capacity, 0⟩ : HashMap V).nodes = [] := by
  simp [nodes]

/-- The buckets around the chain of a key. -/
theorem Wf.split (wf : map.Wf) (key : Bytes) (f : List (Node V) → List (Node V)) :
    ∃ l₁ l₂, map.buckets = l₁ ++ map.chain key :: l₂ ∧
      map.buckets.modify (hash key map.capacity) f = l₁ ++ f (map.chain key) :: l₂ := by
  obtain ⟨l₁, chain, l₂, hsplit, hlen, hmodify⟩ := List.exists_of_modify f (wf.hash_lt_length key)
  have hchain := wf.chain_eq key
  rw [hsplit, ← hlen, List.getElem?_append_right (Nat.le_refl _), Nat.sub_self] at hchain
  obtain rfl : chain = map.chain key := Option.some.inj hchain
  exact ⟨l₁, l₂, hsplit, hmodify⟩

/-- Changing one chain keeps every node of the others in its place. -/
theorem Wf.placed_modify (wf : map.Wf) {key : Bytes} {f : List (Node V) → List (Node V)}
    (hf : ∀ node ∈ f (map.chain key), node ∈ map.chain key ∨ node.key = key) (i : Nat)
    (chain : List (Node V)) (hi : (map.buckets.modify (hash key map.capacity) f)[i]? = some chain)
    (node : Node V) (hnode : node ∈ chain) : hash node.key map.capacity = i := by
  by_cases h : hash key map.capacity = i
  · subst h
    rw [List.getElem?_modify_eq, wf.chain_eq] at hi
    cases hi
    obtain hold | rfl := hf node hnode
    · exact wf.placed _ _ (wf.chain_eq key) node hold
    · rfl
  · rw [List.getElem?_modify_ne _ _ h] at hi
    exact wf.placed i chain hi node hnode

theorem Wf.nodes_push (wf : map.Wf) (node : Node V) :
    (map.push node).nodes.Perm (node :: map.nodes) := by
  obtain ⟨l₁, l₂, hsplit, hmodify⟩ := wf.split node.key (node :: ·)
  simp only [nodes, push, hmodify]
  rw [hsplit]
  simp only [List.flatten_append, List.flatten_cons, List.cons_append]
  exact List.perm_middle

theorem Wf.push (wf : map.Wf) {node : Node V} (fresh : ∀ n ∈ map.nodes, n.key ≠ node.key) :
    (map.push node).Wf where
  length := by rw [HashMap.push, List.length_modify, wf.length]
  positive := wf.positive
  placed := wf.placed_modify fun n hn => by
    obtain rfl | hn := List.mem_cons.mp hn
    · exact .inr rfl
    · exact .inl hn
  distinct := by
    rw [((wf.nodes_push node).map Node.key).nodup_iff, List.map_cons, List.nodup_cons]
    refine ⟨fun h => ?_, wf.distinct⟩
    obtain ⟨n, hn, hkey⟩ := List.mem_map.mp h
    exact fresh n hn hkey
  counted := by
    rw [(wf.nodes_push node).length_eq, List.length_cons, ← wf.counted]
    rfl

/-- Pushing one node after the other. -/
theorem Wf.foldl_push (wf : map.Wf) (ns : List (Node V))
    (distinct : (ns.map Node.key ++ map.nodes.map Node.key).Nodup) :
    (ns.foldl HashMap.push map).Wf ∧ (ns.foldl HashMap.push map).nodes.Perm (ns ++ map.nodes) := by
  induction ns generalizing map with
  | nil => exact ⟨wf, List.Perm.refl _⟩
  | cons node ns ih =>
      rw [List.map_cons, List.cons_append, List.nodup_cons] at distinct
      obtain ⟨hnew, distinct⟩ := distinct
      have fresh : ∀ n ∈ map.nodes, n.key ≠ node.key := fun n hn hkey =>
        hnew (List.mem_append_right _ (hkey ▸ List.mem_map_of_mem hn))
      have perm := wf.nodes_push node
      have distinct' : (ns.map Node.key ++ (map.push node).nodes.map Node.key).Nodup := by
        rw [((perm.map Node.key).append_left _).nodup_iff, List.map_cons,
          List.perm_middle.nodup_iff, List.nodup_cons]
        exact ⟨hnew, distinct⟩
      obtain ⟨wf', perm'⟩ := ih (wf.push fresh) distinct'
      refine ⟨wf', perm'.trans ?_⟩
      exact ((perm.append_left ns).trans List.perm_middle)

/-- A rehash moves the nodes and changes nothing else. -/
theorem Wf.rehash (wf : map.Wf) : map.rehash.Wf ∧ map.rehash.nodes.Perm map.nodes := by
  have empty := wf_empty (V := V) (Nat.mul_pos wf.positive (by decide : 0 < 2))
  have moved := empty.foldl_push map.nodes (by rw [nodes_empty]; simpa using wf.distinct)
  rwa [nodes_empty, List.append_nil] at moved

theorem create_wf : (create : HashMap V).Wf := wf_empty (by decide)

theorem get_create (key : Bytes) : (create : HashMap V).get key = none := by
  refine Option.eq_none_iff_forall_ne_some.mpr fun value h => ?_
  have := create_wf.get_eq_some.mp h
  rw [create, nodes_empty] at this
  cases this

/-- A new node is found under its key, the others as before. -/
theorem Wf.get_push (wf : map.Wf) (fresh : ∀ n ∈ map.nodes, n.key ≠ key) (k : Bytes) :
    (map.push ⟨key, value⟩).get k = if k = key then some value else map.get k := by
  have wf' : (map.push ⟨key, value⟩).Wf := wf.push fresh
  have perm := wf.nodes_push ⟨key, value⟩
  refine Option.ext fun v => ?_
  rw [wf'.get_eq_some, perm.mem_iff, List.mem_cons]
  by_cases hk : k = key
  · subst hk
    rw [if_pos rfl]
    constructor
    · rintro (h | h)
      · cases h
        rfl
      · exact absurd rfl (fresh _ h)
    · rintro ⟨⟩
      exact .inl rfl
  · rw [if_neg hk, wf.get_eq_some]
    exact or_iff_right fun h => hk (by cases h; rfl)

theorem Wf.fresh_of_get (wf : map.Wf) (h : map.get key = none) : ∀ n ∈ map.nodes, n.key ≠ key := by
  rintro n hn rfl
  rw [wf.get_eq_some.mpr hn] at h
  cases h

/-- `hashmap_add` of an absent key. -/
theorem Wf.add (wf : map.Wf) (absent : map.get key = none) (value : V) :
    (map.add key value).Wf ∧
      ∀ k, (map.add key value).get k = if k = key then some value else map.get k := by
  have hcontains : map.contains key = false := by
    rw [Bool.eq_false_iff, ne_eq, wf.contains_iff]
    simp [absent]
  have fresh := wf.fresh_of_get absent
  rw [HashMap.add, hcontains, if_neg Bool.false_ne_true]
  split
  · obtain ⟨wf', perm⟩ := wf.rehash
    have fresh' : ∀ n ∈ map.rehash.nodes, n.key ≠ key := fun n hn => fresh n (perm.mem_iff.mp hn)
    refine ⟨wf'.push fresh', fun k => ?_⟩
    rw [wf'.get_push fresh', wf.get_congr wf' perm]
  · exact ⟨wf.push fresh, wf.get_push fresh⟩

/-- `hashmap_add` of a present key. -/
theorem Wf.add_present (wf : map.Wf) {old : V} (present : map.get key = some old) (value : V) :
    map.add key value = map := by
  rw [HashMap.add, if_pos (wf.contains_iff.mpr ⟨old, present⟩)]

/-- The chain of a present key loses one node, with this key. -/
theorem Wf.nodes_remove (wf : map.Wf) (present : map.contains key = true) :
    ∃ node, node.key = key ∧ map.nodes.Perm (node :: (map.remove key).nodes) := by
  obtain ⟨l₁, l₂, hsplit, hmodify⟩ := wf.split key (·.eraseP fun node => node.key = key)
  obtain ⟨found, hfound, hkey⟩ := List.any_eq_true.mp present
  obtain ⟨node, before, after, -, hnode, hchain, herase⟩ :=
    @List.exists_of_eraseP _ (fun node : Node V => decide (node.key = key)) _ found hfound hkey
  refine ⟨node, by simpa using hnode, ?_⟩
  rw [HashMap.remove, if_pos present]
  simp only [nodes, hmodify, herase]
  rw [hsplit, hchain]
  simp only [List.flatten_append, List.flatten_cons, List.append_assoc, List.cons_append]
  exact (List.perm_middle.append_left _).trans List.perm_middle

/-- `hashmap_remove`. -/
theorem Wf.remove (wf : map.Wf) (key : Bytes) :
    (map.remove key).Wf ∧ ∀ k, (map.remove key).get k = if k = key then none else map.get k := by
  cases present : map.contains key with
  | false =>
      have same : map.remove key = map := by rw [HashMap.remove, present, if_neg Bool.false_ne_true]
      rw [same]
      refine ⟨wf, fun k => ?_⟩
      split
      · rename_i hk
        subst hk
        refine Option.eq_none_iff_forall_ne_some.mpr fun v h => ?_
        rw [wf.contains_iff.mpr ⟨v, h⟩] at present
        cases present
      · rfl
  | true =>
      obtain ⟨node, rfl, perm⟩ := wf.nodes_remove present
      have distinct := (perm.map Node.key).nodup_iff.mp wf.distinct
      rw [List.map_cons, List.nodup_cons] at distinct
      have counted : (map.remove node.key).size = (map.remove node.key).nodes.length := by
        have hsize : (map.remove node.key).size = map.size - 1 := by
          rw [HashMap.remove, if_pos present]
        rw [hsize, wf.counted, perm.length_eq, List.length_cons, Nat.add_sub_cancel]
      have wf' : (map.remove node.key).Wf := by
        refine ⟨?_, ?_, ?_, distinct.2, counted⟩ <;> rw [HashMap.remove, if_pos present]
        · rw [List.length_modify, wf.length]
        · exact wf.positive
        · exact wf.placed_modify fun n hn => .inl (List.mem_of_mem_eraseP hn)
      refine ⟨wf', fun k => Option.ext fun v => ?_⟩
      rw [wf'.get_eq_some]
      by_cases hk : k = node.key
      · subst hk
        rw [if_pos rfl]
        exact ⟨fun h => absurd (List.mem_map_of_mem h) distinct.1, fun h => by cases h⟩
      · rw [if_neg hk, wf.get_eq_some, perm.mem_iff, List.mem_cons]
        exact (or_iff_right fun h => hk (by rw [← h])).symm

/-! ## Growth -/

/-- The capacity was doubled from the initial one, and the load is at most 3/4. -/
structure Sized (map : HashMap V) : Prop where
  doubled : ∃ k, map.capacity = initialCapacity * 2 ^ k
  load : 4 * map.size ≤ 3 * map.capacity

theorem create_sized : (create : HashMap V).Sized where
  doubled := ⟨0, rfl⟩
  load := by
    show 4 * 0 ≤ 3 * initialCapacity
    decide

theorem capacity_foldl_push (ns : List (Node V)) (map : HashMap V) :
    (ns.foldl HashMap.push map).capacity = map.capacity := by
  induction ns generalizing map with
  | nil => rfl
  | cons node ns ih => rw [List.foldl_cons, ih]; rfl

theorem capacity_rehash : map.rehash.capacity = map.capacity * 2 := capacity_foldl_push _ _

/-- A rehash moves all nodes, so it counts as many as before. -/
theorem Wf.size_rehash (wf : map.Wf) : map.rehash.size = map.size := by
  obtain ⟨wf', perm⟩ := wf.rehash
  rw [wf'.counted, perm.length_eq, wf.counted]

theorem Sized.positive (sized : map.Sized) : 8 ≤ map.capacity := by
  obtain ⟨k, hk⟩ := sized.doubled
  have := Nat.one_le_two_pow (n := k)
  unfold initialCapacity at hk
  omega

theorem Sized.rehash (sized : map.Sized) (wf : map.Wf) : map.rehash.Sized where
  doubled := by
    obtain ⟨k, hk⟩ := sized.doubled
    exact ⟨k + 1, by rw [capacity_rehash, hk, Nat.pow_succ, Nat.mul_assoc]⟩
  load := by
    have := sized.load
    rw [capacity_rehash, wf.size_rehash]
    omega

/-- One more node, within the load. -/
theorem Sized.push (sized : map.Sized) (node : Node V)
    (room : 4 * (map.size + 1) ≤ 3 * map.capacity) :
    (map.push node).Sized where
  doubled := sized.doubled
  load := room

theorem Sized.add (sized : map.Sized) (wf : map.Wf) (key : Bytes) (value : V) :
    (map.add key value).Sized := by
  unfold HashMap.add
  split
  · exact sized
  · split
    · have := sized.load
      have := sized.positive
      refine (sized.rehash wf).push _ ?_
      rw [capacity_rehash, wf.size_rehash]
      omega
    · rename_i room
      exact sized.push _ (Nat.not_lt.mp room)

theorem Sized.remove (sized : map.Sized) (key : Bytes) : (map.remove key).Sized := by
  unfold HashMap.remove
  split
  · have := sized.load
    refine ⟨sized.doubled, ?_⟩
    show 4 * (map.size - 1) ≤ 3 * map.capacity
    omega
  · exact sized

end HashMap

end SimpleProxy
