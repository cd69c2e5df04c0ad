import SimpleProxy.Core.HashMap
import SimpleProxy.Lib.Heap
import SimpleProxy.Lib.KeyValue

/-!
# The hash map in memory

The functions of `hashmap.c` over pointers: the map, its bucket array, the nodes of each
chain, and the key and the value of each node are blocks of their own. A block from
`malloc` is raw until it is written. An access to a block of another kind, an index outside
of the bucket array and a lock of a held mutex are faults, and a fault is `Prog.halt`; so is a
walk along a chain of more than `rounds` nodes. A failed allocation ends the process.
-/

namespace SimpleProxy.HeapMap

open Interact CString KeyValue
open Heap (Addr Got malloc load store free)

structure MapBlock where
  buckets : Addr
  capacity : Nat
  size : Nat
  locked : Bool
  deriving DecidableEq

structure NodeBlock where
  key : Addr
  value : Addr
  next : Option Addr
  deriving DecidableEq

inductive Block (V : Type)
  | raw
  | map (fields : MapBlock)
  | buckets (heads : List (Option Addr))
  | node (fields : NodeBlock)
  | text (bytes : Bytes)
  | value (v : V)
  deriving DecidableEq

variable {V α : Type}

/-- A program over the blocks of a hash map. -/
abbrev MemProg (V α : Type) := Prog (Got (Block V)) α

def loadMap : Addr → MemProg V MapBlock :=
  load fun
    | .map fields => some fields
    | _ => none

def loadBuckets : Addr → MemProg V (List (Option Addr)) :=
  load fun
    | .buckets heads => some heads
    | _ => none

def loadNode : Addr → MemProg V NodeBlock :=
  load fun
    | .node fields => some fields
    | _ => none

def loadText : Addr → MemProg V Bytes :=
  load fun
    | .text bytes => some bytes
    | _ => none

def loadValue : Addr → MemProg V V :=
  load fun
    | .value v => some v
    | _ => none

/-- `buckets[i]`. -/
def bucket (buckets : Addr) (i : Nat) : MemProg V (Option Addr) := do
  match (← loadBuckets buckets)[i]? with
  | some first => pure first
  | none => .halt

/-- `buckets[i] = first`. -/
def setBucket (buckets : Addr) (i : Nat) (first : Option Addr) : MemProg V Unit := do
  let heads ← loadBuckets buckets
  if i < heads.length then store buckets (.buckets (heads.set i first)) else .halt

def lock (map : Addr) : MemProg V Unit := do
  let m ← loadMap map
  if m.locked then .halt else store map (.map { m with locked := true })

def unlock (map : Addr) : MemProg V Unit := do
  let m ← loadMap map
  if m.locked then store map (.map { m with locked := false }) else .halt

/-- `pthread_mutex_destroy`, which a held mutex must not get. -/
def destroy (map : Addr) : MemProg V Unit := do
  let m ← loadMap map
  if m.locked then .halt else pure ()

def hashmapCreate : MemProg V Addr := do
  let map ← malloc .raw
  let buckets ← malloc (.buckets (List.replicate initialCapacity none))
  store map (.map ⟨buckets, initialCapacity, 0, false⟩)
  pure map

/-- The loop of `hashmap_contains` and `hashmap_get`: the first node with this key. -/
def search (key : Bytes) : Nat → Option Addr → MemProg V (Option NodeBlock)
  | _, none => pure none
  | 0, some _ => .halt
  | rounds + 1, some node => do
    let n ← loadNode node
    if (← loadText n.key) = key then pure (some n) else search key rounds n.next

def hashmapContains (rounds : Nat) (map : Addr) (key : Bytes) : MemProg V Bool := do
  let m ← loadMap map
  let first ← bucket m.buckets (hash key m.capacity)
  return (← search key rounds first).isSome

/-- The pointer to the value, which the caller reads after the mutex is released. -/
def hashmapGet (rounds : Nat) (map : Addr) (key : Bytes) : MemProg V (Option Addr) := do
  lock map
  let m ← loadMap map
  let first ← bucket m.buckets (hash key m.capacity)
  let found ← search key rounds first
  unlock map
  return found.map NodeBlock.value

/-- The inner loop of `hashmap_rehash`: put each node of a chain into its new bucket. -/
def moveChain (map : Addr) : Nat → Option Addr → MemProg V Unit
  | _, none => pure ()
  | 0, some _ => .halt
  | rounds + 1, some node => do
    let m ← loadMap map
    let n ← loadNode node
    let index := hash (← loadText n.key) m.capacity
    store node (.node { n with next := ← bucket m.buckets index })
    setBucket m.buckets index (some node)
    store map (.map { m with size := m.size + 1 })
    moveChain map rounds n.next

def hashmapRehash (rounds : Nat) (map : Addr) : MemProg V Unit := do
  let m ← loadMap map
  let new ← malloc (.buckets (List.replicate (m.capacity * 2) none))
  store map (.map { m with capacity := m.capacity * 2, buckets := new, size := 0 })
  Prog.countUp (fun i => do moveChain map rounds (← bucket m.buckets i)) 0 m.capacity
  free m.buckets

/-- The rest of `hashmap_add`, for a key that is not there and a map with room for it. -/
def insertNode (map : Addr) (key : Bytes) (value : V) : MemProg V Unit := do
  let m ← loadMap map
  let index := hash key m.capacity
  let node ← malloc .raw
  let copy ← malloc (.text key)
  let v ← malloc .raw
  store v (.value value)
  store node (.node ⟨copy, v, ← bucket m.buckets index⟩)
  setBucket m.buckets index (some node)
  store map (.map { m with size := m.size + 1 })
  unlock map

/-- The load factor is compared as in `HashMap.add`. -/
def hashmapAdd (rounds : Nat) (map : Addr) (key : Bytes) (value : V) : MemProg V Unit := do
  lock map
  if ← hashmapContains rounds map key then unlock map
  else
    let m ← loadMap map
    if 3 * m.capacity < 4 * (m.size + 1) then hashmapRehash rounds map
    insertNode map key value

/-- `free(node->key); free(node->value); free(node);`. -/
def freeNode (node : Addr) (n : NodeBlock) : MemProg V Unit := do
  free n.key
  free n.value
  free node

/-- `prev->next = next`, or `map->buckets[index] = next` at the front of the chain. -/
def relink (map : Addr) (index : Nat) (prev next : Option Addr) : MemProg V Unit :=
  match prev with
  | some prev => do
    let p ← loadNode prev
    store prev (.node { p with next := next })
  | none => do
    let m ← loadMap map
    setBucket m.buckets index next

/-- The loop of `hashmap_remove`, behind the node `prev`. -/
def removeFrom (map : Addr) (index : Nat) (key : Bytes) :
    Nat → Option Addr → Option Addr → MemProg V Unit
  | _, _, none => pure ()
  | 0, _, some _ => .halt
  | rounds + 1, prev, some node => do
    let n ← loadNode node
    if (← loadText n.key) = key then
      relink map index prev n.next
      freeNode node n
      let m ← loadMap map
      store map (.map { m with size := m.size - 1 })
    else removeFrom map index key rounds (some node) n.next

def hashmapRemove (rounds : Nat) (map : Addr) (key : Bytes) : MemProg V Unit := do
  lock map
  let m ← loadMap map
  let index := hash key m.capacity
  removeFrom map index key rounds none (← bucket m.buckets index)
  unlock map

/-- The inner loop of `hashmap_free`. -/
def freeChain : Nat → Option Addr → MemProg V Unit
  | _, none => pure ()
  | 0, some _ => .halt
  | rounds + 1, some node => do
    let n ← loadNode node
    freeNode node n
    freeChain rounds n.next

def hashmapFree (rounds : Nat) (map : Addr) : MemProg V Unit := do
  lock map
  let m ← loadMap map
  Prog.countUp (fun i => do freeChain rounds (← bucket m.buckets i)) 0 m.capacity
  free m.buckets
  unlock map
  destroy map
  free map

/-! ## A caller -/

/-- One call; the value that was found is read at once, as the callers do. -/
def call (rounds : Nat) (map : Addr) : Op Bytes V → MemProg V (Reply V)
  | .add key value => do
    hashmapAdd rounds map key value
    pure .done
  | .remove key => do
    hashmapRemove rounds map key
    pure .done
  | .contains key => return .present (← hashmapContains rounds map key)
  | .get key => do
    match ← hashmapGet rounds map key with
    | some value => return .value (some (← loadValue value))
    | none => pure (.value none)

def calls (rounds : Nat) (map : Addr) : List (Op Bytes V) → MemProg V (List (Reply V))
  | [] => pure []
  | op :: ops => do
    let reply ← call rounds map op
    return reply :: (← calls rounds map ops)

/-- A map from its creation to its end. -/
def lifetime (rounds : Nat) (ops : List (Op Bytes V)) : MemProg V (List (Reply V)) := do
  let map ← hashmapCreate
  let replies ← calls rounds map ops
  hashmapFree rounds map
  pure replies

end SimpleProxy.HeapMap
