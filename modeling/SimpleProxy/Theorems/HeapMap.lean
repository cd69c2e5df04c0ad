import SimpleProxy.Logic.HeapMap
import SimpleProxy.Theorems.HashMap

/-!
# The hash map in memory is a map and gives everything back

A map from `hashmap_create` to `hashmap_free`, on a heap with any other blocks in it. The
functions on buckets give the layout after each call; `size` bounds the chains, so enough
rounds for the number of calls are enough for every loop.
-/

namespace SimpleProxy.Theorems.HeapMap

open Interact CString KeyValue SimpleProxy.HeapMap
open Heap (memory State)

variable {V : Type} {L : Layout V} {rounds : Nat}

/-- No chain is longer than the number of nodes. -/
theorem fits_of_wf (wf : L.contents.Wf) (hrounds : L.contents.size ≤ rounds) : L.Fits rounds where
  positive := wf.positive
  short chain hchain := by
    have mem : chain.map Spot.entry ∈ L.contents.buckets := List.mem_map_of_mem hchain
    have sub : (chain.map Spot.entry).length ≤ L.contents.nodes.length :=
      (List.sublist_flatten_of_mem mem).length_le
    rw [List.length_map, ← wf.counted] at sub
    exact le_trans sub hrounds

/-- A call adds one node at most. -/
theorem size_call {map : HashMap V} (wf : map.Wf) (op : Op Bytes V) :
    (HashMap.call map op).1.size ≤ map.size + 1 := by
  cases op with
  | add key value =>
      show (map.add key value).size ≤ _
      unfold HashMap.add
      split
      · exact Nat.le_succ _
      · split
        · show map.rehash.size + 1 ≤ _
          rw [wf.size_rehash]
        · exact le_refl _
  | remove key =>
      show (map.remove key).size ≤ _
      unfold HashMap.remove
      split
      · show map.size - 1 ≤ map.size + 1
        omega
      · exact Nat.le_succ _
  | contains key => exact Nat.le_succ _
  | get key => exact Nat.le_succ _

variable [DecidableEq V] {heap : State (Block V)} {rest : Cells V}

/-- A call in memory does what it does on the buckets. -/
theorem sure_call (fits : L.Fits rounds) (own : heap.entries = L.cells false + rest)
    (op : Op Bytes V) :
    (call rounds L.addr op).Sure memory (fun reply heap' => ∃ L' : Layout V,
      L'.addr = L.addr ∧ L'.contents = (HashMap.call L.contents op).1 ∧
        reply = (HashMap.call L.contents op).2 ∧ heap'.entries = L'.cells false + rest) heap := by
  cases op with
  | add key value =>
      refine (sure_hashmapAdd fits own).bind ?_
      rintro _ heap₁ ⟨L', haddr, hcontents, own₁⟩
      exact ⟨L', haddr, hcontents, rfl, own₁⟩
  | remove key =>
      refine (sure_hashmapRemove fits own).bind ?_
      rintro _ heap₁ ⟨L', haddr, hcontents, own₁⟩
      exact ⟨L', haddr, hcontents, rfl, own₁⟩
  | contains key =>
      refine (sure_hashmapContains own fits).bind ?_
      rintro found heap₁ ⟨rfl, rfl⟩
      exact ⟨L, rfl, rfl, rfl, own⟩
  | get key =>
      refine (sure_hashmapGet own fits).bind ?_
      rintro found heap₁ ⟨own₁, hfound⟩
      cases found with
      | none => exact ⟨L, rfl, rfl, congrArg Reply.value hfound.symm, own₁⟩
      | some a =>
          obtain ⟨v, mem, hget⟩ := hfound
          refine (Prog.sure_bind _ _).mpr (Heap.sure_load mem rfl ?_)
          exact ⟨L, rfl, rfl, congrArg Reply.value hget.symm, own₁⟩

theorem sure_calls (ops : List (Op Bytes V)) (wf : L.contents.Wf)
    (hrounds : L.contents.size + ops.length ≤ rounds) (own : heap.entries = L.cells false + rest) :
    (calls rounds L.addr ops).Sure memory (fun replies heap' => ∃ L' : Layout V,
      L'.addr = L.addr ∧ L'.contents.Wf ∧ L'.contents.size ≤ rounds ∧
        replies = KeyValue.replies HashMap.call L.contents ops ∧
        heap'.entries = L'.cells false + rest) heap := by
  induction ops generalizing L heap with
  | nil => exact ⟨L, rfl, wf, hrounds, rfl, own⟩
  | cons op ops ih =>
      have fits : L.Fits rounds := fits_of_wf wf (le_trans (Nat.le_add_right _ _) hrounds)
      refine (sure_call fits own op).bind ?_
      rintro _ heap₁ ⟨L₁, haddr, hcontents, rfl, own₁⟩
      have wf₁ : L₁.contents.Wf := hcontents ▸ HashMap.call_wf wf op
      have hrounds₁ : L₁.contents.size + ops.length ≤ rounds := by
        have grown := size_call wf op
        rw [← hcontents] at grown
        rw [List.length_cons] at hrounds
        omega
      rw [← haddr]
      refine (ih wf₁ hrounds₁ own₁).bind ?_
      rintro _ heap₂ ⟨L₂, haddr₂, wf₂, hrounds₂, rfl, own₂⟩
      refine ⟨L₂, haddr₂, wf₂, hrounds₂, ?_, own₂⟩
      rw [KeyValue.replies, hcontents]

/-- **Memory safety.** From `hashmap_create` to `hashmap_free`, whatever calls are made
between and whatever else is in the heap: no access to a block that is not allocated, not
written or of another kind, no deadlock on the mutex, the replies of the abstract map, and in
the end the heap of the beginning. -/
theorem lifetime_exact (rounds : Nat) (ops : List (Op Bytes V)) (heap : State (Block V))
    (hrounds : ops.length ≤ rounds) :
    (lifetime rounds ops).Sure memory (fun replies heap' =>
      replies = KeyValue.replies Spec.step ∅ ops ∧ heap' = heap) heap := by
  refine (sure_hashmapCreate rfl).bind ?_
  rintro map heap₁ ⟨L, rfl, hcontents, own₁⟩
  have wf : L.contents.Wf := hcontents ▸ HashMap.create_wf
  have hsize : L.contents.size + ops.length ≤ rounds := by
    rw [hcontents]
    exact le_trans (Nat.zero_add _).le hrounds
  refine (sure_calls ops wf hsize own₁).bind ?_
  rintro _ heap₂ ⟨L', haddr, wf', hsize', rfl, own₂⟩
  rw [← haddr]
  refine (sure_hashmapFree (fits_of_wf wf' hsize') own₂).bind fun _ heap₃ own₃ => ?_
  refine ⟨?_, Finmap.ext own₃⟩
  have empty : HashMap.Represents (V := V) L.contents ∅ := by
    rw [hcontents]
    exact ⟨HashMap.create_wf, HashMap.get_create⟩
  exact replies_eq (fun _ _ op h => h.reply op) (fun _ _ op h => h.call op) empty ops

theorem lifetime_exact_short :
    [Op.add [97] true, .get [97], .remove [97]].length ≤ 3 ∧
      (lifetime 3 [.add [97] true, .get [97], .remove [97]]).Sure memory (fun replies heap' =>
        replies = KeyValue.replies Spec.step ∅ [.add [97] true, .get [97], .remove [97]] ∧
          heap' = ∅) ∅ :=
  ⟨by decide, lifetime_exact 3 [.add [97] true, .get [97], .remove [97]] ∅ (by decide)⟩

end SimpleProxy.Theorems.HeapMap
