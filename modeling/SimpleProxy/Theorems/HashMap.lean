import SimpleProxy.Core.HashMap
import SimpleProxy.Lib.KeyValue

/-!
# The hash map is a map

Sequences of calls on a map from `hashmap_create`: what they return is what an
abstract finite map returns, and the five conditions that tie the buckets, the
size and the capacity together hold after every one of them.
-/

namespace SimpleProxy.Theorems.HashMap

open CString KeyValue

variable {V : Type}

/-- One call. A value is the bytes that were copied into the node. -/
def call (map : HashMap V) : Op Bytes V → HashMap V × Reply V
  | .add key value => (map.add key value, .done)
  | .remove key => (map.remove key, .done)
  | .contains key => (map, .present (map.contains key))
  | .get key => (map, .value (map.get key))

/-- The map after some calls. -/
abbrev called (ops : List (Op Bytes V)) : HashMap V := after call .create ops

variable {map : HashMap V}

theorem call_wf (wf : map.Wf) (op : Op Bytes V) : (call map op).1.Wf := by
  cases op with
  | add key value =>
      show (map.add key value).Wf
      cases present : map.get key with
      | none => exact (wf.add present value).1
      | some old => rw [wf.add_present present]; exact wf
  | remove key => exact (wf.remove key).1
  | contains key => exact wf
  | get key => exact wf

/-- One call changes what is found under a key as it should. -/
theorem get_call (wf : map.Wf) (op : Op Bytes V) (key : Bytes) :
    (call map op).1.get key = op.effect key (map.get key) := by
  cases op with
  | add k value =>
      show (map.add k value).get key = if k = key then (map.get key).or (some value) else map.get key
      cases present : map.get k with
      | none =>
          rw [(wf.add present value).2 key]
          by_cases hk : k = key
          · subst hk
            rw [if_pos rfl, if_pos rfl, present]
            rfl
          · rw [if_neg hk, if_neg (Ne.symm hk)]
      | some old =>
          rw [wf.add_present present]
          by_cases hk : k = key
          · subst hk
            rw [if_pos rfl, present]
            rfl
          · rw [if_neg hk]
  | remove k =>
      show (map.remove k).get key = if k = key then none else map.get key
      rw [(wf.remove k).2 key]
      by_cases hk : k = key
      · rw [if_pos hk, if_pos hk.symm]
      · rw [if_neg hk, if_neg (Ne.symm hk)]
  | contains k => rfl
  | get k => rfl

theorem contains_eq (wf : map.Wf) (key : Bytes) : map.contains key = (map.get key).isSome := by
  rw [Bool.eq_iff_iff, wf.contains_iff, Option.isSome_iff_exists]

/-- A hash map in order, and the abstract map with the same keys and values. -/
def Represents (map : HashMap V) (spec : Spec Bytes V) : Prop :=
  map.Wf ∧ ∀ key, map.get key = spec.lookup key

theorem Represents.call {spec : Spec Bytes V} (h : Represents map spec) (op : Op Bytes V) :
    Represents (call map op).1 (spec.step op).1 := by
  refine ⟨call_wf h.1 op, fun key => ?_⟩
  rw [get_call h.1, h.2, Spec.lookup_step]

theorem Represents.reply {spec : Spec Bytes V} (h : Represents map spec) (op : Op Bytes V) :
    (HashMap.call map op).2 = (spec.step op).2 := by
  cases op with
  | add key value => rfl
  | remove key => rfl
  | contains key =>
      show Reply.present (map.contains key) = .present (decide (key ∈ spec))
      rw [contains_eq h.1, h.2]
      refine congrArg Reply.present (Bool.eq_iff_iff.mpr ?_)
      rw [Finmap.lookup_isSome, decide_eq_true_iff]
  | get key => exact congrArg Reply.value (h.2 key)

/-- **Refinement.** Every sequence of calls returns what it returns on the abstract
map. Afterwards `get` finds the value of the `add` that introduced the key after
its last removal, and `contains` is true exactly when `get` finds something. -/
theorem refines (ops : List (Op Bytes V)) :
    KeyValue.replies call .create ops = KeyValue.replies Spec.step ∅ ops ∧
      ∀ key, (called ops).get key = introduced key ops ∧
        (called ops).contains key = ((called ops).get key).isSome := by
  have empty : Represents (V := V) .create ∅ :=
    ⟨HashMap.create_wf, HashMap.get_create⟩
  have wf : (called ops).Wf :=
    after_induct (I := HashMap.Wf) (fun _ op wf => call_wf wf op) HashMap.create_wf ops
  refine ⟨replies_eq (fun _ _ op h => h.reply op) (fun _ _ op h => h.call op) empty ops,
    fun key => ⟨?_, contains_eq wf key⟩⟩
  exact view_after (I := HashMap.Wf) (f := fun map : HashMap V => map.get key)
    (fun _ op wf => call_wf wf op) (fun _ op wf => get_call wf op key)
    HashMap.create_wf (HashMap.get_create key) ops

theorem call_sized (wf : map.Wf) (sized : map.Sized) (op : Op Bytes V) : (call map op).1.Sized := by
  cases op with
  | add key value => exact sized.add wf key value
  | remove key => exact sized.remove key
  | contains key => exact sized
  | get key => exact sized

/-- **Structure.** After every sequence of calls each node is in its bucket, no key
occurs twice, `size` counts the nodes, the capacity is 8 doubled some times, and
the load is at most 3/4; and a rehash would leave the same nodes. -/
theorem structure_kept (ops : List (Op Bytes V)) :
    (called ops).Wf ∧ (called ops).Sized ∧ (called ops).rehash.nodes.Perm (called ops).nodes := by
  have kept : (called ops).Wf ∧ (called ops).Sized :=
    after_induct (I := fun map : HashMap V => map.Wf ∧ map.Sized)
      (fun _ op h => ⟨call_wf h.1 op, call_sized h.1 h.2 op⟩)
      ⟨HashMap.create_wf, HashMap.create_sized⟩ ops
  exact ⟨kept.1, kept.2, kept.1.rehash.2⟩

end SimpleProxy.Theorems.HashMap
