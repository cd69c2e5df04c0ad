import SimpleProxy.Lib.CString

/-!
# Strings in memory

A block of memory is a list of cells, each empty until a byte is stored in it. A pointer
into a block is the suffix it points to, down to the empty one behind the last cell. What C
leaves undefined is a fault here: a load from no cell or from an empty one, a pointer or a
store outside of the block, a negative length. The string functions go byte by byte; on a
terminated string each finds what its namesake in `CString` finds, and reads no cell behind
the NUL.
-/

namespace Blocks

open CString

abbrev Cell := Option UInt8

abbrev Block := List Cell

inductive Fault
  | load
  | pointer
  | store
  | length
  deriving DecidableEq, Repr

abbrev Checked := Except Fault

/-- `*p`. -/
def load : Block → Checked UInt8
  | some c :: _ => .ok c
  | _ => .error .load

/-- `p + n`. -/
def advance (p : Block) (n : Nat) : Checked Block :=
  if n ≤ p.length then .ok (p.drop n) else .error .pointer

/-- `stop - start`, of two pointers into one block. -/
def distance (stop start : Block) : Checked Nat :=
  if stop.length ≤ start.length then .ok (start.length - stop.length) else .error .length

/-- `block[i] = c`. -/
def store (block : Block) (i : Nat) (c : UInt8) : Checked Block :=
  if i < block.length then .ok (block.set i (some c)) else .error .store

/-- Stores one after the other, from `block[i]` on. -/
def storeAll (block : Block) (i : Nat) : Bytes → Checked Block
  | [] => .ok block
  | c :: text => do storeAll (← store block i c) (i + 1) text

/-- A new block. -/
def malloc (size : Nat) : Block := List.replicate size none

/-! ## The string functions -/

def strlen : Block → Checked Nat
  | [] => .error .load
  | cell :: next => do
    if (← load (cell :: next)) = 0 then return 0 else return (← strlen next) + 1

def strchr (c : UInt8) : Block → Checked (Option Block)
  | [] => .error .load
  | cell :: next => do
    let b ← load (cell :: next)
    if b = c then return some (cell :: next)
    else if b = 0 then return none
    else strchr c next

/-- `strncmp(p, pat, n) == 0` for a `pat` of `n` bytes: it stops at the first difference. -/
def starts : Block → Bytes → Checked Bool
  | _, [] => .ok true
  | [], _ :: _ => .error .load
  | cell :: next, c :: pat => do
    if (← load (cell :: next)) = c then starts next pat else return false

def strstr (pat : Bytes) : Block → Checked (Option Block)
  | [] => .error .load
  | cell :: next => do
    if ← starts (cell :: next) pat then return some (cell :: next)
    else if (← load (cell :: next)) = 0 then return none
    else strstr pat next

/-- `while (skips(*p)) p++;`. -/
def skipWhile (skips : UInt8 → Bool) : Block → Checked Block
  | [] => .error .load
  | cell :: next => do
    if skips (← load (cell :: next)) then skipWhile skips next else return cell :: next

/-- The `n` bytes `memcpy` copies. -/
def loads : Nat → Block → Checked Bytes
  | 0, _ => .ok []
  | _ + 1, [] => .error .load
  | n + 1, cell :: next => do return (← load (cell :: next)) :: (← loads n next)

/-- The `n` bytes `strncpy` stores: NULs from the end of the string on. -/
def strncpy : Nat → Block → Checked Bytes
  | 0, _ => .ok []
  | _ + 1, [] => .error .load
  | n + 1, cell :: next => do
    let c ← load (cell :: next)
    if c = 0 then return List.replicate (n + 1) 0 else return c :: (← strncpy n next)

/-- The bytes in front of the NUL, as `strcpy` copies them. -/
def string : Block → Checked Bytes
  | [] => .error .load
  | cell :: next => do
    let c ← load (cell :: next)
    if c = 0 then return [] else return c :: (← string next)

/-- `atoi`; it reads no further than the string goes. -/
def atoi (p : Block) : Checked Int := do return CString.atoi (← string p)

/-! ## Terminated strings -/

/-- A string, its NUL, and what is behind it. -/
def cells (s : Bytes) (rest : Block) : Block := s.map some ++ some 0 :: rest

variable {s pat t : Bytes} {rest : Block} {c : UInt8} {n : Nat}

@[simp] theorem cells_nil (rest : Block) : cells [] rest = some 0 :: rest := rfl

@[simp] theorem cells_cons (c : UInt8) (s : Bytes) (rest : Block) :
    cells (c :: s) rest = some c :: cells s rest := rfl

@[simp] theorem length_cells (s : Bytes) (rest : Block) :
    (cells s rest).length = s.length + rest.length + 1 := by
  rw [cells, List.length_append, List.length_map, List.length_cons]
  omega

@[simp] theorem load_some (c : UInt8) (next : Block) : load (some c :: next) = .ok c := rfl

@[simp] theorem ok_bind {α β : Type} (a : α) (f : α → Checked β) :
    (Except.ok a >>= f : Checked β) = f a := rfl

theorem strlen_cells (h : 0 ∉ s) : strlen (cells s rest) = .ok s.length := by
  induction s with
  | nil => rfl
  | cons c s ih =>
      have hc : c ≠ 0 := (List.ne_of_not_mem_cons h).symm
      rw [cells_cons, strlen, load_some, ok_bind, if_neg hc, ih (List.not_mem_of_not_mem_cons h)]
      rfl

theorem strchr_cells (h : 0 ∉ s) (hc : c ≠ 0) :
    strchr c (cells s rest) = .ok ((CString.strchr s c).map (cells · rest)) := by
  induction s with
  | nil =>
      rw [cells_nil, strchr, load_some, ok_bind, if_neg hc.symm, if_pos rfl]
      rfl
  | cons b s ih =>
      have hb : b ≠ 0 := (List.ne_of_not_mem_cons h).symm
      rw [cells_cons, strchr, load_some, ok_bind, CString.strchr]
      by_cases same : b = c
      · rw [if_pos same, if_pos same]
        rfl
      · rw [if_neg same, if_neg hb, if_neg same, ih (List.not_mem_of_not_mem_cons h)]

/-- The NUL of a shorter string differs from the pattern. -/
theorem starts_cells (hpat : 0 ∉ pat) :
    starts (cells s rest) pat = .ok (pat.isPrefixOf s) := by
  induction pat generalizing s with
  | nil => cases s <;> rfl
  | cons c pat ih =>
      have hc : c ≠ 0 := (List.ne_of_not_mem_cons hpat).symm
      cases s with
      | nil =>
          rw [cells_nil, starts, load_some, ok_bind, if_neg hc.symm]
          rfl
      | cons b s =>
          rw [cells_cons, starts, load_some, ok_bind, List.isPrefixOf]
          by_cases same : b = c
          · rw [if_pos same, ih (List.not_mem_of_not_mem_cons hpat), same, beq_self_eq_true,
              Bool.true_and]
          · rw [if_neg same, beq_false_of_ne (Ne.symm same), Bool.false_and]
            rfl

theorem strstr_cells (hpat : 0 ∉ pat) (h : 0 ∉ s) :
    strstr pat (cells s rest) = .ok ((CString.strstr s pat).map (cells · rest)) := by
  induction s with
  | nil =>
      have here : starts (cells [] rest) pat = _ := starts_cells hpat
      rw [cells_nil] at here ⊢
      rw [strstr, here, ok_bind, CString.strstr]
      cases pat with
      | nil => rfl
      | cons c pat => rfl
  | cons b s ih =>
      have hb : b ≠ 0 := (List.ne_of_not_mem_cons h).symm
      have here : starts (cells (b :: s) rest) pat = _ := starts_cells hpat
      rw [cells_cons] at here ⊢
      rw [strstr, here, ok_bind, CString.strstr]
      cases pat.isPrefixOf (b :: s) with
      | true => rfl
      | false =>
          rw [if_neg Bool.false_ne_true, load_some, ok_bind, if_neg hb,
            ih (List.not_mem_of_not_mem_cons h), if_neg Bool.false_ne_true]

theorem skipWhile_cells {skips : UInt8 → Bool} (stops : skips 0 = false) :
    skipWhile skips (cells s rest) = .ok (cells (s.dropWhile skips) rest) := by
  induction s with
  | nil =>
      rw [cells_nil, skipWhile, load_some, ok_bind, stops]
      rfl
  | cons b s ih =>
      rw [cells_cons, skipWhile, load_some, ok_bind]
      cases hb : skips b with
      | true => rw [if_pos rfl, ih, List.dropWhile_cons_of_pos hb]
      | false =>
          rw [if_neg Bool.false_ne_true, List.dropWhile_cons_of_neg (by simp [hb])]
          rfl

theorem advance_cells (h : n ≤ s.length) :
    advance (cells s rest) n = .ok (cells (s.drop n) rest) := by
  have inside : (s.map some ++ some 0 :: rest).drop n = (s.drop n).map some ++ some 0 :: rest := by
    rw [List.drop_append_of_le_length (by rwa [List.length_map]), List.map_drop]
  rw [advance, if_pos (by rw [length_cells]; omega), cells, inside]
  rfl

theorem distance_cells (h : t.length ≤ s.length) :
    distance (cells t rest) (cells s rest) = .ok (s.length - t.length) := by
  rw [distance, length_cells, length_cells, if_pos (by omega)]
  congr 1
  omega

theorem loads_cells (h : n ≤ s.length) : loads n (cells s rest) = .ok (s.take n) := by
  induction n generalizing s with
  | zero => rfl
  | succ n ih =>
      cases s with
      | nil => exact absurd h (Nat.not_succ_le_zero n)
      | cons c s =>
          rw [cells_cons, loads, load_some, ok_bind, ih (Nat.le_of_succ_le_succ h)]
          rfl

theorem strncpy_cells (h : n ≤ s.length) (clean : 0 ∉ s) :
    strncpy n (cells s rest) = .ok (s.take n) := by
  induction n generalizing s with
  | zero => rfl
  | succ n ih =>
      cases s with
      | nil => exact absurd h (Nat.not_succ_le_zero n)
      | cons c s =>
          have hc : c ≠ 0 := (List.ne_of_not_mem_cons clean).symm
          rw [cells_cons, strncpy, load_some, ok_bind, if_neg hc,
            ih (Nat.le_of_succ_le_succ h) (List.not_mem_of_not_mem_cons clean)]
          rfl

theorem string_cells (clean : 0 ∉ s) : string (cells s rest) = .ok s := by
  induction s with
  | nil => rfl
  | cons c s ih =>
      have hc : c ≠ 0 := (List.ne_of_not_mem_cons clean).symm
      rw [cells_cons, string, load_some, ok_bind, if_neg hc,
        ih (List.not_mem_of_not_mem_cons clean)]
      rfl

/-! ## Filling a block -/

theorem store_append {front back : Block} {cell : Cell} (h : front.length = n) :
    store (front ++ cell :: back) n c = .ok (front ++ some c :: back) := by
  rw [store, if_pos (by rw [List.length_append, List.length_cons]; omega), ← h,
    List.set_append_right _ _ (Nat.le_refl _), Nat.sub_self, List.set_cons_zero]

/-- Stores within the block replace its cells and keep its size. -/
theorem storeAll_append (front old back : Block) (t : Bytes) (same : old.length = t.length) :
    storeAll (front ++ old ++ back) front.length t = .ok (front ++ t.map some ++ back) := by
  induction t generalizing front old with
  | nil =>
      rw [List.eq_nil_of_length_eq_zero same]
      rfl
  | cons c t ih =>
      obtain ⟨cell, old, rfl⟩ := List.exists_cons_of_length_eq_add_one same
      have first : front ++ cell :: old ++ back = front ++ cell :: (old ++ back) := by simp
      have later := ih (front ++ [some c]) old (Nat.succ.inj same)
      have shape : front ++ some c :: (old ++ back) = front ++ [some c] ++ old ++ back := by simp
      rw [List.length_append, List.length_singleton] at later
      rw [storeAll, first, store_append rfl, ok_bind, shape, later, List.map_cons]
      simp

theorem storeAll_front {block : Block} (h : t.length ≤ block.length) :
    storeAll block 0 t = .ok (t.map some ++ block.drop t.length) := by
  have filled := storeAll_append [] (block.take t.length) (block.drop t.length) t
    (by rw [List.length_take]; omega)
  rwa [List.nil_append, List.nil_append, List.take_append_drop] at filled

/-- A text and then its NUL. -/
theorem store_terminator {block : Block} (h : t.length < block.length) :
    store (t.map some ++ block.drop t.length) t.length 0 =
      .ok (cells t (block.drop (t.length + 1))) := by
  rw [List.drop_eq_getElem_cons h, store_append (List.length_map _)]
  rfl

/-- `strcpy` fills the front of a block. -/
theorem strcpy_front {block : Block} (h : t.length < block.length) :
    storeAll block 0 (t ++ [0]) = .ok (cells t (block.drop (t.length + 1))) := by
  rw [storeAll_front (by rw [List.length_append, List.length_singleton]; omega), List.map_append,
    List.append_assoc, List.length_append, List.length_singleton]
  rfl

theorem length_malloc (n : Nat) : (malloc n).length = n := List.length_replicate

end Blocks
