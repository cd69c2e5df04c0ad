import SimpleProxy.Lib.CString
import SimpleProxy.Lib.Stores

/-!
# Printing at the end of a buffer

`len += snprintf(buffer + len, size - len, ..)` again and again. The result of `snprintf` is
the length of the whole text, also of one that is cut off, so `len` can pass `size`, and
the difference of two `size_t` is then a huge room for the next text.
-/

namespace Prints

open CString Stores

/-- One `snprintf(buffer + start, room, ..)`. -/
structure Print where
  start : UInt64
  room : UInt64
  text : Bytes
  deriving DecidableEq, Repr

/-- With no room at all not even the NUL is stored. -/
def Print.stores (p : Print) : List (Store UInt8) :=
  if p.room = 0 then [] else sequential p.start.toNat (snprintf p.room.toNat p.text ++ [0])

/-- The texts one behind the other, from `len` on. -/
def prints (size len : UInt64) : List Bytes → List Print
  | [] => []
  | text :: texts => ⟨len, size - len, text⟩ :: prints size (len + .ofNat text.length) texts

/-- The stores spell a text and its NUL at the front of the buffer, and nothing behind. -/
def Spells (stores : List (Store UInt8)) (text : Bytes) : Prop :=
  ∀ i, contents stores i = (text ++ [0])[i]?

variable {size len : UInt64} {stores : List (Store UInt8)} {front text : Bytes}
  {texts : List Bytes}

/-- A text printed over the NUL of the one before. -/
theorem Spells.append (h : Spells stores front) (text : Bytes) :
    Spells (stores ++ sequential front.length (text ++ [0])) (front ++ text) := by
  intro i
  rw [contents_append, h i, List.append_assoc]
  rcases Nat.lt_or_ge i front.length with before | behind
  · rw [contents_sequential_of_lt before, Option.none_or, List.getElem?_append_left before,
      List.getElem?_append_left before]
  · obtain ⟨k, rfl⟩ := Nat.exists_eq_add_of_le behind
    rw [contents_sequential, List.getElem?_append_right (Nat.le_add_right _ _),
      List.getElem?_append_right (Nat.le_add_right _ _), Nat.add_sub_cancel_left]
    cases k with
    | zero =>
        -- the old NUL is overwritten
        cases text <;> rfl
    | succ k => exact Option.or_none

theorem toNat_room (h : len ≤ size) : (size - len).toNat = size.toNat - len.toNat :=
  UInt64.toNat_sub_of_le _ _ h

theorem toNat_add_length (fits : len.toNat + text.length < 18446744073709551616) :
    (len + .ofNat text.length).toNat = len.toNat + text.length := by
  rw [UInt64.toNat_add, UInt64.toNat_ofNat', Nat.add_mod_mod, Nat.mod_eq_of_lt fits]

/-! ## Texts that fit -/

/-- A text with room for its NUL. -/
theorem stores_of_fits (h : len.toNat + text.length < size.toNat) :
    Print.stores ⟨len, size - len, text⟩ = sequential len.toNat (text ++ [0]) := by
  have le : len ≤ size := UInt64.le_iff_toNat_le.mpr (by omega)
  have room := toNat_room le
  have some' : size - len ≠ 0 := by
    intro none
    rw [none, UInt64.toNat_zero] at room
    omega
  rw [Print.stores, if_neg some', snprintf, List.take_of_length_le]
  show text.length ≤ (size - len).toNat - 1
  omega

/-- Texts that fit are printed whole. -/
theorem spells_prints (start : Spells stores front) (counted : len.toNat = front.length)
    (fits : front.length + texts.flatten.length < size.toNat) :
    Spells (stores ++ (prints size len texts).flatMap Print.stores) (front ++ texts.flatten) := by
  induction texts generalizing stores front len with
  | nil =>
      rw [prints, List.flatMap_nil, List.append_nil, List.flatten_nil, List.append_nil]
      exact start
  | cons text texts ih =>
      rw [List.flatten_cons, List.length_append] at fits
      have bound := size.toNat_lt
      have sum : (len + .ofNat text.length).toNat = (front ++ text).length := by
        rw [toNat_add_length (by omega), counted, List.length_append]
      have next := ih (start.append text) sum (by rw [List.length_append]; omega)
      rw [prints, List.flatMap_cons, stores_of_fits (by omega), counted, ← List.append_assoc,
        List.flatten_cons, ← List.append_assoc]
      exact next

/-! ## The end of the buffer -/

/-- A print stays in the buffer as long as it starts in it or right behind. -/
theorem inside_print : Inside size.toNat (Print.stores ⟨len, size - len, text⟩) ↔ len ≤ size := by
  rw [Print.stores]
  dsimp only
  constructor
  · intro inside
    rcases UInt64.le_total len size with le | le
    · exact le
    · have wraps := UInt64.toNat_sub size len
      have bound := size.toNat_lt
      have bound' := len.toNat_lt
      have le' := UInt64.le_iff_toNat_le.mp le
      by_cases same : len = size
      · exact same ▸ UInt64.le_refl _
      · have other : len.toNat ≠ size.toNat := fun h => same (UInt64.toNat_inj.mp h)
        -- the room is not 0, so the NUL at least is stored
        have some' : size - len ≠ 0 := by
          intro none
          rw [none, UInt64.toNat_zero] at wraps
          omega
        rw [if_neg some', inside_sequential] at inside
        rcases inside with nothing | inside
        · simp at nothing
        · rw [List.length_append, List.length_singleton] at inside
          omega
  · intro le
    have room := toNat_room le
    have le' := UInt64.le_iff_toNat_le.mp le
    split
    · exact inside_nil _
    · rename_i some'
      have positive : 0 < (size - len).toNat := by
        rcases Nat.eq_zero_or_pos (size - len).toNat with zero | positive
        · exact absurd (UInt64.toNat_inj.mp zero) some'
        · exact positive
      rw [inside_sequential]
      refine .inr ?_
      rw [List.length_append, List.length_singleton, snprintf, List.length_take]
      omega

/-- All stores hit the buffer exactly if `len` never passes its size. -/
theorem inside_prints :
    Inside size.toNat ((prints size len texts).flatMap Print.stores) ↔
      ∀ p ∈ prints size len texts, p.start ≤ size := by
  induction texts generalizing len with
  | nil => simp [prints]
  | cons text texts ih =>
      rw [prints, List.flatMap_cons, inside_append, inside_print, ih, List.forall_mem_cons]

/-- In front of a last print, `len` passes the size exactly if the texts do. -/
theorem start_le_iff (last : Bytes) (before : len ≤ size)
    (short : ∀ t ∈ texts, size.toNat + t.length < 18446744073709551616) :
    (∀ p ∈ prints size len (texts ++ [last]), p.start ≤ size) ↔
      len.toNat + texts.flatten.length ≤ size.toNat := by
  have le := UInt64.le_iff_toNat_le.mp before
  induction texts generalizing len with
  | nil =>
      rw [List.nil_append, prints, prints, List.forall_mem_singleton, List.flatten_nil]
      exact iff_of_true before le
  | cons text texts ih =>
      obtain ⟨hshort, hothers⟩ := List.forall_mem_cons.mp short
      have sum : (len + .ofNat text.length).toNat = len.toNat + text.length :=
        toNat_add_length (by omega)
      rw [List.cons_append, prints, List.forall_mem_cons, and_iff_right before, List.flatten_cons,
        List.length_append]
      by_cases within : len + .ofNat text.length ≤ size
      · have le' := UInt64.le_iff_toNat_le.mp within
        refine (ih within hothers le').trans ?_
        rw [sum, Nat.add_assoc]
      · have beyond := UInt64.le_iff_toNat_le.not.mp within
        refine iff_of_false ?_ (by omega)
        intro all
        -- the next print starts behind the buffer
        have next : ∃ p ∈ prints size (len + .ofNat text.length) (texts ++ [last]),
            p.start = len + .ofNat text.length := by
          cases texts with
          | nil => exact ⟨_, List.mem_cons_self, rfl⟩
          | cons t texts => exact ⟨_, List.mem_cons_self, rfl⟩
        obtain ⟨p, member, start⟩ := next
        exact within (start ▸ all p member)

end Prints
