import SimpleProxy.Lib.CString

/-!
# Reading a text piece by piece

A loop of `fgets` with one buffer cuts a text into pieces: each goes up to the next
newline, but no further than the buffer. A piece that ends for one of these
reasons is `Whole`, and a text that is put together from whole pieces is cut into the
same pieces again (`pieces_append`). `pieces_induction` is the induction over a
text that goes with it.
-/

namespace CString

variable {size : Nat} {input piece rest : Bytes}

/-- What a loop of `fgets` with a buffer of `size` bytes reads. A buffer of one byte would
read nothing forever. -/
def pieces (size : Nat) (input : Bytes) : List Bytes :=
  match fgets size input with
  | none => []
  | some (piece, rest) => if rest.length < input.length then piece :: pieces size rest else []
termination_by input.length

example : pieces 4 (bytes "a\nbcde\n\nf") =
    [bytes "a\n", bytes "bcd", bytes "e\n", bytes "\n", bytes "f"] := by decide +kernel

/-- A piece that was not ended by the end of the text: it has a newline, at its end, or
fills the buffer. -/
def Whole (size : Nat) (piece : Bytes) : Prop :=
  (∃ line, piece = line ++ [10] ∧ 10 ∉ line ∧ line.length + 1 < size) ∨
    (10 ∉ piece ∧ piece.length + 1 = size ∧ piece ≠ [])

/-- A piece that was ended by the end of the text. -/
def Partial (size : Nat) (piece : Bytes) : Prop :=
  10 ∉ piece ∧ piece.length + 1 < size ∧ piece ≠ []

theorem takeWhile_ne_of_not_mem {c : UInt8} (h : c ∉ input) :
    input.takeWhile (· ≠ c) = input := by
  refine List.takeWhile_eq_self_iff.mpr fun b hb => ?_
  simp only [ne_eq, decide_eq_true_eq]
  rintro rfl
  exact h hb

theorem takeWhile_ne_append {c : UInt8} (h : c ∉ input) (rest : Bytes) :
    (input ++ c :: rest).takeWhile (· ≠ c) = input := by
  rw [List.takeWhile_append_of_pos, List.takeWhile_cons_of_neg (by simp), List.append_nil]
  intro b hb
  simp only [ne_eq, decide_eq_true_eq]
  rintro rfl
  exact h hb

theorem Whole.ne_nil (whole : Whole size piece) : piece ≠ [] := by
  rcases whole with ⟨line, rfl, -, -⟩ | ⟨-, -, some⟩
  · simp
  · exact some

theorem Whole.length_lt (whole : Whole size piece) : piece.length < size := by
  rcases whole with ⟨line, rfl, -, short⟩ | ⟨-, full, -⟩
  · rw [List.length_append, List.length_singleton]
    exact short
  · omega

/-- `fgets` reads a whole piece, whatever comes behind it. -/
theorem fgets_whole (whole : Whole size piece) (rest : Bytes) :
    fgets size (piece ++ rest) = some (piece, rest) := by
  have cut : ∀ n, n = piece.length →
      some ((piece ++ rest).take n, (piece ++ rest).drop n) = some (piece, rest) := by
    rintro n rfl
    rw [List.take_left, List.drop_left]
  rw [fgets, if_neg (by simp [whole.ne_nil])]
  refine cut _ ?_
  rcases whole with ⟨line, rfl, clean, short⟩ | ⟨clean, full, -⟩
  · rw [List.append_assoc, List.singleton_append, takeWhile_ne_append clean, List.length_append,
      List.length_singleton]
    omega
  · rw [List.takeWhile_append_of_pos, List.length_append]
    · omega
    · intro b hb
      simp only [ne_eq, decide_eq_true_eq]
      rintro rfl
      exact clean hb

theorem fgets_last (last : Partial size piece) : fgets size piece = some (piece, []) := by
  obtain ⟨clean, short, some⟩ := last
  rw [fgets, if_neg some]
  dsimp only
  rw [takeWhile_ne_of_not_mem clean, List.take_of_length_le (by omega),
    List.drop_of_length_le (by omega)]

/-- A text is empty, or starts with a whole piece, or is one that is not. -/
theorem cut_cases (big : 2 ≤ size) (input : Bytes) :
    input = [] ∨ (∃ piece rest, Whole size piece ∧ input = piece ++ rest) ∨ Partial size input := by
  by_cases empty : input = []
  · exact .inl empty
  · by_cases long : size ≤ (input.takeWhile (· ≠ 10)).length + 1
    · -- the buffer is full before the newline
      have clean : 10 ∉ input.take (size - 1) := by
        intro h
        obtain ⟨more, hmore⟩ := List.takeWhile_prefix (p := fun c : UInt8 => c ≠ 10) (l := input)
        rw [← hmore, List.take_append_of_le_length (by omega)] at h
        have := List.mem_takeWhile_imp (List.mem_of_mem_take h)
        simp at this
      have hlength : (input.take (size - 1)).length + 1 = size := by
        have hle := (List.takeWhile_prefix (p := fun c : UInt8 => c ≠ 10) (l := input)).length_le
        rw [List.length_take]
        omega
      refine .inr (.inl ⟨input.take (size - 1), input.drop (size - 1), .inr ⟨clean, hlength, ?_⟩,
        (List.take_append_drop _ _).symm⟩)
      exact List.ne_nil_of_length_pos (by omega)
    · by_cases newline : 10 ∈ input
      · obtain ⟨line, after, rfl, clean⟩ := List.eq_append_cons_of_mem newline
        rw [takeWhile_ne_append clean] at long
        exact .inr (.inl ⟨line ++ [10], after, .inl ⟨line, rfl, clean, by omega⟩, by simp⟩)
      · rw [takeWhile_ne_of_not_mem newline] at long
        exact .inr (.inr ⟨newline, by omega, empty⟩)

/-- Induction over a text, a whole piece at a time. -/
theorem pieces_induction {P : Bytes → Prop} (big : 2 ≤ size) (nil : P [])
    (whole : ∀ piece rest, Whole size piece → P rest → P (piece ++ rest))
    (last : ∀ piece, Partial size piece → P piece) (input : Bytes) : P input := by
  generalize hn : input.length = n
  induction n using Nat.strongRecOn generalizing input with
  | ind n ih =>
      rcases cut_cases big input with rfl | ⟨piece, rest, hwhole, rfl⟩ | hlast
      · exact nil
      · have some := List.length_pos_iff.mpr hwhole.ne_nil
        rw [List.length_append] at hn
        exact whole piece rest hwhole (ih rest.length (by omega) rest rfl)
      · exact last input hlast

@[simp] theorem pieces_nil : pieces size [] = [] := by
  rw [pieces, fgets, if_pos rfl]

/-- A whole piece in front is read for itself. -/
theorem pieces_whole (whole : Whole size piece) (rest : Bytes) :
    pieces size (piece ++ rest) = piece :: pieces size rest := by
  have some := List.length_pos_iff.mpr whole.ne_nil
  rw [pieces, fgets_whole whole]
  dsimp only
  rw [if_pos (by rw [List.length_append]; omega)]

theorem pieces_last (last : Partial size piece) : pieces size piece = [piece] := by
  have some := List.length_pos_iff.mpr last.2.2
  rw [pieces, fgets_last last]
  dsimp only
  rw [if_pos (by simpa using some), pieces_nil]

theorem pieces_of_fgets_eq_none (h : fgets size input = none) : pieces size input = [] := by
  rw [pieces, h]

/-- What `fgets` returns is the first piece. -/
theorem fgets_eq_some (big : 2 ≤ size) (h : fgets size input = some (piece, rest)) :
    input = piece ++ rest ∧ pieces size input = piece :: pieces size rest := by
  rcases cut_cases big input with rfl | ⟨first, more, whole, rfl⟩ | last
  · rw [fgets, if_pos rfl] at h
    cases h
  · rw [fgets_whole whole] at h
    cases h
    exact ⟨rfl, pieces_whole whole rest⟩
  · rw [fgets_last last] at h
    cases h
    exact ⟨(List.append_nil _).symm, by rw [pieces_last last, pieces_nil]⟩

/-- Whole pieces in front are read as they are. -/
theorem pieces_append {front : List Bytes} (whole : ∀ piece ∈ front, Whole size piece)
    (rest : Bytes) : pieces size (front.flatten ++ rest) = front ++ pieces size rest := by
  induction front with
  | nil => rfl
  | cons piece front ih =>
      obtain ⟨first, others⟩ := List.forall_mem_cons.mp whole
      rw [List.flatten_cons, List.append_assoc, pieces_whole first, ih others, List.cons_append]

/-- The pieces are the text. -/
theorem flatten_pieces (big : 2 ≤ size) (input : Bytes) : (pieces size input).flatten = input := by
  induction input using pieces_induction big with
  | nil => rw [pieces_nil, List.flatten_nil]
  | whole piece rest hwhole ih => rw [pieces_whole hwhole, List.flatten_cons, ih]
  | last piece hlast => rw [pieces_last hlast, List.flatten_singleton]

/-- The pieces of a beginning of a text that ends with one of its pieces. -/
theorem pieces_of_prefix (big : 2 ≤ size) {front : List Bytes}
    (h : front <+: pieces size input) :
    pieces size front.flatten = front ∧ front.flatten <+: input := by
  induction input using pieces_induction big generalizing front with
  | nil =>
      rw [pieces_nil, List.prefix_nil] at h
      subst h
      exact ⟨pieces_nil, List.nil_prefix⟩
  | whole piece rest hwhole ih =>
      rw [pieces_whole hwhole] at h
      rcases List.prefix_cons_iff.mp h with rfl | ⟨more, rfl, hmore⟩
      · exact ⟨pieces_nil, List.nil_prefix⟩
      · obtain ⟨same, fits⟩ := ih hmore
        rw [List.flatten_cons, pieces_whole hwhole, same]
        exact ⟨rfl, (List.prefix_append_right_inj piece).mpr fits⟩
  | last piece hlast =>
      rw [pieces_last hlast] at h
      rcases List.prefix_cons_iff.mp h with rfl | ⟨more, rfl, hmore⟩
      · exact ⟨pieces_nil, List.nil_prefix⟩
      · rw [List.prefix_nil.mp hmore, List.flatten_singleton]
        exact ⟨pieces_last hlast, List.prefix_rfl⟩

theorem mem_of_mem_pieces (big : 2 ≤ size) {c : UInt8} (hpiece : piece ∈ pieces size input)
    (hc : c ∈ piece) : c ∈ input := by
  rw [← flatten_pieces big input]
  exact List.mem_flatten.mpr ⟨piece, hpiece, hc⟩

/-- A text that is changed piece by piece is cut into the pieces that were put in. -/
theorem pieces_map_flatten (big : 2 ≤ size) {g : Bytes → Bytes}
    (whole : ∀ piece, Whole size piece → Whole size (g piece))
    (last : ∀ piece, Partial size piece → Whole size (g piece) ∨ Partial size (g piece))
    (input : Bytes) :
    pieces size ((pieces size input).map g).flatten = (pieces size input).map g := by
  induction input using pieces_induction big with
  | nil => rw [pieces_nil, List.map_nil, List.flatten_nil, pieces_nil]
  | whole piece rest hwhole ih =>
      rw [pieces_whole hwhole, List.map_cons, List.flatten_cons, pieces_whole (whole _ hwhole), ih]
  | last piece hlast =>
      rw [pieces_last hlast, List.map_singleton, List.flatten_singleton]
      rcases last piece hlast with hwhole | hpartial
      · have alone := pieces_whole hwhole []
        rwa [List.append_nil, pieces_nil] at alone
      · exact pieces_last hpartial

/-- No piece fills the buffer, which has the terminator too. -/
theorem length_lt_of_mem_pieces (big : 2 ≤ size) (h : piece ∈ pieces size input) :
    piece.length < size := by
  induction input using pieces_induction big with
  | nil =>
      rw [pieces_nil] at h
      cases h
  | whole first rest hwhole ih =>
      rw [pieces_whole hwhole] at h
      rcases List.mem_cons.mp h with rfl | later
      · exact hwhole.length_lt
      · exact ih later
  | last only hlast =>
      rw [pieces_last hlast, List.mem_singleton] at h
      rw [h]
      exact Nat.lt_of_succ_lt hlast.2.1

/-- A line with its newline is cut at most once, in front of the newline. -/
theorem pieces_line (big : 2 ≤ size) {line : Bytes} (clean : 10 ∉ line)
    (fits : line.length < size) :
    ∃ cut, (∀ piece ∈ cut, Whole size piece) ∧ cut.flatten = line ++ [10] ∧
      (cut = [line ++ [10]] ∨ cut = [line, [10]]) := by
  by_cases short : line.length + 1 < size
  · refine ⟨[line ++ [10]], ?_, List.flatten_singleton, .inl rfl⟩
    intro piece hpiece
    rw [List.mem_singleton.mp hpiece]
    exact .inl ⟨line, rfl, clean, short⟩
  · have full : line.length + 1 = size := by omega
    refine ⟨[line, [10]], ?_, by simp, .inr rfl⟩
    intro piece hpiece
    rcases List.mem_cons.mp hpiece with rfl | hpiece
    · exact .inr ⟨clean, full, List.ne_nil_of_length_pos (by omega)⟩
    · rw [List.mem_singleton.mp hpiece]
      exact .inl ⟨[], rfl, List.not_mem_nil, big⟩

/-- A short line at the end of the text is not cut. -/
theorem pieces_lastLine {line : Bytes} (clean : 10 ∉ line) (some : line ≠ [])
    (fits : line.length < size) : pieces size line = [line] := by
  by_cases short : line.length + 1 < size
  · exact pieces_last ⟨clean, short, some⟩
  · have alone := pieces_whole (.inr ⟨clean, by omega, some⟩ : Whole size line) []
    rwa [List.append_nil, pieces_nil] at alone

/-- There is no newline in a line. -/
theorem not_mem_of_mem_splitOn {line : Bytes} (h : line ∈ input.splitOn 10) : 10 ∉ line := by
  generalize hn : input.length = n
  induction n using Nat.strongRecOn generalizing input with
  | ind n ih =>
      by_cases more : 10 ∈ input
      · obtain ⟨first, after, rfl, clean⟩ := List.eq_append_cons_of_mem more
        rw [List.splitOn_append_cons_self_of_not_mem clean] at h
        rcases List.mem_cons.mp h with rfl | h
        · exact clean
        · refine ih after.length ?_ h rfl
          rw [← hn, List.length_append, List.length_cons]
          omega
      · rw [List.splitOn_eq_singleton more, List.mem_singleton] at h
        rwa [h]

section EachLine

variable {α : Type} {g : Bytes → Option α}

/-- A line is cut alike with its newline and what comes behind that. -/
theorem filterMap_pieces_line (big : 2 ≤ size) (blank : g [] = none)
    (newline : ∀ line, g (line ++ [10]) = g line) {line : Bytes} (clean : 10 ∉ line)
    (after : Bytes) :
    (pieces size (line ++ 10 :: after)).filterMap g =
      (pieces size line).filterMap g ++ (pieces size after).filterMap g := by
  induction line using pieces_induction big with
  | nil =>
      have bare : Whole size [10] := .inl ⟨[], rfl, List.not_mem_nil, big⟩
      have skipped : g [10] = none := (newline []).trans blank
      have first : pieces size (10 :: after) = [10] :: pieces size after := pieces_whole bare after
      rw [List.nil_append, first, List.filterMap_cons_none skipped, pieces_nil, List.filterMap_nil,
        List.nil_append]
  | whole piece rest hwhole ih =>
      rw [List.mem_append, not_or] at clean
      rw [List.append_assoc, pieces_whole hwhole, pieces_whole hwhole, List.filterMap_cons,
        List.filterMap_cons, ih clean.2]
      cases g piece <;> rfl
  | last piece hlast =>
      have ended : Whole size (piece ++ [10]) := .inl ⟨piece, rfl, clean, hlast.2.1⟩
      rw [List.append_cons, pieces_whole ended, pieces_last hlast, List.filterMap_cons, newline]
      cases hg : g piece <;> simp [hg]

/-- A text is cut line by line. -/
theorem filterMap_pieces_lines (big : 2 ≤ size) (blank : g [] = none)
    (newline : ∀ line, g (line ++ [10]) = g line) :
    (pieces size input).filterMap g =
      (input.splitOn 10).flatMap fun line => (pieces size line).filterMap g := by
  generalize hn : input.length = n
  induction n using Nat.strongRecOn generalizing input with
  | ind n ih =>
      by_cases more : 10 ∈ input
      · obtain ⟨line, after, rfl, clean⟩ := List.eq_append_cons_of_mem more
        have shorter : after.length < n := by
          rw [← hn, List.length_append, List.length_cons]
          omega
        rw [List.splitOn_append_cons_self_of_not_mem clean, List.flatMap_cons,
          filterMap_pieces_line big blank newline clean, ih after.length shorter rfl]
      · rw [List.splitOn_eq_singleton more, List.flatMap_singleton]

/-- A short line is not cut. -/
theorem filterMap_pieces_short (blank : g [] = none) {line : Bytes} (clean : 10 ∉ line)
    (fits : line.length < size) : (pieces size line).filterMap g = (g line).toList := by
  by_cases empty : line = []
  · rw [empty, pieces_nil, blank]
    rfl
  · rw [pieces_lastLine clean empty fits, List.filterMap_cons]
    cases g line <;> rfl

end EachLine

end CString
