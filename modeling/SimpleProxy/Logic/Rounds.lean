import SimpleProxy.Main.Rounds

/-!
# What a round of a transfer does

One step lemma for each loop, under the part of the socket contract the loops rest on. From
them the loops as they are written and the ones with a bound on their rounds do the same.
-/

namespace SimpleProxy

open Interact CString

/-- The socket contract on sizes: `recv` delivers at most what it is asked for, and 0 when
that is nothing; `send` takes at most what it is given. -/
def Within : (c : Call) → Answer c → Prop
  | .recv _ _ n, .data bs => 0 < bs.length ∧ bs.length ≤ n
  | .recv _ _ _, .eof => True
  | .recv _ _ n, .again => 0 < n
  | .recv _ _ n, .error => 0 < n
  | .send _ _ data _, .sent n => n ≤ data.length
  | _, _ => True

/-- `*len` counts the bytes in the buffer. -/
def Transfer.Counted (t : Transfer) : Prop := t.buffer.length = t.len.toNat

/-- The buffer of a `recv_into_buffer`. -/
structure Roomy (capacity : UInt64) (t : Transfer) : Prop where
  counted : t.Counted
  fits : t.len ≤ capacity

variable {side : Side} {fd : Fd} {capacity : UInt64} {peer : Peer Answer} {past : History}
  {t : Transfer}

/-- A difference that does not wrap. -/
theorem toNat_sub_add {a b : UInt64} (h : b ≤ a) : (a - b).toNat + b.toNat = a.toNat := by
  have := UInt64.le_iff_toNat_le.mp h
  rw [UInt64.toNat_sub_of_le _ _ h]
  omega

/-- What was delivered is counted without wrapping. -/
theorem toNat_add_ofNat {len : UInt64} {n : Nat} (fits : len ≤ capacity)
    (room : n ≤ (capacity - len).toNat) : (len + .ofNat n).toNat = len.toNat + n := by
  have whole := toNat_sub_add fits
  have bound := capacity.toNat_lt
  rw [UInt64.toNat_add, UInt64.toNat_ofNat', Nat.add_mod_mod, Nat.mod_eq_of_lt]
  omega

/-- What was taken is counted without wrapping. -/
theorem toNat_sub_ofNat {len : UInt64} {n : Nat} (taken : n ≤ len.toNat) :
    (len - .ofNat n).toNat + n = len.toNat := by
  have small : (UInt64.ofNat n).toNat = n :=
    UInt64.toNat_ofNat_of_lt' (Nat.lt_of_le_of_lt taken len.toNat_lt)
  have le : UInt64.ofNat n ≤ len := UInt64.le_iff_toNat_le.mpr (by rw [small]; exact taken)
  have whole := toNat_sub_add le
  rwa [small] at whole

/-- One call, and what its answer makes of the transfer. -/
theorem recvRound_play (contract : ∀ past c, Within c (peer past c)) (past : History)
    (roomy : Roomy capacity t) :
    ∃ past' out, (recvRound side fd capacity t).play peer past = some (past', out) ∧
      past'.length ≤ past.length + 1 ∧
      ∀ t', out = .inl t' →
        Roomy capacity t' ∧ capacity.toNat - t'.len.toNat < capacity.toNat - t.len.toNat := by
  have within := contract past (.recv side fd (capacity - t.len).toNat)
  have whole := toNat_sub_add roomy.fits
  unfold recvRound
  rw [Prog.play_perform_bind]
  generalize peer past (.recv side fd (capacity - t.len).toNat) = r at within ⊢
  cases r with
  | data bs =>
      obtain ⟨some', room⟩ := within
      have counted := roomy.counted
      unfold Transfer.Counted at counted
      have sum := toNat_add_ofNat roomy.fits room
      refine ⟨_, _, rfl, by simp, ?_⟩
      rintro t' ⟨⟩
      refine ⟨⟨?_, ?_⟩, ?_⟩
      · show (t.buffer ++ bs).length = (t.len + .ofNat bs.length).toNat
        rw [List.length_append, sum, counted]
      · show t.len + .ofNat bs.length ≤ capacity
        rw [UInt64.le_iff_toNat_le, sum]
        omega
      · show capacity.toNat - (t.len + .ofNat bs.length).toNat < capacity.toNat - t.len.toNat
        rw [sum]
        omega
  | eof => exact ⟨_, _, rfl, by simp, fun _ h => by cases h⟩
  | again => exact ⟨_, _, rfl, by simp, fun _ h => by cases h⟩
  | error => exact ⟨_, _, rfl, by simp, fun _ h => by cases h⟩

/-- A round that goes on keeps the buffer, and there is less room. -/
theorem recvRound_next (contract : ∀ past c, Within c (peer past c)) (roomy : Roomy capacity t)
    {past' : History} {t' : Transfer}
    (first : (recvRound side fd capacity t).play peer past = some (past', .inl t')) :
    Roomy capacity t' ∧ capacity.toNat - t'.len.toNat < capacity.toNat - t.len.toNat := by
  obtain ⟨_, _, played, -, next⟩ := recvRound_play contract past roomy
  rw [first] at played
  cases played
  exact next t' rfl

/-- `*len` is never more than `capacity`. -/
theorem roomy_of_reaches (contract : ∀ past c, Within c (peer past c))
    (roomy : Roomy capacity t) {past' : History} {t' : Transfer}
    (reaches : Loop.Reaches peer (recvRound side fd capacity) past t past' t') :
    Roomy capacity t' := by
  refine reaches.keeps (fun _ t => Roomy capacity t) ?_ roomy
  intro past t past' t' roomy first
  exact (recvRound_next contract roomy first).1

/-- At most one call, and what its answer makes of the transfer. -/
theorem sendRound_play (contract : ∀ past c, Within c (peer past c)) (past : History)
    (counted : t.Counted) :
    ∃ past' out, (sendRound side fd t).play peer past = some (past', out) ∧
      past'.length ≤ past.length + 1 ∧
      ∀ t', out = .inl t' → t'.Counted ∧ t'.len.toNat < t.len.toNat := by
  have within := contract past (.send side fd (t.buffer.take t.len.toNat) .noSignal)
  unfold Transfer.Counted at counted
  unfold sendRound
  by_cases some' : 0 < t.len
  · rw [if_pos some', Prog.play_perform_bind]
    generalize peer past (.send side fd (t.buffer.take t.len.toNat) .noSignal) = r at within ⊢
    cases r with
    | sent n =>
        dsimp only
        by_cases hn : 0 < n
        · rw [if_pos hn]
          have taken : n ≤ t.len.toNat :=
            Nat.le_trans within (by rw [List.length_take]; omega)
          have difference := toNat_sub_ofNat taken
          refine ⟨_, _, rfl, by simp, ?_⟩
          rintro t' ⟨⟩
          refine ⟨?_, ?_⟩
          · show ((t.buffer.drop n).take (t.len - .ofNat n).toNat).length = (t.len - .ofNat n).toNat
            rw [List.length_take, List.length_drop]
            omega
          · show (t.len - .ofNat n).toNat < t.len.toNat
            omega
        · rw [if_neg hn]
          exact ⟨_, _, rfl, by simp, fun _ h => by cases h⟩
    | again => exact ⟨_, _, rfl, by simp, fun _ h => by cases h⟩
    | error => exact ⟨_, _, rfl, by simp, fun _ h => by cases h⟩
  · rw [if_neg some']
    exact ⟨_, _, rfl, by simp, fun _ h => by cases h⟩

/-- A round that goes on keeps the count, and there is less to send. -/
theorem sendRound_next (contract : ∀ past c, Within c (peer past c)) (counted : t.Counted)
    {past' : History} {t' : Transfer}
    (first : (sendRound side fd t).play peer past = some (past', .inl t')) :
    t'.Counted ∧ t'.len.toNat < t.len.toNat := by
  obtain ⟨_, _, played, -, next⟩ := sendRound_play contract past counted
  rw [first] at played
  cases played
  exact next t' rfl

/-! ## The loops with a bound -/

/-- The first round of a `recv_into_buffer` with a bound. -/
theorem recvLoop_succ_play (roomy : Roomy capacity t) (rounds : Nat) (past : History) :
    (recvLoop side fd capacity.toNat (rounds + 1) t.buffer t.total).play peer past =
      ((recvRound side fd capacity t).play peer past).bind fun (past', out) =>
        out.elim (fun t' => (recvLoop side fd capacity.toNat rounds t'.buffer t'.total).play peer
          past') fun (r, t') => some (past', (r, t'.buffer)) := by
  have asked : capacity.toNat - t.buffer.length = (capacity - t.len).toNat := by
    rw [roomy.counted, UInt64.toNat_sub_of_le _ _ roomy.fits]
  rw [recvLoop, recvRound, asked, Prog.play_perform_bind, Prog.play_perform_bind]
  cases peer past (.recv side fd (capacity - t.len).toNat) <;> rfl

/-- `recv_into_buffer` returns what the loop as it is written returns. -/
theorem recvLoop_play (contract : ∀ past c, Within c (peer past c)) (roomy : Roomy capacity t)
    {past' : History} {r : Int} {t' : Transfer}
    (returns : Loop.Returns peer (recvRound side fd capacity) past t past' (r, t')) {rounds : Nat}
    (enough : capacity.toNat - t.len.toNat + 1 ≤ rounds) :
    (recvLoop side fd capacity.toNat rounds t.buffer t.total).play peer past =
      some (past', (r, t'.buffer)) := by
  refine Loop.Returns.play_bounded (Roomy capacity)
    (fun t => capacity.toNat - t.len.toNat + 1)
    (fun rounds t => recvLoop side fd capacity.toNat rounds t.buffer t.total)
    (fun (r, t') => (r, t'.buffer)) ?_ ?_ returns roomy enough
  · intro n past t roomy enough
    obtain ⟨n, rfl⟩ : ∃ k, n = k + 1 := ⟨n - 1, by omega⟩
    exact recvLoop_succ_play roomy n past
  · intro past t past' t' roomy first
    obtain ⟨roomy', less⟩ := recvRound_next contract roomy first
    exact ⟨roomy', Nat.succ_lt_succ less⟩

/-- The first round of a `send_from_buffer` with a bound, as long as something is left. -/
theorem sendLoop_succ_play (contract : ∀ past c, Within c (peer past c)) (counted : t.Counted)
    (some' : 0 < t.len) (rounds : Nat) (past : History) :
    (sendLoop side fd (rounds + 1) t.buffer t.total).play peer past =
      ((sendRound side fd t).play peer past).bind fun (past', out) =>
        out.elim (fun t' => (sendLoop side fd rounds t'.buffer t'.total).play peer past')
          fun (r, t') => some (past', (r, t'.buffer)) := by
  have within := contract past (.send side fd (t.buffer.take t.len.toNat) .noSignal)
  unfold Transfer.Counted at counted
  have whole : t.buffer.take t.len.toNat = t.buffer :=
    List.take_of_length_le (Nat.le_of_eq counted)
  have positive := UInt64.lt_iff_toNat_lt.mp some'
  rw [UInt64.toNat_zero] at positive
  have nonempty : t.buffer ≠ [] := List.ne_nil_of_length_pos (by omega)
  unfold sendRound
  rw [whole] at within ⊢
  rw [sendLoop, if_pos some', Prog.play_perform_bind, Prog.play_perform_bind]
  · generalize peer past (.send side fd t.buffer .noSignal) = r at within ⊢
    cases r with
    | sent s =>
        dsimp only
        by_cases hs : 0 < s
        · have taken : s ≤ t.buffer.length := within
          have difference := toNat_sub_ofNat (counted ▸ taken)
          have moved : (t.buffer.drop s).take (t.len - .ofNat s).toNat = t.buffer.drop s :=
            List.take_of_length_le (by rw [List.length_drop]; omega)
          rw [if_pos hs, if_pos hs, moved]
          rfl
        · rw [if_neg hs, if_neg hs]
          rfl
    | again => rfl
    | error => rfl
  · exact nonempty

/-- With nothing left to send there is no round. -/
theorem sendLoop_empty_play (counted : t.Counted) (none' : ¬ 0 < t.len) (rounds : Nat)
    (past : History) :
    (sendLoop side fd rounds t.buffer t.total).play peer past =
      some (past, (t.total, t.buffer)) := by
  have zero : t.len.toNat = 0 := by
    have := UInt64.lt_iff_toNat_lt.not.mp none'
    rw [UInt64.toNat_zero] at this
    omega
  have empty : t.buffer = [] := List.eq_nil_of_length_eq_zero (counted.trans zero)
  rw [empty]
  cases rounds <;> rfl

/-- `send_from_buffer` returns what the loop as it is written returns. -/
theorem sendLoop_play (contract : ∀ past c, Within c (peer past c)) (counted : t.Counted)
    {past' : History} {r : Int} {t' : Transfer}
    (returns : Loop.Returns peer (sendRound side fd) past t past' (r, t')) {rounds : Nat}
    (enough : t.len.toNat ≤ rounds) :
    (sendLoop side fd rounds t.buffer t.total).play peer past = some (past', (r, t'.buffer)) := by
  refine Loop.Returns.play_bounded Transfer.Counted (fun t => t.len.toNat)
    (fun rounds t => sendLoop side fd rounds t.buffer t.total)
    (fun (r, t') => (r, t'.buffer)) ?_ ?_ returns counted enough
  · intro n past t counted enough
    by_cases some' : 0 < t.len
    · have positive := UInt64.lt_iff_toNat_lt.mp some'
      obtain ⟨n, rfl⟩ : ∃ k, n = k + 1 := ⟨n - 1, by omega⟩
      exact sendLoop_succ_play contract counted some' n past
    · dsimp only
      rw [sendLoop_empty_play counted some', sendRound, if_neg some']
      rfl
  · intro past t past' t' counted first
    exact sendRound_next contract counted first

end SimpleProxy
