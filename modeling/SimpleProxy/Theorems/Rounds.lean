import SimpleProxy.Logic.Rounds

/-!
# The transfer loops end

Neither loop has a bound of its own, and the peer decides how often they go round. What
ends them is the size of the buffer: every round that goes on fills it or empties it
further, and a `recv` into a full buffer returns 0.
-/

namespace SimpleProxy.Theorems.Rounds

open Interact CString

/-- **Termination.** Whatever the peer does, `recv_into_buffer` returns after at most
`capacity - *len + 1` calls and never asks for more than there is room for, and
`send_from_buffer` returns after at most `*len + 1` calls and never moves more than there
is. Both do what the loops with a bound do. -/
theorem transfers_end (peer : Peer Answer) (contract : ∀ past c, Within c (peer past c))
    (side : Side) (fd : Fd) (past : History) (buffer : Bytes) (len : UInt64)
    (counted : buffer.length = len.toNat) :
    (∀ capacity, len ≤ capacity →
      (∃ past' r t, Loop.Returns peer (recvRound side fd capacity) past ⟨buffer, len, 0⟩ past'
          (r, t) ∧
        past'.length ≤ past.length + (capacity.toNat - len.toNat + 1) ∧
        (recvIntoBuffer side fd buffer capacity.toNat).play peer past =
          some (past', (r, t.buffer))) ∧
      ∀ past₁ t, Loop.Reaches peer (recvRound side fd capacity) past ⟨buffer, len, 0⟩ past₁ t →
        t.len ≤ capacity ∧ (capacity - t.len).toNat + t.len.toNat = capacity.toNat) ∧
    (∃ past' s t, Loop.Returns peer (sendRound side fd) past ⟨buffer, len, 0⟩ past' (s, t) ∧
      past'.length ≤ past.length + (len.toNat + 1) ∧
      (sendFromBuffer side fd buffer).play peer past = some (past', (s, t.buffer))) ∧
    ∀ past₁ t, Loop.Reaches peer (sendRound side fd) past ⟨buffer, len, 0⟩ past₁ t →
      ∀ s, peer past₁ (.send side fd (t.buffer.take t.len.toNat) .noSignal) = .sent s →
        s ≤ t.len.toNat ∧ (t.len - .ofNat s).toNat + s = t.len.toNat := by
  refine ⟨fun capacity fits => ?_, ?_, ?_⟩
  · have roomy : Roomy capacity ⟨buffer, len, 0⟩ := ⟨counted, fits⟩
    constructor
    · obtain ⟨past', ⟨r, t⟩, returns, few⟩ := Loop.returns_of_measure
        (fun t : Transfer => capacity.toNat - t.len.toNat)
        (fun past _ roomy => recvRound_play contract past roomy) past roomy
      refine ⟨past', r, t, returns, few, ?_⟩
      rw [recvIntoBuffer, counted]
      exact recvLoop_play contract roomy returns (Nat.le_refl _)
    · intro past₁ t reaches
      have roomy' := roomy_of_reaches contract roomy reaches
      exact ⟨roomy'.fits, toNat_sub_add roomy'.fits⟩
  · have counted' : Transfer.Counted ⟨buffer, len, 0⟩ := counted
    obtain ⟨past', ⟨s, t⟩, returns, few⟩ := Loop.returns_of_measure
      (fun t : Transfer => t.len.toNat)
      (fun past _ counted => sendRound_play contract past counted) past counted'
    refine ⟨past', s, t, returns, few, ?_⟩
    rw [sendFromBuffer, counted]
    exact sendLoop_play contract counted' returns (Nat.le_refl _)
  · intro past₁ t reaches s answer
    have within := contract past₁ (.send side fd (t.buffer.take t.len.toNat) .noSignal)
    rw [answer] at within
    have taken : s ≤ t.len.toNat := Nat.le_trans within (List.length_take_le _ _)
    exact ⟨taken, toNat_sub_ofNat taken⟩

/-- A peer that always has one more byte, and takes one at a time. -/
def eager : Peer Answer
  | _, .recv _ _ n => if 0 < n then .data [0] else .eof
  | _, .send _ _ data _ => .sent (min 1 data.length)
  | _, .time => 0
  | _, .malloc => true
  | _, .hasValidAuth _ => true
  | _, .gethostbyname _ => none
  | _, .socket => none
  | _, .connect .. => .error
  | _, .getsockopt _ => .failed
  | _, .epollAdd .. => true
  | _, .epollMod .. => true
  | _, .epollDel .. => true
  | _, .close .. => ()
  | _, .accept => .again
  | _, .readTimer => true

theorem within_eager (past : History) (c : Call) : Within c (eager past c) := by
  cases c with
  | recv side fd n =>
      by_cases some' : 0 < n
      · rw [eager, if_pos some']
        exact ⟨by decide, some'⟩
      · rw [eager, if_neg some']
        trivial
  | send side fd data flags => exact Nat.min_le_right _ _
  | _ => trivial

/-- It fills a buffer of three bytes with two calls, and is told of its end by the third. -/
theorem transfers_end_eager :
    (∃ past' r t, Loop.Returns eager (recvRound .client 5 3) [] ⟨[1], 1, 0⟩ past' (r, t) ∧
      past'.length ≤ 3) ∧
    ∃ past' s t, Loop.Returns eager (sendRound .target 6) [] ⟨[1], 1, 0⟩ past' (s, t) ∧
      past'.length ≤ 2 := by
  obtain ⟨receiving, -⟩ := transfers_end eager within_eager .client 5 [] [1] 1 rfl
  obtain ⟨-, ⟨sent, s, t', sends, few', -⟩, -⟩ :=
    transfers_end eager within_eager .target 6 [] [1] 1 rfl
  obtain ⟨⟨past', r, t, returns, few, -⟩, -⟩ := receiving 3 (by decide)
  exact ⟨⟨past', r, t, returns, few⟩, sent, s, t', sends, few'⟩

end SimpleProxy.Theorems.Rounds
