import SimpleProxy.Main.Connection

/-!
# What the transfer loops do

One specification each for `recv_into_buffer` and `send_from_buffer`: which
calls they make, how the buffer relates to the bytes that moved, and what a
negative result is evidence of.
-/

namespace SimpleProxy

open Interact CString

/-! ## The loops as relations -/

/-- The loop of `recv_into_buffer`. -/
inductive Receiving (side : Side) (fd : Fd) (capacity : Nat) :
    Bytes → Int → History → Int → Bytes → Prop
  | more {buffer bs buffer' : Bytes} {total r : Int} {tr : History}
      (rest : Receiving side fd capacity (buffer ++ bs) (total + bs.length) tr r buffer') :
      Receiving side fd capacity buffer total
        (⟨.recv side fd (capacity - buffer.length), .data bs⟩ :: tr) r buffer'
  | ended {buffer : Bytes} {total : Int} :
      Receiving side fd capacity buffer total [⟨.recv side fd (capacity - buffer.length), .eof⟩]
        (if 0 < total then total else -2) buffer
  | blocked {buffer : Bytes} {total : Int} :
      Receiving side fd capacity buffer total
        [⟨.recv side fd (capacity - buffer.length), .again⟩] total buffer
  | failed {buffer : Bytes} {total : Int} :
      Receiving side fd capacity buffer total
        [⟨.recv side fd (capacity - buffer.length), .error⟩] (-1) buffer

/-- The loop of `send_from_buffer`. -/
inductive Sending (side : Side) (fd : Fd) : Bytes → Int → History → Int → Bytes → Prop
  | drained {total : Int} : Sending side fd [] total [] total []
  | more {buffer buffer' : Bytes} {total s : Int} {n : Nat} {tr : History} (some' : 0 < n)
      (rest : Sending side fd (buffer.drop n) (total + n) tr s buffer') :
      Sending side fd buffer total (⟨.send side fd buffer .noSignal, .sent n⟩ :: tr) s buffer'
  | refused {buffer : Bytes} {total : Int} :
      Sending side fd buffer total [⟨.send side fd buffer .noSignal, .sent 0⟩] (-1) buffer
  | blocked {buffer : Bytes} {total : Int} :
      Sending side fd buffer total [⟨.send side fd buffer .noSignal, .again⟩] total buffer
  | failed {buffer : Bytes} {total : Int} :
      Sending side fd buffer total [⟨.send side fd buffer .noSignal, .error⟩] (-1) buffer

variable {side : Side} {fd : Fd} {capacity rounds : Nat} {buffer buffer' : Bytes} {total r : Int}
  {tr : History}

theorem recvLoop_runs (h : (recvLoop side fd capacity rounds buffer total).Runs tr (r, buffer')) :
    Receiving side fd capacity buffer total tr r buffer' := by
  induction rounds generalizing buffer total tr with
  | zero => exact h.elim
  | succ rounds ih =>
      rw [recvLoop, Prog.runs_perform_bind] at h
      obtain ⟨answer, rest, rfl, h⟩ := h
      cases answer with
      | data bs => exact .more (ih h)
      | eof =>
          obtain ⟨rfl, h⟩ := h
          cases h
          exact .ended
      | again =>
          obtain ⟨rfl, h⟩ := h
          cases h
          exact .blocked
      | error =>
          obtain ⟨rfl, h⟩ := h
          cases h
          exact .failed

theorem sendLoop_runs (h : (sendLoop side fd rounds buffer total).Runs tr (r, buffer')) :
    Sending side fd buffer total tr r buffer' := by
  induction rounds generalizing buffer total tr with
  | zero =>
      cases buffer with
      | nil =>
          obtain ⟨rfl, h⟩ := h
          cases h
          exact .drained
      | cons b bs => exact h.elim
  | succ rounds ih =>
      cases buffer with
      | nil =>
          obtain ⟨rfl, h⟩ := h
          cases h
          exact .drained
      | cons b bs =>
          simp only [sendLoop] at h
          rw [Prog.runs_perform_bind] at h
          obtain ⟨answer, rest, rfl, h⟩ := h
          cases answer with
          | sent n =>
              dsimp only at h
              -- `send` returning 0 ends the loop like an error
              by_cases hn : 0 < n
              · rw [if_pos hn] at h
                exact .more hn (ih h)
              · rw [if_neg hn] at h
                obtain ⟨rfl, h⟩ := h
                cases h
                obtain rfl : n = 0 := by omega
                exact .refused
          | again =>
              obtain ⟨rfl, h⟩ := h
              cases h
              exact .blocked
          | error =>
              obtain ⟨rfl, h⟩ := h
              cases h
              exact .failed

/-! ## Specifications -/

/-- The socket of a side showed that its peer is gone: a `recv` asked for at
least one byte returned 0, or a `recv` or `send` failed for good. -/
def PeerGone (side : Side) (fd : Fd) (tr : History) : Prop :=
  (∃ n, 0 < n ∧ (⟨.recv side fd n, .eof⟩ : Io) ∈ tr) ∨
  (∃ n, (⟨.recv side fd n, .error⟩ : Io) ∈ tr) ∨
  (∃ data flags, (⟨.send side fd data flags, .error⟩ : Io) ∈ tr)

theorem PeerGone.mono {side : Side} {fd : Fd} {tr tr' : History} (h : PeerGone side fd tr)
    (hsub : tr ⊆ tr') : PeerGone side fd tr' := by
  rcases h with ⟨n, hn, hmem⟩ | ⟨n, hmem⟩ | ⟨data, flags, hmem⟩
  · exact .inl ⟨n, hn, hsub hmem⟩
  · exact .inr (.inl ⟨n, hsub hmem⟩)
  · exact .inr (.inr ⟨data, flags, hsub hmem⟩)

/-- The outcome of `recv_into_buffer`: only `recv` on the one socket, every
byte received is appended, and a negative result means that the peer is gone
or that the buffer had no room to begin with. -/
structure RecvSpec (side : Side) (fd : Fd) (capacity : Nat) (buffer : Bytes)
    (r : Int) (buffer' : Bytes) (tr : History) : Prop where
  calls : ∀ e ∈ tr, ∃ n, e.call = .recv side fd n
  appends : buffer' = buffer ++ received side tr
  fits : buffer.length ≤ capacity → buffer'.length ≤ capacity
  negative : r < 0 → PeerGone side fd tr ∨ capacity ≤ buffer.length

/-- A `recv` that delivers nothing ends the loop. -/
private theorem RecvSpec.stop {side : Side} {fd : Fd} {capacity n : Nat} {buffer : Bytes} {r : Int}
    {answer : RecvResult} (hnone : Io.received side ⟨.recv side fd n, answer⟩ = [])
    (hneg : r < 0 → PeerGone side fd [⟨.recv side fd n, answer⟩] ∨ capacity ≤ buffer.length) :
    RecvSpec side fd capacity buffer r buffer [⟨.recv side fd n, answer⟩] where
  calls e he := ⟨n, by rw [List.mem_singleton.mp he]⟩
  appends := by simp [hnone]
  fits := id
  negative := hneg

/-- Once bytes arrived, a negative result is an error further on. -/
theorem Receiving.spec (h : Receiving side fd capacity buffer total tr r buffer')
    (ok : ∀ e ∈ tr, Admits e.call e.answer = true) (htotal : 0 ≤ total) :
    RecvSpec side fd capacity buffer r buffer' tr ∧ (0 < total → r < 0 → PeerGone side fd tr) := by
  induction h with
  | @more buffer bs buffer' total r tr rest ih =>
      obtain ⟨hfirst, hrest⟩ := List.forall_mem_cons.mp ok
      have hbs : 0 < bs.length ∧ bs.length ≤ capacity - buffer.length := by
        simpa [Admits] using hfirst
      obtain ⟨spec, hneg⟩ := ih hrest (by omega)
      have hgone : r < 0 → PeerGone side fd
          (⟨.recv side fd (capacity - buffer.length), .data bs⟩ :: tr) := fun hlt =>
        (hneg (by omega) hlt).mono (List.subset_cons_self _ _)
      refine ⟨⟨?_, ?_, fun _ => spec.fits ?_, fun hlt => .inl (hgone hlt)⟩, fun _ hlt => hgone hlt⟩
      · intro e he
        rcases List.mem_cons.mp he with rfl | he
        · exact ⟨_, rfl⟩
        · exact spec.calls e he
      · simp [spec.appends, received, Io.received]
      · rw [List.length_append]
        omega
  | @ended buffer total =>
      refine ⟨.stop rfl fun _ => ?_, fun hpos hlt => ?_⟩
      · -- asked for at least one byte unless the buffer is full
        by_cases hfull : capacity ≤ buffer.length
        · exact .inr hfull
        · exact .inl (.inl ⟨capacity - buffer.length, by omega, by simp⟩)
      · rw [if_pos hpos] at hlt
        omega
  | blocked =>
      exact ⟨.stop rfl fun hlt => absurd hlt (Int.not_lt.mpr htotal),
        fun _ hlt => absurd hlt (Int.not_lt.mpr htotal)⟩
  | @failed buffer total =>
      have hgone : PeerGone side fd [⟨.recv side fd (capacity - buffer.length), .error⟩] :=
        .inr (.inl ⟨_, List.mem_singleton.mpr rfl⟩)
      exact ⟨.stop rfl fun _ => .inl hgone, fun _ _ => hgone⟩

theorem recvIntoBuffer_spec (side : Side) (fd : Fd) (buffer : Bytes) (capacity : Nat)
    (h : History) :
    (recvIntoBuffer side fd buffer capacity).wp anyAnswers
      (fun res h' => ∃ tr, h' = h ++ tr ∧ RecvSpec side fd capacity buffer res.1 res.2 tr) h := by
  apply Prog.wp_of_runs
  intro tr res h' run hk
  obtain ⟨ok, rfl⟩ := recorder_run.mp hk
  exact ⟨tr, rfl, ((recvLoop_runs run).spec ok (Int.le_refl 0)).1⟩

/-- The outcome of `send_from_buffer`: only `send` on the one socket, the bytes
the peer accepted leave the front of the buffer, and a negative result means
that the peer is gone. -/
structure SendSpec (side : Side) (fd : Fd) (buffer : Bytes)
    (s : Int) (buffer' : Bytes) (tr : History) : Prop where
  calls : ∀ e ∈ tr, ∃ data, e.call = .send side fd data .noSignal
  drains : buffer = accepted side tr ++ buffer'
  negative : s < 0 → PeerGone side fd tr

private theorem SendSpec.nothing {side : Side} {fd : Fd} {total : Int} (htotal : 0 ≤ total) :
    SendSpec side fd [] total [] [] where
  calls := by simp
  drains := by simp
  negative hlt := absurd hlt (Int.not_lt.mpr htotal)

/-- A `send` that is not accepted ends the loop. -/
private theorem SendSpec.stop {side : Side} {fd : Fd} {buffer : Bytes} {s : Int}
    {answer : SendResult} (hnone : Io.accepted side ⟨.send side fd buffer .noSignal, answer⟩ = [])
    (hneg : s < 0 → PeerGone side fd [⟨.send side fd buffer .noSignal, answer⟩]) :
    SendSpec side fd buffer s buffer [⟨.send side fd buffer .noSignal, answer⟩] where
  calls e he := ⟨buffer, by rw [List.mem_singleton.mp he]⟩
  drains := by simp [hnone]
  negative := hneg

theorem Sending.spec (h : Sending side fd buffer total tr r buffer')
    (ok : ∀ e ∈ tr, Admits e.call e.answer = true) (htotal : 0 ≤ total) :
    SendSpec side fd buffer r buffer' tr := by
  induction h with
  | drained => exact .nothing htotal
  | @more buffer buffer' total r n tr some' rest ih =>
      obtain ⟨hfirst, hrest⟩ := List.forall_mem_cons.mp ok
      have spec := ih hrest (by omega)
      refine ⟨?_, ?_, fun hlt => (spec.negative hlt).mono (List.subset_cons_self _ _)⟩
      · intro e he
        rcases List.mem_cons.mp he with rfl | he
        · exact ⟨_, rfl⟩
        · exact spec.calls e he
      · calc buffer = buffer.take n ++ buffer.drop n := (List.take_append_drop n _).symm
          _ = buffer.take n ++ (accepted side tr ++ buffer') := by rw [← spec.drains]
          _ = _ := by simp [accepted, Io.accepted]
  | refused =>
      -- a `send` of nothing is not within the socket contract
      have := ok _ (List.mem_singleton_self _)
      simp [Admits] at this
  | blocked => exact .stop rfl fun hlt => absurd hlt (Int.not_lt.mpr htotal)
  | failed => exact .stop rfl fun _ => .inr (.inr ⟨_, _, List.mem_singleton.mpr rfl⟩)

theorem sendFromBuffer_spec (side : Side) (fd : Fd) (buffer : Bytes) (h : History) :
    (sendFromBuffer side fd buffer).wp anyAnswers
      (fun res h' => ∃ tr, h' = h ++ tr ∧ SendSpec side fd buffer res.1 res.2 tr) h := by
  apply Prog.wp_of_runs
  intro tr res h' run hk
  obtain ⟨ok, rfl⟩ := recorder_run.mp hk
  exact ⟨tr, rfl, (sendLoop_runs run).spec ok (Int.le_refl 0)⟩

/-! ## Streams through a loop that touches one socket -/

theorem RecvSpec.accepted_eq_nil {side : Side} {fd : Fd} {capacity : Nat} {buffer buffer' : Bytes}
    {r : Int} {tr : History} (hspec : RecvSpec side fd capacity buffer r buffer' tr) (s : Side) :
    accepted s tr = [] := by
  refine List.flatMap_eq_nil_iff.mpr fun e he => ?_
  obtain ⟨n, hcall⟩ := hspec.calls e he
  obtain ⟨_, answer⟩ := e
  cases hcall
  rfl

theorem RecvSpec.received_other {side : Side} {fd : Fd} {capacity : Nat} {buffer buffer' : Bytes}
    {r : Int} {tr : History} (hspec : RecvSpec side fd capacity buffer r buffer' tr) :
    received side.other tr = [] := by
  refine List.flatMap_eq_nil_iff.mpr fun e he => ?_
  obtain ⟨n, hcall⟩ := hspec.calls e he
  obtain ⟨_, answer⟩ := e
  cases hcall
  cases answer <;> simp [Io.received, (Side.other_ne side).symm]

theorem SendSpec.received_eq_nil {side : Side} {fd : Fd} {buffer buffer' : Bytes} {s : Int}
    {tr : History} (hspec : SendSpec side fd buffer s buffer' tr) (t : Side) :
    received t tr = [] := by
  refine List.flatMap_eq_nil_iff.mpr fun e he => ?_
  obtain ⟨data, hcall⟩ := hspec.calls e he
  obtain ⟨_, answer⟩ := e
  cases hcall
  rfl

theorem SendSpec.accepted_other {side : Side} {fd : Fd} {buffer buffer' : Bytes} {s : Int}
    {tr : History} (hspec : SendSpec side fd buffer s buffer' tr) :
    accepted side.other tr = [] := by
  refine List.flatMap_eq_nil_iff.mpr fun e he => ?_
  obtain ⟨data, hcall⟩ := hspec.calls e he
  obtain ⟨_, answer⟩ := e
  cases hcall
  cases answer <;> simp [Io.accepted, (Side.other_ne side).symm]

/-! ## Orderly transfers -/

/-- A `recv`, or a `send` of the relay, failed for good. -/
def Io.fails : Io → Bool
  | ⟨.recv .., .error⟩ => true
  | ⟨.send _ _ _ .noSignal, .error⟩ => true
  | _ => false

/-- No transfer failed. -/
def Orderly (tr : History) : Prop := ∀ e ∈ tr, e.fails = false

/-- Without an error, only an end of stream in front of any data is negative. -/
theorem Receiving.orderly (h : Receiving side fd capacity buffer total tr r buffer')
    (ok : ∀ e ∈ tr, Admits e.call e.answer = true) (orderly : Orderly tr) (htotal : 0 ≤ total)
    (neg : r < 0) : total = 0 ∧ received side tr = [] := by
  induction h with
  | @more buffer bs buffer' total r tr rest ih =>
      obtain ⟨hfirst, hrest⟩ := List.forall_mem_cons.mp ok
      have hbs : 0 < bs.length ∧ bs.length ≤ capacity - buffer.length := by
        simpa [Admits] using hfirst
      have := (ih hrest (List.forall_mem_cons.mp orderly).2 (by omega) neg).1
      omega
  | ended =>
      split at neg
      · omega
      · exact ⟨by omega, rfl⟩
  | blocked => omega
  | failed => cases orderly _ (List.mem_singleton_self _)

theorem Sending.orderly (h : Sending side fd buffer total tr r buffer')
    (ok : ∀ e ∈ tr, Admits e.call e.answer = true) (orderly : Orderly tr) (htotal : 0 ≤ total) :
    0 ≤ r := by
  induction h with
  | drained => exact htotal
  | more some' rest ih =>
      exact ih (List.forall_mem_cons.mp ok).2 (List.forall_mem_cons.mp orderly).2 (by omega)
  | refused =>
      have := ok _ (List.mem_singleton_self _)
      simp [Admits] at this
  | blocked => exact htotal
  | failed => cases orderly _ (List.mem_singleton_self _)

end SimpleProxy
