import SimpleProxy.Logic.Acts

/-!
# From one client to all of them

Most properties are about a single client: its state, the calls made for it, its
descriptors. `RelyGuarantee` lists what such a property has to satisfy for
the things that happen to a client, together with what every party guarantees
to the others and the property relies on; `RelyGuarantee.reachable` carries it
to every client in every reachable world. `SessionInv` is the special case of
a property that looks at nothing but the client's own calls, where there is
nothing to rely on.
-/

namespace SimpleProxy

open Interact CString

/-! ## Properties of one client -/

/-- `P` is a property of a client (of its state while it is live, of what it left
behind afterwards), `U` what it starts from, and `F` what the calls of one
party do to the kernel as far as the others are concerned. -/
structure RelyGuarantee (U : ClientId → Kernel → Prop)
    (P : ClientId → Option ClientState → Kernel → Prop) (F : Party → Kernel → Kernel → Prop) :
    Prop where
  refl : ∀ {who k}, F who k k
  trans : ∀ {who k k₁ k'}, F who k k₁ → F who k₁ k' → F who k k'
  apart : ∀ {who c s k k'}, F who k k' → who ≠ .client c → P c s k → P c s k'
  unborn : ∀ {who c k k'}, F who k k' → who ≠ .client c → U c k → U c k'
  readTimer : ∀ {k ok k'}, k.Ran .proxy [⟨.readTimer, ok⟩] k' → F .proxy k k'
  refused : ∀ {c k r k'}, U c k → k.Ran (.client c) [⟨.accept, r⟩] k' →
    P c none k' ∧ F (.client c) k k'
  born : ∀ {c k fd tr s k'}, U c k → Registered fd tr s →
    k.Ran (.client c) (⟨.accept, .conn fd⟩ :: tr) k' → P c s k' ∧ F (.client c) k k'
  slot : ∀ {c st k} n, P c (some st) k → P c (some { st with slot := n }) k
  move : ∀ {c st k ev tr st' again k'}, P c (some st) k → st.expired = false →
    Move ev st tr st' again → k.Ran (.client c) tr k' → P c (some st') k' ∧ F (.client c) k k'
  tick : ∀ {c st k tr s k'}, P c (some st) k → Ticked st tr s → k.Ran (.client c) tr k' →
    P c s k' ∧ F (.client c) k k'
  release : ∀ {c st k tr k'}, P c (some st) k → Released st tr → k.Ran (.client c) tr k' →
    P c none k' ∧ F (.client c) k k'

namespace RelyGuarantee

variable {U : ClientId → Kernel → Prop} {P : ClientId → Option ClientState → Kernel → Prop}
  {F : Party → Kernel → Kernel → Prop}

/-- The property, for all clients at once. -/
structure Holds (U : ClientId → Kernel → Prop)
    (P : ClientId → Option ClientState → Kernel → Prop) (mem : Memory) (k : Kernel) : Prop where
  clients : ∀ c, c < mem.nextId → P c (mem.heap c) k
  unborn : ∀ c, mem.nextId ≤ c → mem.heap c = none ∧ U c k

variable {mem mem' : Memory} {k k' : Kernel} {c : ClientId} {st : ClientState} {tr : History}

theorem Holds.lt_nextId (h : Holds U P mem k) (hst : mem.heap c = some st) : c < mem.nextId := by
  rcases Nat.lt_or_ge c mem.nextId with hlt | hge
  · exact hlt
  · rw [(h.unborn c hge).1] at hst
    cases hst

theorem Holds.live (h : Holds U P mem k) (hst : mem.heap c = some st) : P c (some st) k :=
  hst ▸ h.clients c (h.lt_nextId hst)

/-- What every move keeps, every event keeps. -/
theorem moves (inv : RelyGuarantee U P F) {ev : ClientEvent} {st' : ClientState}
    (hst : P c (some st) k) (hmoves : Moves ev st tr st') (ran : k.Ran (.client c) tr k') :
    P c (some st') k' ∧ F (.client c) k k' := by
  induction hmoves generalizing k with
  | ignored _ =>
      rw [Kernel.ran_nil.mp ran]
      exact ⟨hst, inv.refl⟩
  | last live hmove => exact inv.move hst live hmove ran
  | again live hmove _ ih =>
      obtain ⟨k₁, ran₁, ran₂⟩ := Kernel.ran_append.mp ran
      obtain ⟨hst₁, hF₁⟩ := inv.move hst live hmove ran₁
      obtain ⟨hst', hF₂⟩ := ih hst₁ ran₂
      exact ⟨hst', inv.trans hF₁ hF₂⟩

/-- Client `c`, one that exists or the next one, did something. -/
theorem Holds.act (inv : RelyGuarantee U P F) (h : Holds U P mem k)
    (hheap : ∀ d, d ≠ c → mem'.heap d = mem.heap d) (hnext : mem.nextId ≤ mem'.nextId)
    (hborn : c < mem'.nextId) (hall : ∀ d, d < mem'.nextId → d < mem.nextId ∨ d = c)
    (hself : P c (mem'.heap c) k') (hF : F (.client c) k k') : Holds U P mem' k' := by
  have apart : ∀ d, d ≠ c → Party.client c ≠ .client d := fun d hd => by simpa using hd.symm
  refine ⟨fun d hd => ?_, fun d hd => ?_⟩
  · by_cases hdc : d = c
    · subst hdc
      exact hself
    · rw [hheap d hdc]
      exact inv.apart hF (apart d hdc) (h.clients d ((hall d hd).resolve_right hdc))
  · have hdc : d ≠ c := Nat.ne_of_gt (Nat.lt_of_lt_of_le hborn hd)
    obtain ⟨hnone, hU⟩ := h.unborn d (Nat.le_trans hnext hd)
    exact ⟨by rw [hheap d hdc, hnone], inv.unborn hF (apart d hdc) hU⟩

theorem holds_birth (inv : RelyGuarantee U P F) (h : Holds U P mem k)
    (birth : Birth mem k mem' k') : Holds U P mem' k' := by
  obtain ⟨hnone, hU⟩ := h.unborn mem.nextId (Nat.le_refl _)
  have hall : ∀ d, d < mem.nextId + 1 → d < mem.nextId ∨ d = mem.nextId :=
    fun d => Nat.lt_succ_iff_lt_or_eq.mp
  have gone : ∀ {k'}, P mem.nextId none k' → F (.client mem.nextId) k k' →
      Holds U P { mem with nextId := mem.nextId + 1 } k' := fun hP hF =>
    h.act inv (fun _ _ => rfl) (Nat.le_succ _) (Nat.lt_succ_self _) hall (hnone.symm ▸ hP) hF
  have freed : { mem with nextId := mem.nextId + 1 }.free mem.nextId =
      { mem with nextId := mem.nextId + 1 } := Memory.free_of_absent hnone
  cases birth with
  | refused _ ran =>
      obtain ⟨hP, hF⟩ := inv.refused hU ran
      exact gone hP hF
  | unregistered failed left ran =>
      obtain ⟨hP, hF⟩ := inv.born hU failed ran
      rw [freed, or_self] at left
      rw [left]
      exact gone hP hF
  | turnedAway created full release ran =>
      obtain ⟨k₁, ran₁, ran₂⟩ := Kernel.ran_append.mp ran
      obtain ⟨hP₁, hF₁⟩ := inv.born hU created ran₁
      obtain ⟨hP₂, hF₂⟩ := inv.release hP₁ release ran₂
      rw [freed]
      exact gone hP₂ (inv.trans hF₁ hF₂)
  | registered created added ran =>
      obtain ⟨hP, hF⟩ := inv.born hU created ran
      refine h.act inv (fun d hd => ?_) (Nat.le_succ _) (Nat.lt_succ_self _) hall ?_ hF
      · simp [Memory.write, hd]
      · simpa [Memory.write] using inv.slot _ hP

theorem holds_kept (inv : RelyGuarantee U P F) : Kept (Holds U P) where
  birth := inv.holds_birth
  readTimer := by
    intro mem k ok k' h ran
    have hF := inv.readTimer ran
    exact ⟨fun c hc => inv.apart hF (by simp) (h.clients c hc), fun c hc =>
      ⟨(h.unborn c hc).1, inv.unborn hF (by simp) (h.unborn c hc).2⟩⟩
  sweep := by
    intro slot mem k mem' k' h sweep
    cases sweep with
    | empty => exact h
    | kept _ live ticked ran =>
        obtain ⟨hP, hF⟩ := inv.tick (h.live live) ticked ran
        refine h.act inv (fun d hd => ?_) (Nat.le_refl _) (h.lt_nextId live) (fun d => .inl) ?_ hF
        · simp [Memory.write, hd]
        · simpa [Memory.write] using hP
    | freed _ live ticked ran =>
        obtain ⟨hP, hF⟩ := inv.tick (h.live live) ticked ran
        refine h.act inv (fun d hd => ?_) (Nat.le_refl _) (h.lt_nextId live) (fun d => .inl) ?_ hF
        · simp [Memory.free, hd]
        · simpa [Memory.free] using hP
  event := by
    intro mem k c st ev tr st' k' h live moves ran
    obtain ⟨hP, hF⟩ := inv.moves (h.live live) moves ran
    refine h.act inv (fun d hd => ?_) (Nat.le_refl _) (h.lt_nextId live) (fun d => .inl) ?_ hF
    · simp [Memory.write, hd]
    · simpa [Memory.write] using hP

theorem holds_boot {w : World} (hinit : ∀ c, U c w.kernel) (h : w.Booted) :
    Holds U P w.mem w.kernel := by
  obtain ⟨serverSock, epollFd, timerFd, -, -, -, -, rfl⟩ := h
  exact ⟨fun c hc => absurd hc (Nat.not_lt_zero c), fun c _ => ⟨rfl, hinit c⟩⟩

/-- A property of one client holds of every client in every reachable world. -/
theorem reachable (inv : RelyGuarantee U P F) (hinit : ∀ w : World, w.Booted → ∀ c, U c w.kernel)
    {w : World} (h : proxy.Reachable w) : Holds U P w.mem w.kernel :=
  inv.holds_kept.reachable (fun w hw => holds_boot (hinit w hw) hw) h

end RelyGuarantee

/-! ## Properties of the calls of one client -/

/-- What holds after a client was created, or looked after by the timer: it is
live, or it is gone. -/
def LiveOrGone (I : ClientState → History → Prop) (T : History → Prop) :
    Option ClientState → History → Prop
  | some st, h => I st h
  | none, h => T h

/-- What a property of one client's history (`I` while its state is live, `T` at
any time) has to satisfy to hold in every run. -/
structure SessionInv (I : ClientState → History → Prop) (T : History → Prop) : Prop where
  weaken : ∀ {st h}, I st h → T h
  start : T []
  refused : ∀ r, T [⟨.accept, r⟩]
  born : ∀ {fd tr res}, Registered fd tr res → Admitted tr →
    LiveOrGone I T res (⟨.accept, .conn fd⟩ :: tr)
  slot : ∀ {st h} n, I st h → I { st with slot := n } h
  move : ∀ {ev st tr st' again h}, I st h → st.expired = false → Move ev st tr st' again →
    Admitted tr → I st' (h ++ tr)
  tick : ∀ {st tr res h}, I st h → Ticked st tr res → Admitted tr → LiveOrGone I T res (h ++ tr)
  release : ∀ {st tr h}, I st h → Released st tr → Admitted tr → T (h ++ tr)

namespace SessionInv

variable {I : ClientState → History → Prop} {T : History → Prop}

/-- Two properties together. -/
theorem and {I' : ClientState → History → Prop} {T' : History → Prop} (inv : SessionInv I T)
    (inv' : SessionInv I' T') :
    SessionInv (fun st h => I st h ∧ I' st h) (fun h => T h ∧ T' h) where
  weaken both := ⟨inv.weaken both.1, inv'.weaken both.2⟩
  start := ⟨inv.start, inv'.start⟩
  refused r := ⟨inv.refused r, inv'.refused r⟩
  born := by
    intro fd tr res registered ok
    have first := inv.born registered ok
    have second := inv'.born registered ok
    cases res <;> exact ⟨first, second⟩
  slot n both := ⟨inv.slot n both.1, inv'.slot n both.2⟩
  move both live move ok := ⟨inv.move both.1 live move ok, inv'.move both.2 live move ok⟩
  tick := by
    intro st tr res h both ticked ok
    have first := inv.tick both.1 ticked ok
    have second := inv'.tick both.2 ticked ok
    cases res <;> exact ⟨first, second⟩
  release both released ok :=
    ⟨inv.release both.1 released ok, inv'.release both.2 released ok⟩

/-- The histories of the others stay as they are. -/
def OtherHistories (who : Party) (k k' : Kernel) : Prop :=
  ∀ c, who ≠ .client c → k'.history c = k.history c

theorem Ran.otherHistories {k k' : Kernel} {who : Party} {tr : History} (ran : k.Ran who tr k') :
    OtherHistories who k k' := fun _ => ran.history_other

theorem relyGuarantee (inv : SessionInv I T) :
    RelyGuarantee (fun c k => k.history c = []) (fun c s k => LiveOrGone I T s (k.history c))
      OtherHistories where
  refl := fun _ _ => rfl
  trans := fun h₁ h₂ c hc => (h₂ c hc).trans (h₁ c hc)
  apart := by
    -- what others do is not in the history of this client
    intro who c s k k' hF hwho hP
    rwa [hF c hwho]
  unborn := by
    intro who c k k' hF hwho hU
    rw [hF c hwho, hU]
  readTimer := fun ran => Ran.otherHistories ran
  refused := by
    intro c k r k' hU ran
    exact ⟨by simpa [ran.history, hU, LiveOrGone] using inv.refused r, Ran.otherHistories ran⟩
  born := by
    intro c k fd tr s k' hU registered ran
    refine ⟨?_, Ran.otherHistories ran⟩
    rw [ran.history, hU]
    exact inv.born registered ran.admitted.tail
  slot := fun n => inv.slot n
  move := by
    intro c st k ev tr st' again k' hP live move ran
    refine ⟨?_, Ran.otherHistories ran⟩
    rw [ran.history]
    exact inv.move hP live move ran.admitted
  tick := by
    intro c st k tr s k' hP ticked ran
    refine ⟨?_, Ran.otherHistories ran⟩
    rw [ran.history]
    exact inv.tick hP ticked ran.admitted
  release := by
    intro c st k tr k' hP released ran
    refine ⟨?_, Ran.otherHistories ran⟩
    rw [ran.history]
    exact inv.release hP released ran.admitted

/-- A property of one client's history holds of every client in every reachable
world. -/
theorem reachable (inv : SessionInv I T) {w : World} (h : proxy.Reachable w) (c : ClientId) :
    T (w.kernel.history c) ∧ ∀ st, w.mem.heap c = some st → I st (w.kernel.history c) := by
  have holds := inv.relyGuarantee.reachable
    (by rintro _ ⟨serverSock, epollFd, timerFd, -, -, -, -, rfl⟩ c; rfl) h
  refine ⟨?_, fun st hst => holds.live hst⟩
  rcases Nat.lt_or_ge c w.mem.nextId with hborn | hunborn
  · have hP := holds.clients c hborn
    cases hheap : w.mem.heap c with
    | none => rwa [hheap] at hP
    | some st =>
        rw [hheap] at hP
        exact inv.weaken hP
  · rw [(holds.unborn c hunborn).2]
    exact inv.start

end SessionInv

end SimpleProxy
