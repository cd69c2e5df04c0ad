import SimpleProxy.Logic.Acts
import SimpleProxy.Logic.Forward

/-!
# The registry

The slots of `clients[]` and the live client states are in bijection, so a
timer event ticks every live client exactly once (`Sweeps.client`). With this,
`World.Step.client` says what one step of the loop does to one client.
-/

namespace SimpleProxy

open Interact CString

/-- `clients[]` and the live states point to each other. -/
structure Registry (mem : Memory) : Prop where
  slots : ∀ i c, mem.clients[i]? = some (some c) → ∃ st, mem.heap c = some st ∧ st.slot = i
  entries : ∀ c st, mem.heap c = some st → mem.clients[st.slot]? = some (some c)
  length : mem.clients.length = maxClients
  unborn : ∀ c, mem.nextId ≤ c → mem.heap c = none

variable {mem mem' : Memory} {k k' : Kernel} {c : ClientId} {st st' : ClientState}
  {slot : Nat} {slots : List Nat} {tr : History}

theorem TransferSpec.slot_eq (h : TransferSpec st st' tr) : st'.slot = st.slot := by
  rw [h.frame]

theorem Move.slot_eq {ev : ClientEvent} {again : Bool} (h : Move ev st tr st' again)
    (ok : Admitted tr) : st'.slot = st.slot := by
  by_cases phase : st.state = .forwarding
  · obtain ⟨result, st₁, run, -, rfl⟩ := h.of_forwarding phase
    have spec : TransferSpec st st₁ tr := (connectionForward_runs run ok).1
    split <;> exact spec.slot_eq
  · rw [h.frame phase]

theorem Moves.slot_eq {ev : ClientEvent} (h : Moves ev st tr st') (ok : Admitted tr) :
    st'.slot = st.slot := by
  induction h with
  | ignored => rfl
  | last _ move => exact move.slot_eq ok
  | again _ move _ ih => exact (ih ok.append.2).trans (move.slot_eq ok.append.1)

theorem MadeRoom.expired_eq (h : MadeRoom st tr st') : st'.expired = st.expired := by
  rw [h.frame]

theorem Replied.expired_eq (h : Replied st tr st') : st'.expired = st.expired := by
  rw [h.frame]

theorem Opened.expired_eq (h : Opened st tr st') : st'.expired = st.expired := by
  rw [h.frame]

theorem TransferSpec.expired_eq (h : TransferSpec st st' tr) : st'.expired = st.expired := by
  rw [h.frame]

/-- Only `handle_closing` expires a client, and closes its descriptors. -/
theorem Move.expires {ev : ClientEvent} {again : Bool} (h : Move ev st tr st' again)
    (ok : Admitted tr) :
    st'.expired = st.expired ∨
      again = false ∧ st.state = .closing ∧ ∀ side, st'.fd side = -1 := by
  cases h with
  | readFailed _ room => exact .inl room.expired_eq
  | readNothing _ room => exact .inl room.expired_eq
  | readPart _ _ room => exact .inl room.expired_eq
  | readHeader _ _ room => exact .inl room.expired_eq
  | started _ _ opened => exact .inl opened.expired_eq
  | addFailed _ _ opened => exact .inl opened.expired_eq
  | connected _ reply => exact .inl reply.expired_eq
  | relayed _ run => exact .inl (connectionForward_runs run ok).1.expired_eq
  | relayEnded _ _ run => exact .inl (connectionForward_runs run ok).1.expired_eq
  | closed phase => exact .inr ⟨rfl, phase, fun side => by cases side <;> rfl⟩
  | _ => exact .inl rfl

/-- A client that expires in one of its events has closed its descriptors. -/
theorem Moves.expires {ev : ClientEvent} (h : Moves ev st tr st') (ok : Admitted tr)
    (live : st.expired = false) (expired : st'.expired = true) (side : Side) :
    st'.fd side = -1 := by
  induction h with
  | ignored =>
      rw [live] at expired
      cases expired
  | last _ move =>
      rcases move.expires ok with same | ⟨-, -, closed⟩
      · rw [same, live] at expired
        cases expired
      · exact closed side
  | again _ move _ ih =>
      rcases move.expires ok.append.1 with same | ⟨hlast, -⟩
      · exact ih ok.append.2 (same.trans live) expired
      · cases hlast

theorem Ticked.slot_eq (h : Ticked st tr (some st')) : st'.slot = st.slot := by
  cases h <;> rfl

namespace Registry

theorem boot : Registry Memory.boot where
  slots i c h := by
    simp [Memory.boot, List.getElem?_replicate] at h
  entries c st h := by cases h
  length := List.length_replicate
  unborn _ _ := rfl

/-- A live client has a number that was given out. -/
theorem born (reg : Registry mem) (live : mem.heap c = some st) : c < mem.nextId := by
  apply Nat.lt_of_not_ge
  intro unborn
  rw [reg.unborn c unborn] at live
  cases live

/-- A state may change, but for its slot. -/
theorem write (reg : Registry mem) (live : mem.heap c = some st) (same : st'.slot = st.slot) :
    Registry (mem.write c st') where
  slots i d h := by
    obtain ⟨s, hs, hi⟩ := reg.slots i d h
    by_cases hd : d = c
    · subst hd
      obtain rfl : st = s := Option.some.inj (live.symm.trans hs)
      exact ⟨st', by simp [Memory.write], same.trans hi⟩
    · exact ⟨s, by simpa [Memory.write, hd] using hs, hi⟩
  entries d s h := by
    by_cases hd : d = c
    · subst hd
      obtain rfl : st' = s := by simpa [Memory.write] using h
      rw [same]
      exact reg.entries d st live
    · exact reg.entries d s (by simpa [Memory.write, hd] using h)
  length := reg.length
  unborn d hd := by
    have hne : d ≠ c := Nat.ne_of_gt (Nat.lt_of_lt_of_le (reg.born live) hd)
    simpa [Memory.write, hne] using reg.unborn d hd

/-- Only one client has a given slot. -/
theorem slot_inj (reg : Registry mem) {d : ClientId} {s : ClientState}
    (h : mem.heap c = some st) (h' : mem.heap d = some s) (same : st.slot = s.slot) : c = d := by
  have := reg.entries c st h
  rw [same, reg.entries d s h'] at this
  exact (Option.some.inj (Option.some.inj this)).symm

/-- A client leaves the registry and the heap together. -/
theorem remove (reg : Registry mem) (live : mem.heap c = some st) :
    Registry ({ mem with clients := stateRegistryRemove mem.clients st.slot }.free c) where
  slots i d h := by
    have hi : i ≠ st.slot := by
      rintro rfl
      simp [Memory.free, stateRegistryRemove, List.getElem?_set] at h
    have h : mem.clients[i]? = some (some d) := by
      simpa [Memory.free, stateRegistryRemove, List.getElem?_set_ne hi.symm] using h
    obtain ⟨s, hs, hslot⟩ := reg.slots i d h
    have hd : d ≠ c := by
      rintro rfl
      obtain rfl : st = s := Option.some.inj (live.symm.trans hs)
      exact hi hslot.symm
    exact ⟨s, by simpa [Memory.free, hd] using hs, hslot⟩
  entries d s h := by
    have hd : d ≠ c := by
      rintro rfl
      simp [Memory.free] at h
    have h : mem.heap d = some s := by simpa [Memory.free, hd] using h
    have hslot : st.slot ≠ s.slot := fun same => hd (reg.slot_inj live h same).symm
    show (mem.clients.set st.slot none)[s.slot]? = some (some d)
    rw [List.getElem?_set_ne hslot]
    exact reg.entries d s h
  length := by simp [Memory.free, stateRegistryRemove, reg.length]
  unborn d hd := by
    by_cases hne : d = c
    · simp [Memory.free, hne]
    · simpa [Memory.free, hne] using reg.unborn d hd

/-- A new client enters the heap and the first free slot together. -/
theorem add {clients : List (Option ClientId)} (reg : Registry mem)
    (added : stateRegistryAdd mem.clients mem.nextId = some (slot, clients))
    (fresh : st.slot = slot) :
    Registry ({ mem with nextId := mem.nextId + 1, clients := clients }.write mem.nextId st) := by
  obtain ⟨i, hfound, heq⟩ := Option.map_eq_some_iff.mp added
  obtain ⟨rfl, rfl⟩ := Prod.mk.inj heq
  obtain ⟨hlt, hfree, -⟩ := List.findIdx?_eq_some_iff_getElem.mp hfound
  have hnone : mem.clients[i]? = some none := by
    rw [List.getElem?_eq_getElem hlt]
    exact congrArg some (Option.isNone_iff_eq_none.mp hfree)
  have hunborn := reg.unborn mem.nextId (Nat.le_refl _)
  refine ⟨fun j d h => ?_, fun d s h => ?_, ?_, fun d hd => ?_⟩
  -- the slot of the new client, and the slots of the others
  · by_cases hj : j = i
    · subst hj
      have h : (mem.clients.set j (some mem.nextId))[j]? = some (some d) := h
      rw [List.getElem?_set_self hlt] at h
      cases h
      exact ⟨st, by simp [Memory.write], fresh⟩
    · have h : (mem.clients.set i (some mem.nextId))[j]? = some (some d) := h
      rw [List.getElem?_set_ne (Ne.symm hj)] at h
      obtain ⟨s, hs, hslot⟩ := reg.slots j d h
      have hd : d ≠ mem.nextId := by
        rintro rfl
        rw [hunborn] at hs
        cases hs
      exact ⟨s, by simpa [Memory.write, hd] using hs, hslot⟩
  · show (mem.clients.set i (some mem.nextId))[s.slot]? = some (some d)
    by_cases hd : d = mem.nextId
    · subst hd
      obtain rfl : st = s := by simpa [Memory.write] using h
      rw [fresh, List.getElem?_set_self hlt]
    · have hs : mem.heap d = some s := by simpa [Memory.write, hd] using h
      have hslot : i ≠ s.slot := fun same => by
        rw [same, reg.entries d s hs] at hnone
        cases hnone
      rw [List.getElem?_set_ne hslot]
      exact reg.entries d s hs
  · simp [Memory.write, reg.length]
  · have hne : d ≠ mem.nextId := Nat.ne_of_gt hd
    simpa [Memory.write, hne] using reg.unborn d (Nat.le_of_succ_le hd)

/-- A client number is used up. -/
theorem skip (reg : Registry mem) : Registry { mem with nextId := mem.nextId + 1 } :=
  ⟨reg.slots, reg.entries, reg.length, fun c hc => reg.unborn c (Nat.le_of_succ_le hc)⟩

theorem birth (reg : Registry mem) (birth : Birth mem k mem' k') : Registry mem' := by
  have freed : Registry ({ mem with nextId := mem.nextId + 1 }.free mem.nextId) := by
    have unborn : { mem with nextId := mem.nextId + 1 }.heap mem.nextId = none :=
      reg.unborn mem.nextId (Nat.le_refl _)
    rw [Memory.free_of_absent unborn]
    exact reg.skip
  cases birth with
  | refused => exact reg.skip
  | unregistered _ left =>
      rcases left with rfl | rfl
      · exact reg.skip
      · exact freed
  | turnedAway => exact freed
  | registered _ added => exact reg.add added rfl

theorem sweep (reg : Registry mem) (sweep : Sweep slot mem k mem' k') : Registry mem' := by
  cases sweep with
  | empty => exact reg
  | kept _ live ticked => exact reg.write live ticked.slot_eq
  | freed _ live => exact reg.remove live

theorem kept : Kept fun mem _ => Registry mem where
  birth := fun reg birth => reg.birth birth
  readTimer := fun reg _ => reg
  sweep := fun reg sweep => reg.sweep sweep
  event := fun reg live moves ran => reg.write live (moves.slot_eq ran.admitted)

/-- In every reachable world the registry is in order. -/
theorem reachable {w : World} (h : proxy.Reachable w) : Registry w.mem :=
  kept.reachable (by rintro _ ⟨serverSock, epollFd, timerFd, -, -, -, -, rfl⟩; exact boot) h

end Registry

/-! ## One timer event -/

/-- What a pass over some slots did to client `c`: ticked once if it has one of
them, otherwise nothing. -/
def Swept (slots : List Nat) (c : ClientId) (mem mem' : Memory) (k k' : Kernel) : Prop :=
  match mem.heap c with
  | none => mem'.heap c = none ∧ k'.history c = k.history c
  | some st =>
    if st.slot ∈ slots then
      ∃ tr, Ticked st tr (mem'.heap c) ∧ k'.history c = k.history c ++ tr
    else mem'.heap c = some st ∧ k'.history c = k.history c

/-- Nothing happens to a client that has none of the slots. -/
theorem Swept.apart (hslot : ∀ st, mem.heap c = some st → st.slot ∉ slots)
    (hheap : mem'.heap c = mem.heap c) (hhist : k'.history c = k.history c) :
    Swept slots c mem mem' k k' := by
  unfold Swept
  cases hc : mem.heap c with
  | none => exact ⟨hheap.trans hc, hhist⟩
  | some st =>
      dsimp only
      rw [if_neg (hslot st hc)]
      exact ⟨hheap.trans hc, hhist⟩

theorem Sweep.client (reg : Registry mem) (sweep : Sweep slot mem k mem' k') (c : ClientId) :
    Swept [slot] c mem mem' k k' := by
  have ticked : ∀ {d : ClientId} {st : ClientState} {tr : History},
      mem.clients[slot]? = some (some d) → mem.heap d = some st → Ticked st tr (mem'.heap d) →
      (∀ c, c ≠ d → mem'.heap c = mem.heap c) → k.Ran (.client d) tr k' →
      Swept [slot] c mem mem' k k' := by
    intro d st tr entry live ticked hothers ran
    by_cases hcd : c = d
    · subst hcd
      obtain ⟨s, hs, hslot⟩ := reg.slots slot c entry
      obtain rfl : st = s := Option.some.inj (live.symm.trans hs)
      unfold Swept
      rw [live]
      dsimp only
      rw [if_pos (List.mem_singleton.mpr hslot)]
      exact ⟨tr, ticked, ran.history⟩
    · refine Swept.apart (fun s hs hslot => ?_) (hothers c hcd)
        (ran.history_other (by simpa using Ne.symm hcd))
      have := reg.entries c s hs
      rw [List.mem_singleton.mp hslot, entry] at this
      exact hcd (Option.some.inj (Option.some.inj this)).symm
  cases sweep with
  | empty hnone =>
      refine Swept.apart (fun st hst hslot => ?_) rfl rfl
      exact hnone c (List.mem_singleton.mp hslot ▸ reg.entries c st hst)
  | kept entry live hticked ran =>
      exact ticked entry live (by simpa [Memory.write] using hticked)
        (fun d hd => by simp [Memory.write, hd]) ran
  | freed entry live hticked ran =>
      exact ticked entry live (by simpa [Memory.free] using hticked)
        (fun d hd => by simp [Memory.free, hd]) ran

theorem Sweeps.client (reg : Registry mem) (nodup : slots.Nodup)
    (sweeps : Sweeps slots mem k mem' k') (c : ClientId) : Swept slots c mem mem' k k' := by
  induction sweeps with
  | done => exact Swept.apart (fun _ _ => by simp) rfl rfl
  | @slot slot slots mem mem₁ mem' k k₁ k' sweep rest ih =>
      obtain ⟨hnot, nodup⟩ := List.nodup_cons.mp nodup
      have first := sweep.client reg c
      have second := ih (reg.sweep sweep) nodup
      unfold Swept at first second ⊢
      cases hc : mem.heap c with
      | none =>
          simp only [hc] at first
          simp only [first.1] at second
          exact ⟨second.1, second.2.trans first.2⟩
      | some st =>
          simp only [hc, List.mem_singleton] at first
          by_cases hslot : st.slot = slot
          · -- ticked now, and not again: its slot is not among the others
            rw [if_pos hslot] at first
            obtain ⟨tr, hticked, hhist⟩ := first
            dsimp only
            rw [if_pos (by simp [hslot])]
            refine ⟨tr, ?_⟩
            cases hc₁ : mem₁.heap c with
            | none =>
                simp only [hc₁] at second hticked
                exact ⟨second.1 ▸ hticked, second.2.trans hhist⟩
            | some st₁ =>
                simp only [hc₁] at second hticked
                rw [if_neg (by rw [hticked.slot_eq, hslot]; exact hnot)] at second
                exact ⟨second.1 ▸ hticked, second.2.trans hhist⟩
          · rw [if_neg hslot] at first
            simp only [first.1] at second
            rw [first.2] at second
            simpa [hslot] using second

end SimpleProxy
