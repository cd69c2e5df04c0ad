import SimpleProxy.Logic.Descriptors
import SimpleProxy.Logic.Deeds

/-!
# Who speaks on a descriptor

The calls made for a client are what its handlers meant to read and write. What a peer
notices depends on whom the descriptor belongs to at that moment, so `Kernel.carried`
goes by the owner. As long as every target could be added, whoever reads or writes a
descriptor owns it (`byOwner_reachable`), and both are the same (`carried_eq_history`).
-/

namespace SimpleProxy

open Interact CString

/-- The descriptor a call reads or writes. -/
def Io.speaks? (e : Io) : Option Fd :=
  match e.call with
  | .recv _ fd _ => some fd
  | .send _ fd _ _ => some fd
  | _ => none

/-- Whom a call concerns: the owner of what is read or written, or else whoever makes it. -/
def TraceEntry.concerns (entry : TraceEntry) : Option Party :=
  if entry.io.speaks?.isSome then entry.owner else some entry.who

/-- What the descriptors of client `c` carried, and the other calls made for it. -/
def Kernel.carried (k : Kernel) (c : ClientId) : History :=
  k.trace.filterMap fun entry =>
    if entry.concerns = some (.client c) then some entry.io else none

theorem Kernel.carried_eq_history {k : Kernel} (h : k.ByOwner Io.speaks?) (c : ClientId) :
    k.carried c = k.history c := by
  refine List.filterMap_congr fun entry hentry => ?_
  have concerns : entry.concerns = some entry.who := by
    unfold TraceEntry.concerns
    split
    · exact h entry hentry ‹_›
    · rfl
  simp [concerns]

theorem Io.fd?_of_speaks (e : Io) (fd : Fd) (h : e.speaks? = some fd) : e.call.fd? = some fd := by
  obtain ⟨call, r⟩ := e
  cases call <;> first | exact h | cases h

/-! ## What a client speaks on -/

/-- The descriptors that the state of a client reads and writes are there. -/
structure Equipped (st : ClientState) : Prop where
  client : st.clientFd ≠ -1
  relaying : st.state = .forwarding → st.targetFd ≠ -1

/-- From the descriptors `held`, the calls speak on no others. -/
abbrev SpeaksOnOwn : List Fd → History → Prop := KeepsTo Io.speaks?

variable {held : List Fd} {fd : Fd} {side : Side} {tr t : History} {st st' : ClientState}
  {c : ClientId} {k k' : Kernel} {ev : ClientEvent} {again : Bool}

theorem UpkeepOnly.speaksNone (h : UpkeepOnly tr) : ∀ e ∈ tr, e.speaks? = none := by
  intro ⟨call, r⟩ he
  have := h _ he
  cases call <;> first | rfl | cases this

theorem Replied.speaksOnOwn (h : Replied st tr st') (client : st.clientFd ∈ held) :
    SpeaksOnOwn held tr := by
  refine h.idle.keepsTo ?_
  cases h with
  | skipped => simp
  | sent => simpa [Io.speaks?] using client

/-- The reply to a connection that is complete at once goes to the client. -/
theorem Opened.speaksOnOwn (h : Opened st tr st') (client : st.clientFd ∈ held)
    (later : ∀ e ∈ t, e.speaks? = none) : SpeaksOnOwn held (tr ++ t) := by
  refine keepsTo_append ?_ fun _ _ => keepsTo_of_none later
  cases h with
  | inProgress fd addr => exact keepsTo_of_none (by simp [Io.speaks?])
  | @atOnce fd addr g st₁ reply =>
      refine keepsTo_append (keepsTo_of_none (by simp [Io.speaks?])) fun held' hold => ?_
      obtain rfl : fd :: held = held' := by
        simpa [Io.holding, Call.releases?, Io.fdEffect] using hold
      exact reply.speaksOnOwn (List.mem_cons_of_mem _ client)

theorem TransferSpec.speaksOnOwn (h : TransferSpec st st' tr)
    (own : ∀ side : Side, st.fd side ∈ held) : SpeaksOnOwn held tr := by
  refine h.idle.keepsTo fun ⟨call, r⟩ he fd hfd => ?_
  have relay := h.calls _ he
  cases call with
  | recv side =>
      obtain rfl := Option.some.inj hfd
      exact relay ▸ own side
  | send side =>
      obtain rfl := Option.some.inj hfd
      exact relay.1 ▸ own side
  | _ => cases hfd

/-- A move reads and writes the client's side, and the target's once the target is relayed. -/
theorem Move.speaksOnOwn (move : Move ev st tr st' again) (equipped : Equipped st)
    (ok : Admitted tr) : SpeaksOnOwn st.fds tr := by
  have client := client_mem equipped.client
  have read : ∀ {g : History} {st₁ : ClientState} {r : RecvResult}, MadeRoom st g st₁ →
      SpeaksOnOwn st.fds (g ++ [⟨readCall st₁, r⟩]) := by
    intro g st₁ r room
    refine keepsTo_append (keepsTo_of_none ?_) fun held' hold => ?_
    · cases room <;> simp [Io.speaks?]
    · obtain rfl := Option.some.inj (room.idle.holding_eq.symm.trans hold)
      refine ⟨fun fd hfd => ?_, fun _ _ => trivial⟩
      obtain rfl := Option.some.inj hfd
      exact room.fds_eq.1 ▸ client
  have both : st.state = .forwarding → ∀ side : Side, st.fd side ∈ st.fds := by
    intro phase side
    refine mem_fds ?_
    cases side with
    | client => exact equipped.client
    | target => exact equipped.relaying phase
  cases move with
  | readFailed _ room => exact read room
  | readNothing _ room => exact read room
  | readPart _ _ room => exact read room
  | readHeader _ _ room => exact read room
  | rejected => simpa [KeepsTo, Io.speaks?, Io.holding, Call.releases?, Io.fdEffect] using client
  | started room _ opened => exact opened.speaksOnOwn client (by simp [Io.speaks?])
  | addFailed room _ opened => exact opened.speaksOnOwn client (by simp [Io.speaks?])
  | @connected g t st₁ phase reply register =>
      have asked : Idle [⟨.getsockopt st.targetFd, .code 0⟩] := by
        simp [Idle, Io.holding, Call.releases?, Io.fdEffect]
      have greeted : SpeaksOnOwn st.fds ([⟨.getsockopt st.targetFd, .code 0⟩] ++ g) := by
        refine keepsTo_append (keepsTo_of_none (by simp [Io.speaks?])) fun held' hold => ?_
        obtain rfl := Option.some.inj (asked.holding_eq.symm.trans hold)
        exact reply.speaksOnOwn client
      exact keepsTo_append greeted fun _ _ => keepsTo_of_none register.upkeep.speaksNone
  | relayed phase run => exact (connectionForward_runs run ok).1.speaksOnOwn (both phase)
  | relayEnded phase _ run => exact (connectionForward_runs run ok).1.speaksOnOwn (both phase)
  | closed _ client target =>
      exact keepsTo_of_none (client.upkeep.append target.upkeep).speaksNone
  | _ => exact keepsTo_of_none (by simp [Io.speaks?])

theorem Registered.speaksNone {s : Option ClientState} (h : Registered fd tr s) :
    ∀ e ∈ (⟨.accept, .conn fd⟩ :: tr : History), e.speaks? = none :=
  List.forall_mem_cons.mpr ⟨rfl, h.upkeep.speaksNone⟩

theorem Move.equipped (move : Move ev st tr st' again) (h : Equipped st)
    (connecting : st.state = .connecting → st.targetFd ≠ -1) (ok : Admitted tr)
    (live : st'.expired = false) : Equipped st' := by
  cases move with
  | readFailed _ room => exact ⟨room.fds_eq.1 ▸ h.client, by simp⟩
  | readNothing phase room =>
      exact ⟨room.fds_eq.1 ▸ h.client, by cases room <;> simp [phase]⟩
  | readPart _ phase room => exact ⟨room.fds_eq.1 ▸ h.client, by cases room <;> simp [phase]⟩
  | readHeader _ _ room => exact ⟨room.fds_eq.1 ▸ h.client, by simp⟩
  | started _ _ opened => exact ⟨opened.clientFd_eq ▸ h.client, by simp⟩
  | addFailed _ _ opened => exact ⟨opened.clientFd_eq ▸ h.client, by simp⟩
  | connected phase reply =>
      exact ⟨reply.fds_eq.1 ▸ h.client, fun _ => reply.fds_eq.2 ▸ connecting phase⟩
  | relayed phase run =>
      have same := (connectionForward_runs run ok).1.fds_eq
      exact ⟨same.1 ▸ h.client, fun _ => same.2 ▸ h.relaying phase⟩
  | relayEnded _ _ run =>
      have same := (connectionForward_runs run ok).1.fds_eq
      exact ⟨same.1 ▸ h.client, by simp⟩
  | closed => simp at live
  | _ => exact ⟨h.client, by simp⟩

theorem Ticked.equipped {s : Option ClientState} (ticked : Ticked st tr s)
    (h : st.expired = false → Equipped st) :
    ∀ st' ∈ s, st'.expired = false → Equipped st' := by
  rintro st' hst live
  rw [Option.mem_def] at hst
  subst hst
  cases ticked with
  | active _ expired => exact ⟨(h expired).client, (h expired).relaying⟩
  | silenced => simp at live
  | expired => simp at live

/-! ## All clients -/

/-- A client owns its descriptors, has those it needs, and everybody so far read and wrote
only what was theirs. -/
structure Speaks (c : ClientId) (s : Option ClientState) (k : Kernel) : Prop where
  owned : NoAddFailed k → Owned c s k
  spoken : NoAddFailed k → k.ByOwner Io.speaks?
  equipped : NoAddFailed k → ∀ st ∈ s, st.expired = false → Equipped st

namespace Speaks

/-- The rest of the world keeps its descriptors, and nobody else speaks on them. -/
structure Guarantee (who : Party) (k k' : Kernel) : Prop where
  owned : Owned.Guarantee who k k'
  spoken : NoAddFailed k' → k.ByOwner Io.speaks? → k'.ByOwner Io.speaks?

variable {s s₀ : Option ClientState}

/-- One party speaks on what it holds. -/
theorem act (h : Speaks c s₀ k) (ran : k.Ran (.client c) tr k')
    (old : (NoAddFailed k' → Owned c s k') ∧ Owned.Guarantee (.client c) k k')
    (own : NoAddFailed k → Owned c s₀ k → (∀ e ∈ tr, e.addFailed = false) →
      ∃ held, k.Owns (.client c) held ∧ Leaves held tr s ∧ SpeaksOnOwn held tr)
    (equipped : NoAddFailed k → Owned c s₀ k → ∀ st ∈ s, st.expired = false → Equipped st) :
    Speaks c s k' ∧ Guarantee (.client c) k k' := by
  have spoken : NoAddFailed k' → k.ByOwner Io.speaks? → k'.ByOwner Io.speaks? := by
    intro fine before
    have fine₀ := old.2.noAddFailed fine
    obtain ⟨held, owns, ⟨all, hold, -⟩, own⟩ := own fine₀ (h.owned fine₀) (ran.forall_calls fine)
    exact ran.byOwner owns hold own Io.fd?_of_speaks before
  refine ⟨⟨old.1, fun fine => spoken fine (h.spoken (old.2.noAddFailed fine)), fun fine => ?_⟩,
    old.2, spoken⟩
  exact equipped (old.2.noAddFailed fine) (h.owned (old.2.noAddFailed fine))

theorem relyGuarantee : RelyGuarantee (fun c k => Speaks c none k) Speaks Guarantee where
  refl := ⟨Owned.relyGuarantee.refl, fun _ => id⟩
  trans h₁ h₂ := by
    refine ⟨Owned.relyGuarantee.trans h₁.owned h₂.owned, fun fine => ?_⟩
    exact h₂.spoken fine ∘ h₁.spoken (h₂.owned.noAddFailed fine)
  apart := by
    intro who c s k k' hF hwho h
    have before : NoAddFailed k' → NoAddFailed k := hF.owned.noAddFailed
    exact ⟨Owned.relyGuarantee.apart hF.owned hwho h.owned,
      fun fine => hF.spoken fine (h.spoken (before fine)), fun fine => h.equipped (before fine)⟩
  unborn := by
    intro who c k k' hF hwho h
    exact ⟨Owned.relyGuarantee.unborn hF.owned hwho h.owned,
      fun fine => hF.spoken fine (h.spoken (hF.owned.noAddFailed fine)), by simp⟩
  readTimer := by
    intro k ok k' ran
    refine ⟨Owned.relyGuarantee.readTimer ran, fun _ => ?_⟩
    exact ran.byOwner Owned.owns_nil rfl (keepsTo_of_none (by simp [Io.speaks?]))
      Io.fd?_of_speaks
  refused := by
    intro c k r k' h ran
    refine h.act ran (Owned.relyGuarantee.refused h.owned ran)
      (fun _ _ _ => ⟨[], Owned.owns_nil, ?_, keepsTo_of_none (by simp [Io.speaks?])⟩) (by simp)
    cases r <;> exact ⟨_, rfl, by simp⟩
  born := by
    intro c k fd tr s k' h registered ran
    have real := ran.accepted_real
    refine h.act ran (Owned.relyGuarantee.born h.owned registered ran)
      (fun _ _ _ => ⟨[], Owned.owns_nil, registered.leaves real,
        keepsTo_of_none registered.speaksNone⟩) fun _ _ st hst _ => ?_
    rw [Option.mem_def] at hst
    subst hst
    cases registered
    exact ⟨real, by simp [ClientState.create]⟩
  slot := by
    intro c st k n h
    refine ⟨Owned.relyGuarantee.slot n h.owned, h.spoken, fun fine st' hst live => ?_⟩
    obtain rfl := Option.some.inj hst
    have equipped := h.equipped fine st rfl live
    exact ⟨equipped.client, equipped.relaying⟩
  move := by
    intro c st k ev tr st' again k' h live move ran
    refine h.act ran (Owned.relyGuarantee.move h.owned live move ran)
      (fun fine owned added => ⟨_, owned.fields _ rfl, ?_, ?_⟩) fun fine owned st₁ hst live' => ?_
    · exact move.leaves (owned.fields _ rfl).nodup (owned.connecting _ rfl) ran.admitted added
    · exact move.speaksOnOwn (h.equipped fine st rfl live) ran.admitted
    · obtain rfl := Option.some.inj hst
      exact move.equipped (h.equipped fine st rfl live) (owned.connecting _ rfl) ran.admitted live'
  tick := by
    intro c st k tr s k' h ticked ran
    refine h.act ran (Owned.relyGuarantee.tick h.owned ticked ran)
      (fun _ owned _ => ⟨_, owned.fields _ rfl, ?_, keepsTo_of_none ticked.upkeep.speaksNone⟩)
      fun fine _ => ticked.equipped (h.equipped fine st rfl)
    exact ticked.leaves (owned.fields _ rfl).nodup (owned.connecting _ rfl)
  release h released ran :=
    h.act ran (Owned.relyGuarantee.release h.owned released ran)
      (fun _ owned _ => ⟨_, owned.fields _ rfl, released.leaves (owned.fields _ rfl).nodup,
        keepsTo_of_none released.upkeep.speaksNone⟩) (by simp)

end Speaks

/-- In every reachable world to which every target could be added, what was read and written
was read and written by the owner. -/
theorem byOwner_reachable {w : World} (h : proxy.Reachable w) (fine : NoAddFailed w.kernel) :
    w.kernel.ByOwner Io.speaks? := by
  have holds := Speaks.relyGuarantee.reachable (fun _ hw _ => ?_) h
  · exact (holds.unborn w.mem.nextId (Nat.le_refl _)).2.spoken fine
  · refine ⟨fun _ => Owned.boot hw, fun _ => ?_, by simp⟩
    obtain ⟨serverSock, epollFd, timerFd, -, -, -, -, rfl⟩ := hw
    simp [Kernel.ByOwner, World.boot]

end SimpleProxy
