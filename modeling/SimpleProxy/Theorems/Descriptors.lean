import SimpleProxy.Logic.Descriptors

/-!
# Who closes what

The fields of a client own their descriptors, but for one path: when the target
cannot be added to epoll, `handle_initialize_connection` closes it and leaves the
number in `target_fd`. The next `accept` or `socket` may get the same number, and
closing the client then closes somebody else's connection.
-/

namespace SimpleProxy.Theorems.Descriptors

open Interact CString

/-- A field other than -1 is a descriptor opened for its client and still open, no
number is in two fields, and nobody has closed or unregistered a descriptor of
somebody else. -/
structure FieldsOwned (w : World) : Prop where
  owned : ∀ c st side, w.mem.heap c = some st → st.fd side ≠ -1 →
    w.kernel.fds (st.fd side) = some (.client c)
  distinct : ∀ c d st st' side side', w.mem.heap c = some st → w.mem.heap d = some st' →
    st.fd side ≠ -1 → st.fd side = st'.fd side' → c = d ∧ side = side'
  lawful : w.kernel.Lawful

/-- No target that is added to epoll in this step is refused. -/
def AddsSucceed (w w' : World) : Bool := (w.newCalls w').all fun entry => !entry.io.addFailed

theorem noAddFailed_reachable {w : World}
    (h : (proxy.limit fun w w' => AddsSucceed w w' = true).Reachable w) : NoAddFailed w.kernel := by
  refine System.invariant (fun w => NoAddFailed w.kernel) ?_ ?_ h
  · rintro _ ⟨serverSock, epollFd, timerFd, -, -, -, -, rfl⟩
    simp [NoAddFailed, World.boot]
  · rintro w w' - fine ⟨hstep, hadds⟩ entry hentry
    rw [hstep.trace_eq] at hentry
    obtain hentry | hentry := List.mem_append.mp hentry
    · exact fine entry hentry
    · simpa using List.all_eq_true.mp hadds entry hentry

/-- **Descriptors.** In every run in which every target can be added to epoll, the
fields own their descriptors and nobody touches those of another client. -/
theorem fields_owned {w : World}
    (h : (proxy.limit fun w w' => AddsSucceed w w' = true).Reachable w) : FieldsOwned w := by
  have owned := owned_reachable (System.limit_reachable h) (noAddFailed_reachable h)
  have open' : ∀ c st side, w.mem.heap c = some st → st.fd side ≠ -1 →
      w.kernel.fds (st.fd side) = some (.client c) := fun c st side live hfd =>
    ((owned c).fields st live).open' _ (mem_fds hfd)
  refine ⟨open', fun c d st st' side side' live live' hfd same => ?_, (owned 0).lawful⟩
  have hcd : c = d := by
    have hc := open' c st side live hfd
    rw [same, open' d st' side' live' (same ▸ hfd)] at hc
    exact (Party.client.inj (Option.some.inj hc)).symm
  subst hcd
  obtain rfl : st = st' := Option.some.inj (live.symm.trans live')
  have nodup := ((owned c).fields st live).nodup
  refine ⟨rfl, ?_⟩
  -- with both fields in use, the two numbers differ
  cases side <;> cases side' <;> try rfl
  all_goals simp_all [ClientState.fds, ClientState.fd]

/-- A client asks for port 80 of `h`. -/
def plainRequest : Bytes := bytes "GET / HTTP/1.0\r\nHost: h:80\r\n\r\n"

theorem fields_owned_plain :
    ∃ w, (acceptScript 0 6 ++ requestScript 0 6 7 plainRequest [104] 80).foldlM
      (World.execIf AddsSucceed) (World.boot 3 4 5) = some w ∧ FieldsOwned w := by
  obtain ⟨w, hw⟩ := Option.isSome_iff_exists.mp (show ((acceptScript 0 6 ++
    requestScript 0 6 7 plainRequest [104] 80).foldlM (World.execIf AddsSucceed)
      (World.boot 3 4 5)).isSome = true by decide +kernel)
  exact ⟨w, hw, fields_owned (World.limit_of_script (.start World.booted) hw)⟩

/-- The target of client 0 cannot be added to epoll, and its descriptor 7 is closed;
the next client is accepted on 7, and closing client 0 closes it again. -/
def closedTwiceScript : List Cmd :=
  acceptScript 0 6 ++
    [.wait [⟨6, ⟨true, false⟩, some ⟨.client, some 0⟩⟩],
      .handle 0 [onBehalf 0 (.recv .client 6 maxBufferSize) (.data plainRequest),
        onBehalf 0 (.hasValidAuth plainRequest) true, onBehalf 0 (.gethostbyname [104]) (some 1),
        onBehalf 0 .socket (some 7), onBehalf 0 (.connect 7 1 80) .inProgress,
        onBehalf 0 .malloc true,
        onBehalf 0 (.epollAdd .target 7 ⟨false, true⟩ (some .target)) false,
        onBehalf 0 (.close .target 7) ()]] ++
    acceptScript 2 7 ++
    [.wait [⟨6, ⟨true, false⟩, some ⟨.client, some 0⟩⟩],
      .handle 0 [onBehalf 0 (.epollDel .client 6) true, onBehalf 0 (.close .client 6) (),
        onBehalf 0 (.epollDel .target 7) true, onBehalf 0 (.close .target 7) ()]]

theorem fields_owned_fails : ¬ ∀ w, proxy.Reachable w → FieldsOwned w := by
  intro claim
  have facts : (closedTwiceScript.foldlM World.exec (World.boot 3 4 5)).map (fun w =>
      w.kernel.trace.any fun entry => entry.who = .client 0 && entry.owner = some (.client 2) &&
        entry.io.call = .close .target 7) = some true := by decide +kernel
  obtain ⟨w, hw, hclosed⟩ := Option.map_eq_some_iff.mp facts
  obtain ⟨entry, hentry, hfacts⟩ := List.any_eq_true.mp hclosed
  simp only [Bool.and_eq_true, decide_eq_true_eq] at hfacts
  obtain ⟨⟨hwho, howner⟩, hcall⟩ := hfacts
  have := (claim w (World.reachable_of_script (.start World.booted) hw)).lawful entry hentry
    (by rw [hcall]; rfl)
  rw [howner, hwho] at this
  exact absurd this (by decide)

end SimpleProxy.Theorems.Descriptors
