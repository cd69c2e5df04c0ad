import SimpleProxy.Logic.Request

/-!
# Access control

Nobody is contacted for a client before `has_valid_auth` accepted its request,
and the endpoint is the one its request names. The second half needs the port
to fit into 16 bits: `connection_connect` passes `state->port` through `htons`,
and `parse_host_port` does not check the range.
-/

namespace SimpleProxy.Theorems.Access

open Interact CString

/-- What the proxy owes to client `c`. Relaying, or about to, it has an accepted
request for the endpoint in its state. Whenever somebody was contacted for it,
a request had been accepted before, and a connection went to an address of
the host and to the port found in that request. -/
def AuthorisedFirst (w : World) (c : ClientId) : Prop :=
  (∀ st, w.mem.heap c = some st → Admitting st.state = true →
    ∃ request, Authorised (w.kernel.history c) request st.host st.port) ∧
  ∀ earlier e later, w.kernel.history c = earlier ++ e :: later → Contact e.call = true →
    ∃ request host port, Authorised earlier request host port ∧
      ∀ (fd : Fd) (addr : Addr) (p : Nat), e.call = .connect fd addr p →
        (p : Int) = port ∧ (⟨.gethostbyname host, some addr⟩ : Io) ∈ earlier

/-- An accepted request does not name a port outside of 0..65535. -/
def portFits : Io → Bool
  | ⟨.hasValidAuth request, true⟩ =>
    match parseHostPort (cstr request) with
    | some (_, port) => 0 ≤ port && port < 65536
    | none => true
  | _ => true

/-- All requests accepted by the end of the step name ports that fit. -/
def PortsFit (_ w' : World) : Bool := w'.kernel.trace.all fun entry => portFits entry.io

theorem port_fits {earlier h : History} {request host : Bytes} {port : Int}
    (auth : Authorised earlier request host port) (fit : ∀ e ∈ h, portFits e = true)
    (hsub : earlier ⊆ h) : 0 ≤ port ∧ port < 65536 := by
  have := fit _ (hsub auth.granted)
  simpa [portFits, auth.parsed] using this

theorem portsFit_history {w : World}
    (h : (proxy.limit fun w w' => PortsFit w w' = true).Reachable w) (c : ClientId) :
    ∀ e ∈ w.kernel.history c, portFits e = true := by
  have key : ∀ entry ∈ w.kernel.trace, portFits entry.io = true := by
    refine System.invariant (fun w => ∀ entry ∈ w.kernel.trace, portFits entry.io = true) ?_ ?_ h
    · rintro _ ⟨serverSock, epollFd, timerFd, -, -, -, -, rfl⟩ entry hentry
      cases hentry
    · rintro w w' - - ⟨-, hfit⟩
      exact List.all_eq_true.mp hfit
  intro e he
  obtain ⟨entry, hentry, heq⟩ := List.mem_filterMap.mp he
  split at heq
  · cases heq
    exact key entry hentry
  · cases heq

/-- **Authorisation.** In every run, whoever is contacted for a client is contacted for a
request of it that was accepted before: a connection goes to an address of its host, and to
the low 16 bits of its port. -/
theorem contact_authorised {w : World} (h : proxy.Reachable w) {c : ClientId}
    {earlier later : History} {e : Io} (split : w.kernel.history c = earlier ++ e :: later)
    (contact : Contact e.call = true) :
    ∃ request host port, Authorised earlier request host port ∧
      ∀ (fd : Fd) (addr : Addr) (p : Nat), e.call = .connect fd addr p →
        p = htons port ∧ (⟨.gethostbyname host, some addr⟩ : Io) ∈ earlier :=
  eachAfter_iff.mp (session_reachable h c).1 earlier e later split contact

/-- **Authorised first.** In every run whose accepted requests name ports in
0..65535, no client gets further than its credentials allow, and it is connected
to the endpoint it asked for. -/
theorem authorised_first {w : World}
    (h : (proxy.limit fun w w' => PortsFit w w' = true).Reachable w) (c : ClientId) :
    AuthorisedFirst w c := by
  have reach := System.limit_reachable h
  refine ⟨fun st hst => ((session_reachable reach c).2 st hst).authorised,
    fun earlier e later hsplit hcontact => ?_⟩
  obtain ⟨request, host, port, auth, connects⟩ := contact_authorised reach hsplit hcontact
  refine ⟨request, host, port, auth, fun fd addr p hcall => ?_⟩
  obtain ⟨rfl, resolved⟩ := connects fd addr p hcall
  exact ⟨htons_of_fits (port_fits auth (portsFit_history h c) (by simp [hsplit])), resolved⟩

/-- A client asks for port 80 of `h`. -/
def plainRequest : Bytes := bytes "GET / HTTP/1.0\r\nHost: h:80\r\n\r\n"

theorem authorised_first_plain :
    ∃ w, (acceptScript 0 6 ++ requestScript 0 6 7 plainRequest [104] 80).foldlM
      (World.execIf PortsFit) (World.boot 3 4 5) = some w ∧ AuthorisedFirst w 0 := by
  obtain ⟨w, hw⟩ := Option.isSome_iff_exists.mp (show ((acceptScript 0 6 ++
    requestScript 0 6 7 plainRequest [104] 80).foldlM (World.execIf PortsFit)
      (World.boot 3 4 5)).isSome = true by decide +kernel)
  exact ⟨w, hw, authorised_first (World.limit_of_script (.start World.booted) hw) 0⟩

/-- Port 70000 is contacted as port 4464. -/
def wrappedRequest : Bytes := bytes "GET / HTTP/1.0\r\nHost: h:70000\r\n\r\n"

theorem authorised_first_fails :
    ¬ ∀ w, proxy.Reachable w → ∀ c, AuthorisedFirst w c := by
  intro claim
  have facts : (((acceptScript 0 6 ++ requestScript 0 6 7 wrappedRequest [104] 4464).foldlM
      World.exec (World.boot 3 4 5)).map fun w =>
        (w.kernel.history 0).any (fun e => e.call = .connect 7 1 4464) &&
          (grants (w.kernel.history 0)).all (· = wrappedRequest)) = some true := by decide +kernel
  obtain ⟨w, hw, hfacts⟩ := Option.map_eq_some_iff.mp facts
  obtain ⟨hconnect, honly⟩ := Bool.and_eq_true_iff.mp hfacts
  obtain ⟨e, he, hcall⟩ := List.any_eq_true.mp hconnect
  obtain ⟨earlier, later, hsplit⟩ := List.append_of_mem he
  have hcall : e.call = .connect 7 1 4464 := by simpa using hcall
  obtain ⟨request, host, port, auth, connects⟩ :=
    (claim w (World.reachable_of_script (.start World.booted) hw) 0).2 earlier e later hsplit
      (by rw [hcall]; rfl)
  -- the only request accepted is the one for port 70000
  have hrequest : request = wrappedRequest := by
    have hmem : request ∈ grants (w.kernel.history 0) :=
      mem_grants.mpr (by rw [hsplit]; exact List.mem_append_left _ auth.granted)
    simpa using List.all_eq_true.mp honly request hmem
  have hparsed : parseHostPort (cstr wrappedRequest) = some ([104], 70000) := by decide
  have hport : (host, port) = ([104], 70000) :=
    Option.some.inj ((hrequest ▸ auth.parsed).symm.trans hparsed)
  obtain ⟨hcontacted, -⟩ := connects 7 1 4464 hcall
  cases hport
  exact absurd hcontacted (by decide)

end SimpleProxy.Theorems.Access
