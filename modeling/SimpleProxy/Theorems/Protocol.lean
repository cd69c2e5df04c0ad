import SimpleProxy.Logic.Speech
import SimpleProxy.Theorems.Descriptors

/-!
# The proxy keeps to the protocol

In every run, with any number of clients, the calls made for a client are a session of the
protocol. What the protocol promises its peers is what they get on the wire as long as every
target could be added; after a failure, calls made for one client can reach another one.
-/

namespace SimpleProxy.Theorems.Protocol

open Interact CString Descriptors

variable {w : World} {c : ClientId}

/-- The session of client `c`, as far as it is. -/
def Session (w : World) (c : ClientId) (stage : Stage) : Prop :=
  proxyRules.protocol.Run (.listening []) (deeds (w.kernel.history c)) stage ∧
    ∀ st, w.mem.heap c = some st → Tracks stage st

/-- **Refinement.** In every reachable state the calls made for a client are a session of the
protocol, and a live client is in the state that goes with its stage. The port of an endpoint is
that of the request modulo 65536. -/
theorem follows_protocol (w : World) (h : proxy.Reachable w) (c : ClientId) :
    ∃ stage, Session w c stage := by
  obtain ⟨⟨stage, run⟩, live⟩ := plays_inv.reachable h c
  cases hlive : w.mem.heap c with
  | none =>
      refine ⟨stage, run, fun st hst => ?_⟩
      rw [hlive] at hst
      cases hst
  | some st =>
      obtain ⟨stage', run', tracks⟩ := live st hlive
      refine ⟨stage', run', fun st' hst => ?_⟩
      rw [hlive] at hst
      cases hst
      exact tracks

/-- The request of client 0 is accepted, the connection completes, the target takes the request,
and the client takes the two bytes the target answers with. -/
def relayScript : List Cmd :=
  acceptScript 0 6 ++ requestScript 0 6 7 plainRequest [104] 80 ++
    [.wait [⟨7, ⟨false, true⟩, some ⟨.target, some 0⟩⟩], completeCmd 0 6 7 [],
      .wait [⟨7, ⟨false, true⟩, some ⟨.target, some 0⟩⟩],
      .handle 0 [onBehalf 0 (.send .target 7 plainRequest .noSignal) (.sent plainRequest.length),
        onBehalf 0 .time (1 : Int)],
      .wait [⟨7, ⟨true, false⟩, some ⟨.target, some 0⟩⟩],
      .handle 0 [onBehalf 0 (.recv .target 7 4096) (.data [1, 2]),
        onBehalf 0 (.recv .target 7 4094) .again, onBehalf 0 .time (1 : Int)],
      .wait [⟨6, ⟨false, true⟩, some ⟨.client, some 0⟩⟩],
      .handle 0 [onBehalf 0 (.send .client 6 [1, 2] .noSignal) (.sent 2),
        onBehalf 0 .time (1 : Int)]]

/-- The request went to the target and the answer to the client. -/
def Relayed (h : History) : Prop := wired .target h = plainRequest ∧ wired .client h = [1, 2]

instance {h : History} : Decidable (Relayed h) := inferInstanceAs (Decidable (_ ∧ _))

theorem exists_relayed : ∃ w, proxy.Reachable w ∧ NoAddFailed w.kernel ∧
    Relayed (w.kernel.history 0) := by
  have facts : (relayScript.foldlM World.exec (World.boot 3 4 5)).any (fun w =>
      NoAddFailed w.kernel ∧ Relayed (w.kernel.history 0)) = true := by decide +kernel
  obtain ⟨w, hw, hfacts⟩ := (Option.any_eq_true _ _).mp facts
  exact ⟨w, World.reachable_of_script (.start World.booted) hw, of_decide_eq_true hfacts⟩

theorem follows_protocol_plain : ∃ w : World, Relayed (w.kernel.history 0) ∧
    ∃ stage, Session w 0 stage := by
  obtain ⟨w, reach, -, relayed⟩ := exists_relayed
  exact ⟨w, relayed, follows_protocol w reach 0⟩

/-- Before client 0 closes descriptor 7 for the second time, client 2, which has it, asks for a
tunnel; then client 4 is accepted on 7, and the reply to client 2 goes to client 4. -/
def strayReplyScript : List Cmd :=
  closedTwiceScript.take 6 ++
    requestScript 2 7 8 (bytes "CONNECT h:443 HTTP/1.1\r\nHost: h:443\r\n\r\n") [104] 443 ++
    closedTwiceScript.drop 6 ++ acceptScript 4 7 ++
    [.wait [⟨8, ⟨false, true⟩, some ⟨.target, some 2⟩⟩], completeCmd 2 7 8 [establishedReply 2 7]]

theorem wire_in_order_fails : ¬ ∀ w, proxy.Reachable w → ∀ c,
    proxyRules.Wire (streamsOf (w.kernel.carried c)) := by
  intro claim
  have facts : (strayReplyScript.foldlM World.exec (World.boot 3 4 5)).map (fun w =>
      (grants (w.kernel.carried 4), wired .client (w.kernel.carried 4))) =
      some ([], connectionEstablished) := by decide +kernel
  obtain ⟨w, hw, hfacts⟩ := Option.map_eq_some_iff.mp facts
  obtain ⟨none, told⟩ := Prod.mk.inj hfacts
  cases claim w (World.reachable_of_script (.start World.booted) hw) 4 with
  | refused _ _ _ client =>
      have client : wired .client (w.kernel.carried 4) <+: proxyAuthRequired := client
      rw [told] at client
      exact absurd client (by decide)
  | relayed request _ only =>
      have only : grants (w.kernel.carried 4) = [request] := only
      rw [none] at only
      cases only

end SimpleProxy.Theorems.Protocol
