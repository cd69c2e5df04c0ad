import SimpleProxy.Logic.Replies
import SimpleProxy.Theorems.Tunnel

/-!
# One 200 reply

A `CONNECT` client expects one answer to its request, then the bytes of its
target. Here is exactly when it is told twice that the tunnel is there.
-/

namespace SimpleProxy.Theorems.Replies

open Interact CString Tunnel

/-- **Replies.** In every reachable world, a client was told at most once that its
tunnel is established, except when its request asked for a tunnel, `connect`
succeeded at once, and the socket showed no error later on. -/
theorem replied_once_iff {w : World} (reach : proxy.Reachable w) (c : ClientId) :
    replies (w.kernel.history c) ≤ 1 ↔
      ¬ (tunnels (w.kernel.history c) = true ∧ connectsAtOnce (w.kernel.history c) = true ∧
        connectCompletes (w.kernel.history c) = true) := by
  have counted : Counted (w.kernel.history c) := (replying_inv.reachable reach c).1
  unfold Counted owed at counted
  rw [counted]
  cases tunnels (w.kernel.history c) <;> cases connectsAtOnce (w.kernel.history c) <;>
    cases connectCompletes (w.kernel.history c) <;> decide

/-- A `connect` that returns `EINPROGRESS` and completes later: one reply. -/
theorem replied_once_iff_late :
    ∃ w, (tunnelScript connectRequest).foldlM World.exec (World.boot 3 4 5) = some w ∧
      (replies (w.kernel.history 0) ≤ 1 ↔ ¬ (tunnels (w.kernel.history 0) = true ∧
        connectsAtOnce (w.kernel.history 0) = true ∧
        connectCompletes (w.kernel.history 0) = true)) := by
  have runs : ((tunnelScript connectRequest).foldlM World.exec (World.boot 3 4 5)).isSome := by
    decide +kernel
  obtain ⟨w, hw⟩ := Option.isSome_iff_exists.mp runs
  exact ⟨w, hw, replied_once_iff (World.reachable_of_script (.start World.booted) hw) 0⟩

/-- A `CONNECT` client whose target accepts the connection at once. -/
def atOnceScript : List Cmd :=
  acceptScript 0 6 ++
    [.wait [⟨6, ⟨true, false⟩, some ⟨.client, some 0⟩⟩],
      .handle 0 [onBehalf 0 (.recv .client 6 maxBufferSize) (.data connectRequest),
        onBehalf 0 (.hasValidAuth connectRequest) true, onBehalf 0 (.gethostbyname [104]) (some 1),
        onBehalf 0 .socket (some (7 : Fd)), onBehalf 0 (.connect 7 1 443) .ok, establishedReply 0 6,
        onBehalf 0 .malloc true,
        onBehalf 0 (.epollAdd .target 7 ⟨false, true⟩ (some .target)) true],
      .wait [⟨7, ⟨false, true⟩, some ⟨.target, some 0⟩⟩], completeCmd 0 6 7 [establishedReply 0 6]]

/-- It is told twice. -/
theorem replied_once_fails :
    ¬ ∀ w, proxy.Reachable w → ∀ c, replies (w.kernel.history c) ≤ 1 := by
  intro claim
  have twice : ((atOnceScript.foldlM World.exec (World.boot 3 4 5)).map fun w =>
      replies (w.kernel.history 0)) = some 2 := by decide +kernel
  obtain ⟨w, hw, hreplies⟩ := Option.map_eq_some_iff.mp twice
  have once := claim w (World.reachable_of_script (.start World.booted) hw) 0
  omega

end SimpleProxy.Theorems.Replies
