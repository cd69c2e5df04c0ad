import SimpleProxy.Logic.Request

/-!
# Tunnel bytes

A `CONNECT` client may send tunnel bytes right behind its header. Both connect
paths drop the request buffer when they reply (`request_len = 0`), and with it
whatever arrived in the same `recv` as the end of the header.
-/

namespace SimpleProxy.Theorems.Tunnel

open Interact CString

/-- What follows the first empty line. -/
def afterHeader (s : Bytes) : Bytes := ((strstr s crlfcrlf).getD []).drop crlfcrlf.length

/-- More bytes after a complete header are more tunnel bytes. -/
theorem afterHeader_append {request : Bytes} (rest : Bytes)
    (complete : (strstr (cstr request) crlfcrlf).isSome = true) :
    afterHeader (request ++ rest) = afterHeader request ++ rest := by
  obtain ⟨t, ht⟩ := Option.isSome_iff_exists.mp complete
  obtain ⟨more, hfound⟩ := strstr_of_cstr ht
  have long : crlfcrlf.length ≤ (t ++ more).length := (strstr_starts hfound).length_le
  rw [afterHeader, afterHeader, strstr_append rest hfound, hfound, Option.getD_some,
    Option.getD_some, List.drop_append_of_le_length long]

/-- The target got, or will get, exactly the tunnel bytes the client sent. -/
def TunnelKept (h : History) (st : ClientState) : Prop :=
  accepted .target h ++ st.requestBuffer = afterHeader (received .client h)

/-- **Tunnel bytes.** In every reachable world, a relaying `CONNECT` client has
lost nothing exactly if the request buffer that was accepted ended with its
header; otherwise the bytes behind the header are gone. -/
theorem tunnel_kept_iff {w : World} (h : proxy.Reachable w) {c : ClientId} {st : ClientState}
    (live : w.mem.heap c = some st) (forwarding : st.state = .forwarding)
    (https : st.isHttps = true) :
    TunnelKept (w.kernel.history c) st ↔
      ∀ request ∈ grants (w.kernel.history c), afterHeader request = [] := by
  have phase := (session_reachable h c).2 st live
  simp only [Phase, forwarding, https, if_true] at phase
  obtain ⟨request, rest, granted, sent, flow⟩ := phase
  rw [TunnelKept, flow, sent, afterHeader_append rest granted.complete, granted.only]
  simp only [List.mem_singleton, forall_eq]
  exact List.self_eq_append_left

/-- A `CONNECT` request for `h:443`. -/
def connectRequest : Bytes := bytes "CONNECT h:443 HTTP/1.1\r\nHost: h:443\r\n\r\n"

/-- A client sends `data`, the connection to port 443 of `h` completes, and the
client is told so. -/
def tunnelScript (data : Bytes) : List Cmd :=
  acceptScript 0 6 ++ requestScript 0 6 7 data [104] 443 ++
    [.wait [⟨7, ⟨false, true⟩, some ⟨.target, some 0⟩⟩], completeCmd 0 6 7 [establishedReply 0 6]]

theorem tunnel_kept_iff_clean :
    ∃ w st, (tunnelScript connectRequest).foldlM World.exec (World.boot 3 4 5) = some w ∧
      w.mem.heap 0 = some st ∧ (TunnelKept (w.kernel.history 0) st ↔
        ∀ request ∈ grants (w.kernel.history 0), afterHeader request = []) := by
  have facts : (((tunnelScript connectRequest).foldlM World.exec (World.boot 3 4 5)).map fun w =>
      (w.mem.heap 0).any fun st => st.state = .forwarding && st.isHttps) = some true := by
    decide +kernel
  obtain ⟨w, hw, hfacts⟩ := Option.map_eq_some_iff.mp facts
  obtain ⟨st, hst, hstate⟩ := (Option.any_eq_true _ _).mp hfacts
  obtain ⟨hforwarding, hhttps⟩ := Bool.and_eq_true_iff.mp hstate
  exact ⟨w, st, hw, hst, tunnel_kept_iff (World.reachable_of_script (.start World.booted) hw) hst
    (of_decide_eq_true hforwarding) hhttps⟩

/-- The client sends two tunnel bytes with its header; they never reach the
target. -/
theorem tunnel_kept_fails :
    ¬ ∀ w, proxy.Reachable w → ∀ c st, w.mem.heap c = some st → st.state = .forwarding →
      st.isHttps = true → TunnelKept (w.kernel.history c) st := by
  intro claim
  have facts : (((tunnelScript (connectRequest ++ [1, 2])).foldlM World.exec
      (World.boot 3 4 5)).map fun w => (w.mem.heap 0).any fun st =>
        st.state = .forwarding && (st.isHttps && accepted .target (w.kernel.history 0) ++
          st.requestBuffer ≠ afterHeader (received .client (w.kernel.history 0)))) =
      some true := by decide +kernel
  obtain ⟨w, hw, hfacts⟩ := Option.map_eq_some_iff.mp facts
  obtain ⟨st, hst, hstate⟩ := (Option.any_eq_true _ _).mp hfacts
  obtain ⟨hforwarding, hrest⟩ := Bool.and_eq_true_iff.mp hstate
  obtain ⟨hhttps, hlost⟩ := Bool.and_eq_true_iff.mp hrest
  exact of_decide_eq_true hlost (claim w (World.reachable_of_script (.start World.booted) hw) 0 st hst
    (of_decide_eq_true hforwarding) hhttps)

end SimpleProxy.Theorems.Tunnel
