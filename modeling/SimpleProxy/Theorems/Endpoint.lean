import SimpleProxy.Logic.Headers
import SimpleProxy.Logic.Lifecycle

/-!
# The endpoint of a request

`parse_host_port` reads the endpoint from the `Host` line, and from nothing else. On a
request that is written as one would write it, this gives back the host and the port that
were written. The line of the request is not looked at, and the text behind a colon goes
through `atoi` without a check.
-/

namespace SimpleProxy.Theorems.Endpoint

open Interact CString Http

/-! ## Host and port as they are written -/

/-- A host: not empty, without white space and colons. -/
def IsHost (host : Bytes) : Prop :=
  host ≠ [] ∧ ∀ c ∈ host, isspace c = false ∧ c ≠ 58

/-- A port: a decimal number in 1..65535. -/
def IsPort (port : Bytes) : Prop :=
  port ≠ [] ∧ (∀ c ∈ port, isdigit c = true) ∧ 1 ≤ digits 0 port ∧ digits 0 port ≤ 65535

/-- `h` or `h:p`. -/
def authority (host : Bytes) : Option Bytes → Bytes
  | none => host
  | some port => host ++ 58 :: port

/-- The port that is meant. -/
def portNumber : Option Bytes → Int
  | none => 80
  | some port => digits 0 port

theorem IsHost.colon {host : Bytes} (h : IsHost host) : 58 ∉ host :=
  fun member => (h.2 58 member).2 rfl

theorem splitPort_authority {host : Bytes} {port : Option Bytes} (name : IsHost host)
    (number : ∀ p ∈ port, IsPort p) : splitPort (authority host port) = (host, portNumber port) := by
  cases port with
  | none => exact splitPort_absent name.colon
  | some port =>
      obtain ⟨-, all, -, small⟩ := number port rfl
      rw [authority, splitPort_colon name.colon, atoi_digits all (by omega), portNumber]

/-- Blanks in front of a host are skipped. -/
theorem hostPort_authority {space host : Bytes} {port : Option Bytes}
    (blank : ∀ c ∈ space, c = 32 ∨ c = 9) (name : IsHost host)
    (text : Text (space ++ authority host port)) (short : (authority host port).length ≤ 255) :
    hostPort (space ++ authority host port) = authority host port := by
  have skipped : (space ++ authority host port).dropWhile (fun c => c = 32 || c = 9) =
      authority host port := by
    obtain ⟨c, rest, hhost⟩ := List.exists_cons_of_ne_nil name.1
    have first : isspace c = false := (name.2 c (hhost ▸ List.mem_cons_self)).1
    have stop : (c = 32 || c = 9 : Bool) = false := by
      simp only [Bool.or_eq_false_iff, decide_eq_false_iff_not]
      constructor <;> rintro rfl <;> exact absurd first (by decide)
    rw [List.dropWhile_append_of_pos (by simpa using blank)]
    cases port <;> simp [authority, hhost, stop]
  rw [hostPort, skipped, hostText_text (Text.of_suffix text (List.suffix_append _ _)),
    List.take_of_length_le short]

/-- **Round trip.** A request whose first field named `Host` names a host, with or without
a port, is read as that: whatever the request line, the fields in front of it and behind it,
and the payload. -/
theorem reads_authority (h : Header) (payload : Bytes) {space host : Bytes} {port : Option Bytes}
    (blank : ∀ c ∈ space, c = 32 ∨ c = 9) (name : IsHost host) (number : ∀ p ∈ port, IsPort p)
    (first : h.body? (bytes "Host") = some (space ++ authority host port))
    (short : (authority host port).length ≤ 255) :
    parseHostPort (h.render ++ payload) = some (host, portNumber port) := by
  have text : Text (space ++ authority host port) := by
    obtain ⟨f, -, hbody⟩ := Option.map_eq_some_iff.mp first
    exact hbody ▸ f.text
  have source : hostSource h payload = some (space ++ authority host port) := by
    rw [hostSource, first]
    rfl
  rw [parseHostPort_render, source, Option.map_some, hostPort_authority blank name text short,
    splitPort_authority name number]

/-- Two fields come before the `Host` field, and a line like one behind the header. -/
def sampleHeader : Header where
  requestLine := bytes "GET http://h/ HTTP/1.1"
  fields :=
    [⟨bytes "X-Host", bytes " x:1", by decide, by decide⟩,
      ⟨bytes "Via", bytes " Host: v", by decide, by decide⟩,
      ⟨bytes "Host", bytes " h:8080", by decide, by decide⟩]
  text := by decide

theorem reads_authority_sample :
    parseHostPort (sampleHeader.render ++ bytes "Host: p") = some (bytes "h", 8080) := by
  have name : IsHost (bytes "h") := ⟨by decide, List.forall_mem_singleton.mpr (by decide)⟩
  have number : IsPort (bytes "8080") :=
    ⟨by decide, List.all_eq_true.mp (by decide : (bytes "8080").all isdigit = true), by decide,
      by decide⟩
  have first : sampleHeader.body? (bytes "Host") =
      some ([32] ++ authority (bytes "h") (some (bytes "8080"))) := by decide
  exact reads_authority sampleHeader (bytes "Host: p") (List.forall_mem_singleton.mpr (.inl rfl))
    name (fun p hp => Option.some.inj hp ▸ number) first (by decide)

/-! ## The number of the port -/

/-- Behind the first colon a number in 1..65535, all of it within 255 bytes; or the colon is
not, and the number is 80. -/
def Readable (line : Bytes) : Prop :=
  ∀ host rest, line = host ++ 58 :: rest → 58 ∉ host →
    if host.length < 255 then
      1 ≤ digits 0 rest ∧ digits 0 rest ≤ 65535 ∧
        host.length + 1 + (rest.takeWhile isdigit).length ≤ 255
    else digits 0 rest = 80

variable {st st' : ClientState} {ev : ClientEvent} {tr : History}

variable {request host : Bytes} {port : Int}

end SimpleProxy.Theorems.Endpoint
