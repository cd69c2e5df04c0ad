import SimpleProxy.Logic.Pointers

/-!
# The request functions stay in bounds

Both functions search a request that anyone can send, and copy what they find. On every
terminated request, even one with no memory behind its NUL, they load no cell that is not
there, form no pointer outside of a block and no negative length, and store only within the
blocks they write to.
-/

namespace SimpleProxy.Theorems.Pointers

open CString Blocks

/-- **Bounds.** `extract_basic_auth_b64` does not fault and returns, where it finds a text,
a block of which every byte is written, the text and its NUL. `parse_host_port` does not
fault, and where it finds an endpoint, the array it fills keeps its 256 bytes and starts with
a terminated host. -/
theorem requests_in_bounds (request : CStr) (rest : Block) (host : HostArray) :
    (∃ result, extractBasicAuthB64At (cells request.text rest) = .ok result ∧
      result.isSome = (extractBasicAuthB64 request.text).isSome ∧
      ∀ block ∈ result, ∃ text, extractBasicAuthB64 request.text = some text ∧
        block.length = text.length + 1 ∧ block = (text ++ [0]).map some) ∧
    ∃ result, parseHostPortAt (cells request.text rest) host = .ok result ∧
      result.isSome = (parseHostPort request.text).isSome ∧
      ∀ filled ∈ result, filled.1.length = 256 ∧
        ∃ name back, filled.1 = cells name back ∧ HostName name := by
  constructor
  · refine ⟨_, extractBasicAuthB64At_cells request.nulFree, Option.isSome_map,
      fun block found => ?_⟩
    obtain ⟨text, extracted, rfl⟩ := Option.map_eq_some_iff.mp found
    refine ⟨text, extracted, length_cells text [], ?_⟩
    rw [cells, List.map_append]
    rfl
  · refine ⟨_, parseHostPortAt_cells request.nulFree host, Option.isSome_map,
      fun filled found => ?_⟩
    obtain ⟨r, parsed, rfl⟩ := Option.map_eq_some_iff.mp found
    have name := hostName_of_parse request.nulFree parsed
    refine ⟨?_, r.1, _, rfl, name⟩
    have short := name.short
    rw [length_cells, List.length_drop, host.size]
    omega

end SimpleProxy.Theorems.Pointers
