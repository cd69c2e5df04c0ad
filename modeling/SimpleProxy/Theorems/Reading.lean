import SimpleProxy.Logic.Reading

/-!
# Reading the request

`read_request_nonblocking` grows its buffer when one byte of it is left, but asks
`recv` for all that is left, the place of the terminator included. A chunk that
fills the buffer puts the terminator behind it, and leaves nothing to ask for: the
next calls read nothing, and the client stays where it is. Otherwise the request
is gathered whole, however it is cut into chunks.
-/

namespace SimpleProxy.Theorems.Reading

open Interact CString Stores

variable {fd : Fd} {now : Int} {calls : List ReadCall}

/-! ## A chunk that fills the buffer -/

/-- A call of a client with descriptor 6 that is answered so. -/
def oneRead (st : ClientState) (r : RecvResult) (after : ClientState) : ReadCall where
  before := st
  event := ⟨.client, ⟨true, false⟩⟩
  io := [⟨readCall st, r⟩]
  after := after

theorem asks_oneRead (st after : ClientState) (r : RecvResult) (asks : (oneRead st r after).Asks) :
    0 < st.requestCapacity - st.requestBuffer.length :=
  asks ⟨readCall st, r⟩ (List.mem_singleton.mpr rfl) .client st.clientFd _ rfl

/-- The first `n` bytes of some request. -/
def front (n : Nat) : Bytes := List.replicate n 65

theorem not_mem_front {n : Nat} {c : UInt8} (h : c ≠ 65) : c ∉ front n :=
  fun member => h (List.eq_of_mem_replicate member)

/-- A chunk that completes no header and does not leave one byte of the buffer. -/
theorem valid_front {st : ClientState} {n : Nat} (phase : st.state = .readingRequest)
    (room : st.requestBuffer.length ≠ st.requestCapacity - 1) (empty : st.requestBuffer = [])
    (some : 0 < n) (within : n ≤ st.requestCapacity) :
    (oneRead st (.data (front n)) { st with requestBuffer := front n }).Valid := by
  have part : (strstr (cstr (st.requestBuffer ++ front n)) crlfcrlf).isSome = false := by
    rw [empty, List.nil_append, cstr_of_not_mem (not_mem_front (by decide)), Bool.eq_false_iff]
    intro found
    have member : (13 : UInt8) ∈ front n :=
      (strstr_isSome.mp found).subset (by decide)
    exact not_mem_front (by decide) member
  refine ⟨phase, ?_, ?_⟩
  · have move : Move ⟨.client, ⟨true, false⟩⟩ st _ _ false :=
      .readPart (front n) phase (.fits room) part
    have run := move.reading_runs phase phase
    rw [empty, List.nil_append] at run
    exact run
  · intro e he
    rw [List.mem_singleton.mp he]
    show (decide (0 < (front n).length) && decide ((front n).length ≤ _)) = true
    rw [empty, front, List.length_replicate]
    simpa using ⟨some, within⟩

/-- A `recv` that returns 0 in the middle of a request. -/
theorem valid_idle {st : ClientState} (phase : st.state = .readingRequest)
    (room : st.requestBuffer.length ≠ st.requestCapacity - 1) (some : st.requestBuffer ≠ []) :
    (oneRead st .eof st).Valid := by
  have idle : Move ⟨.client, ⟨true, false⟩⟩ st [⟨readCall st, .eof⟩] st false :=
    .readNothing phase (.fits room) (.inr ⟨rfl, some⟩)
  refine ⟨phase, idle.reading_runs phase phase, ?_⟩
  intro e he
  rw [List.mem_singleton.mp he]
  rfl

/-- The first `recv` fills the new buffer. -/
def fullRead : ReadCall :=
  oneRead (.create 6 0) (.data (front 4096))
    { ClientState.create 6 0 with requestBuffer := front 4096 }

/-- The next one is asked for nothing, and returns 0. -/
def stuckRead : ReadCall := oneRead fullRead.after .eof fullRead.after

theorem length_fullRead : fullRead.after.requestBuffer.length = 4096 := List.length_replicate

theorem valid_fullRead : fullRead.Valid :=
  valid_front rfl (by decide) rfl (by decide) (by decide)

theorem valid_stuckRead : stuckRead.Valid := by
  refine valid_idle rfl ?_ (List.ne_nil_of_length_pos ?_)
  · rw [length_fullRead]
    decide
  · rw [length_fullRead]
    decide

theorem asks_stuckRead : ¬ stuckRead.Asks := by
  intro asks
  have some := asks_oneRead fullRead.after fullRead.after .eof asks
  rw [length_fullRead] at some
  exact absurd some (by decide)

/-- The first read of a new client that receives 10 bytes. -/
def shortRead : ReadCall :=
  oneRead (.create 6 0) (.data (front 10))
    { ClientState.create 6 0 with requestBuffer := front 10 }

theorem reads_shortRead : Reads (.create 6 0) [shortRead] :=
  ⟨rfl, valid_front rfl (by decide) rfl (by decide) (by decide), trivial⟩

theorem fills_shortRead : ∀ c ∈ [shortRead], c.fills = false := by decide

/-! ## The terminator -/

/-- **The terminator.** Over any sequence of reads every terminator is stored inside
of the buffer if and only if no `recv` returned all it was asked for. -/
theorem terminator_inside_iff (reads : Reads (.create fd now) calls) :
    (∀ c ∈ calls, Inside c.after.requestCapacity c.terminator) ↔
      ∀ c ∈ calls, c.fills = false := by
  have valid := reads.requestFits ClientState.requestFits_create
  constructor
  · intro inside c hc
    obtain ⟨hvalid, fits⟩ := valid c hc
    exact (hvalid.terminator_inside fits).mp (inside c hc)
  · intro none c hc
    obtain ⟨hvalid, fits⟩ := valid c hc
    exact (hvalid.terminator_inside fits).mpr (none c hc)

/-- A read of ten bytes stores it inside. -/
theorem terminator_inside_short : Inside shortRead.after.requestCapacity shortRead.terminator :=
  (terminator_inside_iff reads_shortRead).mpr fills_shortRead shortRead List.mem_cons_self

/-- A first `recv` of 4096 bytes puts the terminator at index 4096 of 4096. -/
theorem terminator_inside_fails :
    fullRead.terminator = [⟨4096, 0⟩] ∧ fullRead.after.requestCapacity = 4096 ∧
      ¬ ∀ calls, Reads (.create 6 0) calls →
        ∀ c ∈ calls, Inside c.after.requestCapacity c.terminator := by
  have chunk : fullRead.chunk ≠ [] := by
    refine List.ne_nil_of_length_pos ?_
    show 0 < (front 4096 ++ []).length
    rw [List.append_nil, front, List.length_replicate]
    decide
  have stored : fullRead.terminator = [⟨4096, 0⟩] := by
    rw [ReadCall.terminator, if_neg chunk, length_fullRead]
  refine ⟨stored, rfl, fun all => ?_⟩
  have inside := all [fullRead] ⟨rfl, valid_fullRead, trivial⟩ fullRead List.mem_cons_self
  rw [stored] at inside
  exact absurd (inside _ List.mem_cons_self) (by decide)

/-! ## The header -/

/-- Every call gathers what arrived, moves the client on with the chunk that completes
the header and not before, and asks `recv` for something. -/
def ReadWhole (calls : List ReadCall) : Prop :=
  EachAfter (fun earlier c => Gathers earlier c ∧ c.Asks) [] calls

/-- **The header.** However a stream without NULs is cut into chunks, the request is
read so if and only if no chunk after which the client goes on reading is all that
`recv` was asked for. -/
theorem readWhole_iff (reads : Reads (.create fd now) calls) (nulFree : 0 ∉ chunks calls) :
    ReadWhole calls ↔ ∀ c ∈ calls.dropLast, c.fills = false := by
  have new : (ClientState.create fd now).Gathered (chunks []) := by
    refine ⟨rfl, fun _ found => ?_⟩
    rw [chunks_nil, List.infix_nil] at found
    cases found
  have gathers : EachAfter Gathers [] calls := reads.gathers new nulFree
  rw [ReadWhole, eachAfter_and, and_iff_right gathers, eachAfter_forall,
    reads.asks_iff ClientState.requestFits_create (show 0 < maxBufferSize by decide)]

theorem valid_oneRead {st after : ClientState} {r : RecvResult} (phase : st.state = .readingRequest)
    (run : (handleReadingRequest handOver st ⟨.client, ⟨true, false⟩⟩).replay
      [⟨readCall st, r⟩] = some after) (ok : Admits (readCall st) r = true) :
    (oneRead st r after).Valid :=
  ⟨phase, Prog.runs_of_replay run, by simpa [Admitted, oneRead] using ok⟩

/-- A call that receives `bs` into a buffer with room for them. -/
def pieceRead (st : ClientState) (bs : Bytes) : ReadCall :=
  oneRead st (.data bs) { st with
    requestBuffer := st.requestBuffer ++ bs
    state := if (strstr (cstr (st.requestBuffer ++ bs)) crlfcrlf).isSome then .authenticating
      else .readingRequest }

/-- A request in three pieces; the end of its header is cut in two. -/
def cutCalls : List ReadCall :=
  let first := pieceRead (.create 6 0) (bytes "GET / HT")
  let second := pieceRead first.after (bytes "TP/1.0\r\nHost: h\r\n")
  [first, second, pieceRead second.after (bytes "\r\n")]

theorem reads_cutCalls : Reads (.create 6 0) cutCalls :=
  ⟨rfl, valid_oneRead rfl (by decide +kernel) (by decide),
    rfl, valid_oneRead (by decide) (by decide +kernel) (by decide),
    rfl, valid_oneRead (by decide) (by decide +kernel) (by decide), trivial⟩

theorem readWhole_cut : chunks cutCalls = bytes "GET / HTTP/1.0\r\nHost: h\r\n\r\n" ∧
    ReadWhole cutCalls :=
  ⟨by decide, (readWhole_iff reads_cutCalls (by decide)).mpr (by decide)⟩

/-- The first 4096 bytes of a longer header in one chunk: the call after it asks for no
bytes. -/
theorem readWhole_fails :
    ¬ ∀ stream calls, 0 ∉ stream → crlfcrlf <:+: stream → chunks calls <+: stream →
      Reads (.create 6 0) calls → ReadWhole calls := by
  intro all
  have chunk : chunks [fullRead, stuckRead] = front 4096 := by
    show (front 4096 ++ []) ++ ([] ++ []) = front 4096
    simp
  have clean : 0 ∉ front 4096 ++ crlfcrlf := by
    rw [List.mem_append, not_or]
    exact ⟨not_mem_front (by decide), by decide⟩
  have whole := all (front 4096 ++ crlfcrlf) [fullRead, stuckRead] clean
    (List.suffix_append _ _).isInfix (by rw [chunk]; exact List.prefix_append _ _)
    ⟨rfl, valid_fullRead, rfl, valid_stuckRead, trivial⟩
  exact asks_stuckRead whole.2.1.2

end SimpleProxy.Theorems.Reading
