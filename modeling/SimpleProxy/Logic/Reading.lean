import SimpleProxy.Logic.Request
import SimpleProxy.Lib.Stores

/-!
# Reading the request

What a client goes through in `READING_REQUEST`: one call of
`handle_reading_request` for each of its events, until one of them moves it on.
`ReadCall.Valid.shape` says once what such a call can do; the sequences of calls
are `Reads`, and `reading_reachable` finds one for every client that is reading
in a reachable world.
-/

namespace SimpleProxy

open Interact CString Stores

/-- Stops where `handle_client` is called again. -/
def handOver : Handler := fun state _ => return state

/-- One call of `handle_reading_request`, up to the `handle_client` it may end with. -/
structure ReadCall where
  before : ClientState
  event : ClientEvent
  io : History
  after : ClientState

namespace ReadCall

/-- The program makes this call, with answers within the socket contract. -/
structure Valid (c : ReadCall) : Prop where
  phase : c.before.state = .readingRequest
  run : (handleReadingRequest handOver c.before c.event).Runs c.io c.after
  admitted : Admitted c.io

/-- The bytes `recv` returned. -/
def chunk (c : ReadCall) : Bytes := received .client c.io

/-- `request_buffer[request_len] = '\0'`, which follows a `recv` that returned
bytes. -/
def terminator (c : ReadCall) : List (Store UInt8) :=
  if c.chunk = [] then [] else [⟨c.after.requestBuffer.length, 0⟩]

end ReadCall

/-- What becomes of a client between two of its events while it reads: the
registry and the timer have fields of their own. -/
def ClientState.Between (st st' : ClientState) : Prop :=
  st' = { st with slot := st'.slot, lastActive := st'.lastActive, expired := st'.expired }

/-- Calls one after the other, of a client that is in state `st` before them. -/
def Reads : ClientState → List ReadCall → Prop
  | _, [] => True
  | st, c :: rest => st.Between c.before ∧ c.Valid ∧ Reads c.after rest

/-- The state after the calls. -/
def ClientState.afterReads (st : ClientState) : List ReadCall → ClientState
  | [] => st
  | c :: rest => c.after.afterReads rest

/-- The bytes the calls received. -/
def chunks (calls : List ReadCall) : Bytes := calls.flatMap ReadCall.chunk

/-- A `recv` of the client that returned as many bytes as it was asked for. -/
def Io.fills : Io → Bool
  | ⟨.recv .client _ n, .data bs⟩ => bs.length = n
  | _ => false

/-- The chunk fills the buffer to its last byte. -/
def ReadCall.fills (c : ReadCall) : Bool := c.io.any Io.fills

/-- `request_capacity` when `recv` is called. -/
def ClientState.readCapacity (st : ClientState) : Nat :=
  if st.requestBuffer.length = st.requestCapacity - 1 then st.requestCapacity * 2
  else st.requestCapacity

variable {st st' : ClientState} {c : ReadCall} {calls rest : List ReadCall} {fd : Fd} {now : Int}

theorem MadeRoom.readCapacity_eq {g : History} (room : MadeRoom st g st') :
    st'.requestCapacity = st.readCapacity := by
  cases room with
  | fits h => rw [ClientState.readCapacity, if_neg h]
  | grown h => rw [ClientState.readCapacity, if_pos h]

theorem MadeRoom.received_eq {g : History} (room : MadeRoom st g st') (side : Side) :
    received side g = [] := by
  cases room <;> rfl

theorem MadeRoom.fills_eq {g : History} (room : MadeRoom st g st') : g.any Io.fills = false := by
  cases room <;> rfl

/-- What `handle_reading_request` can do to a client, up to the `handle_client` it
may end with. -/
inductive Reading (st : ClientState) : History → ClientState → Prop
  | noMemory (full : st.requestBuffer.length = st.requestCapacity - 1) :
      Reading st [⟨.malloc, false⟩] { st with state := .closing }
  | nothing {g : History} {st₁ st' : ClientState} {r : RecvResult} (room : MadeRoom st g st₁)
      (empty : ∀ bs, r ≠ .data bs) (buffer : st'.requestBuffer = st₁.requestBuffer)
      (capacity : st'.requestCapacity = st₁.requestCapacity)
      (waiting : st'.state ≠ .authenticating) : Reading st (g ++ [⟨readCall st₁, r⟩]) st'
  | got {g : History} {st₁ : ClientState} (bs : Bytes) (room : MadeRoom st g st₁) :
      Reading st (g ++ [⟨readCall st₁, .data bs⟩]) { st₁ with
        requestBuffer := st₁.requestBuffer ++ bs
        state := if (strstr (cstr (st₁.requestBuffer ++ bs)) crlfcrlf).isSome then .authenticating
          else .readingRequest }

theorem handleReadingRequest_reading {ev : ClientEvent} {tr : History}
    (phase : st.state = .readingRequest)
    (run : (handleReadingRequest handOver st ev).Runs tr st') : Reading st tr st' := by
  have moved : ∃ again, Move ev st tr st' again := by
    rcases handleReadingRequest_moves phase run with last | ⟨t, st₁, t', rfl, move, rfl, rfl⟩
    · exact ⟨false, last⟩
    · exact ⟨true, by simpa using move⟩
  obtain ⟨again, move⟩ := moved
  cases move with
  | growFailed _ full => exact .noMemory full
  | readFailed _ room failed =>
      refine .nothing room ?_ rfl rfl (by simp)
      rintro bs rfl
      simp at failed
  | readNothing _ room idle =>
      refine .nothing room ?_ rfl rfl ?_
      · rintro bs rfl
        simp at idle
      · rw [room.eq.1, phase]
        decide
  | readPart bs _ room part =>
      have moved := Reading.got bs room
      rwa [part, if_neg Bool.false_ne_true, ← phase, ← room.eq.1] at moved
  | readHeader bs _ room complete =>
      have moved := Reading.got bs room
      rwa [complete, if_pos rfl] at moved
  | _ => simp_all

/-- A call that received nothing. -/
structure ReadCall.Idle (c : ReadCall) : Prop where
  buffer : c.after.requestBuffer = c.before.requestBuffer
  capacity : c.after.requestCapacity = c.before.requestCapacity ∨
    c.after.requestCapacity = c.before.readCapacity
  waiting : c.after.state ≠ .authenticating
  fills : c.fills = false

/-- A call that received something. -/
structure ReadCall.Got (c : ReadCall) : Prop where
  buffer : c.after.requestBuffer = c.before.requestBuffer ++ c.chunk
  capacity : c.after.requestCapacity = c.before.readCapacity
  state : c.after.state =
    if (strstr (cstr c.after.requestBuffer) crlfcrlf).isSome then .authenticating
    else .readingRequest
  asked : c.chunk.length ≤ c.before.readCapacity - c.before.requestBuffer.length
  fills : c.fills =
    decide (c.chunk.length = c.before.readCapacity - c.before.requestBuffer.length)

/-- What a call leaves behind that received nothing, and what one that did. -/
theorem ReadCall.Valid.idle_or_got (valid : c.Valid) :
    (c.chunk = [] ∧ c.Idle) ∨ (c.chunk ≠ [] ∧ c.Got) := by
  obtain ⟨before, event, io, after⟩ := c
  obtain ⟨phase, run, admitted⟩ := valid
  have reading : Reading before io after := handleReadingRequest_reading phase run
  cases reading with
  | noMemory => exact .inl ⟨rfl, rfl, .inl rfl, ClientStateEnum.noConfusion, rfl⟩
  | @nothing g st₁ _ r room empty buffer capacity waiting =>
      have none : Io.received .client ⟨readCall st₁, r⟩ = [] ∧
          Io.fills ⟨readCall st₁, r⟩ = false := by
        cases r with
        | data bs => exact absurd rfl (empty bs)
        | _ => exact ⟨rfl, rfl⟩
      refine .inl ⟨?_, buffer.trans room.eq.2, .inr (capacity.trans room.readCapacity_eq),
        waiting, ?_⟩
      · show received .client (g ++ _) = []
        rw [received_append, room.received_eq, received_singleton, none.1]
        rfl
      · show (g ++ [_]).any Io.fills = false
        rw [List.any_append, room.fills_eq, List.any_cons, none.2]
        rfl
  | @got g st₁ bs room =>
      have hchunk : received .client (g ++ [⟨readCall st₁, .data bs⟩]) = bs := by
        rw [received_append, room.received_eq, received_singleton]
        rfl
      -- `recv` returns at least one byte, and no more than it was asked for
      have within : Admits (readCall st₁) (.data bs) = true :=
        admitted _ (List.mem_append_right _ (List.mem_singleton.mpr rfl))
      have asked : st₁.requestCapacity - st₁.requestBuffer.length =
          before.readCapacity - before.requestBuffer.length := by
        rw [room.readCapacity_eq, room.eq.2]
      simp only [Admits, readCall, Bool.and_eq_true, decide_eq_true_eq, asked] at within
      refine .inr ⟨?_, ?_, room.readCapacity_eq, rfl, ?_, ?_⟩
      · show received .client (g ++ _) ≠ []
        rw [hchunk]
        exact List.ne_nil_of_length_pos within.1
      · show st₁.requestBuffer ++ bs = before.requestBuffer ++ received .client (g ++ _)
        rw [hchunk, room.eq.2]
      · show (received .client (g ++ _)).length ≤ _
        rw [hchunk]
        exact within.2
      · have fills : Io.fills ⟨readCall st₁, .data bs⟩ =
            decide (bs.length = st₁.requestCapacity - st₁.requestBuffer.length) := rfl
        show (g ++ [_]).any Io.fills = decide ((received .client (g ++ _)).length = _)
        rw [hchunk, List.any_append, room.fills_eq, List.any_cons, fills, asked]
        simp

/-- Every `recv` asks for what is free in the buffer. -/
theorem ReadCall.Valid.asked_eq (valid : c.Valid) {e : Io} {side : Side} {n : Nat} (he : e ∈ c.io)
    (hcall : e.call = .recv side fd n) :
    n = c.before.readCapacity - c.before.requestBuffer.length := by
  obtain ⟨before, event, io, after⟩ := c
  obtain ⟨phase, run, -⟩ := valid
  have asked : ∀ {g : History} {st₁ : ClientState} {r : RecvResult}, MadeRoom before g st₁ →
      e ∈ g ++ [⟨readCall st₁, r⟩] →
      n = before.readCapacity - before.requestBuffer.length := by
    intro g st₁ r room member
    rcases List.mem_append.mp member with early | last
    · cases room with
      | fits => exact absurd early List.not_mem_nil
      | grown =>
          rw [List.mem_singleton.mp early] at hcall
          cases hcall
    · rw [List.mem_singleton.mp last] at hcall
      cases hcall
      rw [room.readCapacity_eq, room.eq.2]
  have reading : Reading before io after := handleReadingRequest_reading phase run
  cases reading with
  | noMemory =>
      rw [List.mem_singleton.mp he] at hcall
      cases hcall
  | nothing room => exact asked room he
  | got bs room => exact asked room he

/-! ## Sequences of calls -/

@[simp] theorem chunks_nil : chunks [] = [] := rfl

@[simp] theorem chunks_cons (c : ReadCall) (rest : List ReadCall) :
    chunks (c :: rest) = c.chunk ++ chunks rest := rfl

@[simp] theorem chunks_append (front back : List ReadCall) :
    chunks (front ++ back) = chunks front ++ chunks back := List.flatMap_append

theorem ClientState.Between.request_eq (h : st.Between st') :
    st'.state = st.state ∧ st'.requestBuffer = st.requestBuffer ∧
      st'.requestCapacity = st.requestCapacity := by
  unfold ClientState.Between at h
  rw [h]
  exact ⟨rfl, rfl, rfl⟩

/-- The request is not longer than its buffer. -/
structure ClientState.RequestFits (st : ClientState) : Prop where
  fits : st.requestBuffer.length ≤ st.requestCapacity
  pos : 0 < st.requestCapacity

theorem ClientState.requestFits_create : (ClientState.create fd now).RequestFits :=
  ⟨Nat.zero_le _, show 0 < maxBufferSize by decide⟩

theorem ClientState.le_readCapacity (st : ClientState) :
    st.requestCapacity ≤ st.readCapacity := by
  unfold readCapacity
  split
  · omega
  · exact Nat.le_refl _

theorem ClientState.RequestFits.between (h : st.RequestFits) (same : st.Between st') :
    st'.RequestFits := by
  obtain ⟨-, hbuffer, hcapacity⟩ := same.request_eq
  exact ⟨by rw [hbuffer, hcapacity]; exact h.fits, by rw [hcapacity]; exact h.pos⟩

theorem ReadCall.Valid.requestFits (valid : c.Valid) (fits : c.before.RequestFits) :
    c.after.RequestFits := by
  have hle := c.before.le_readCapacity
  have hpos := fits.pos
  have hfits := fits.fits
  rcases valid.idle_or_got with ⟨-, idle⟩ | ⟨-, got⟩
  · have hlength := congrArg List.length idle.buffer
    rcases idle.capacity with hcapacity | hcapacity
    · exact ⟨by omega, by omega⟩
    · exact ⟨by omega, by omega⟩
  · have hcapacity := got.capacity
    have hasked := got.asked
    refine ⟨?_, by omega⟩
    rw [got.buffer, List.length_append]
    omega

/-- Every call of a sequence finds a request that fits. -/
theorem Reads.requestFits (fits : st.RequestFits) (reads : Reads st calls) :
    ∀ c ∈ calls, c.Valid ∧ c.before.RequestFits := by
  induction calls generalizing st with
  | nil => exact fun c hc => absurd hc List.not_mem_nil
  | cons c rest ih =>
      obtain ⟨same, valid, later⟩ := reads
      have before := fits.between same
      exact List.forall_mem_cons.mpr ⟨⟨valid, before⟩, ih (valid.requestFits before) later⟩

theorem Reads.append {more : List ReadCall} :
    Reads st (calls ++ more) ↔ Reads st calls ∧ Reads (st.afterReads calls) more := by
  induction calls generalizing st with
  | nil => exact (and_iff_right trivial).symm
  | cons c rest ih =>
      show _ ∧ _ ∧ Reads c.after (rest ++ more) ↔ (_ ∧ _ ∧ Reads c.after rest) ∧ _
      rw [ih, and_assoc, and_assoc]
      rfl

theorem ClientState.afterReads_append {more : List ReadCall} :
    st.afterReads (calls ++ more) = (st.afterReads calls).afterReads more := by
  induction calls generalizing st with
  | nil => rfl
  | cons c rest ih => exact ih

/-! ## What a call stores and asks for -/

/-- The terminator is inside unless the chunk filled the buffer. -/
theorem ReadCall.Valid.terminator_inside (valid : c.Valid) (fits : c.before.RequestFits) :
    Inside c.after.requestCapacity c.terminator ↔ c.fills = false := by
  unfold terminator
  rcases valid.idle_or_got with ⟨none, idle⟩ | ⟨some, got⟩
  · rw [if_pos none]
    exact iff_of_true (inside_nil _) idle.fills
  · have hle := c.before.le_readCapacity
    have hfits := fits.fits
    have hasked := got.asked
    rw [if_neg some, inside_cons, and_iff_left (inside_nil _), got.fills, got.buffer, got.capacity,
      List.length_append, decide_eq_false_iff_not]
    show _ + _ < _ ↔ _
    omega

/-- Every `recv` of the call asks for something. -/
def ReadCall.Asks (c : ReadCall) : Prop :=
  ∀ e ∈ c.io, ∀ side fd n, e.call = .recv side fd n → 0 < n

/-- A call asks for something unless it finds the buffer full. -/
theorem ReadCall.Valid.asks_iff (valid : c.Valid) (fits : c.before.RequestFits) :
    c.Asks ↔ c.before.requestBuffer.length < c.before.requestCapacity := by
  have hle := c.before.le_readCapacity
  have hfits := fits.fits
  have hpos := fits.pos
  constructor
  · intro asks
    by_cases room : c.before.requestBuffer.length = c.before.requestCapacity - 1
    · omega
    · have hread : c.before.readCapacity = c.before.requestCapacity := if_neg room
      -- a call that does not have to grow the buffer reads
      have member : ∃ e ∈ c.io, ∃ fd n, e.call = .recv .client fd n := by
        obtain ⟨before, event, io, after⟩ := c
        have reading : Reading before io after := handleReadingRequest_reading valid.phase valid.run
        cases reading with
        | noMemory full => exact absurd full room
        | nothing => exact ⟨_, List.mem_append_right _ (List.mem_singleton.mpr rfl), _, _, rfl⟩
        | got => exact ⟨_, List.mem_append_right _ (List.mem_singleton.mpr rfl), _, _, rfl⟩
      obtain ⟨e, he, fd, n, hcall⟩ := member
      have asked := valid.asked_eq he hcall
      have some := asks e he _ fd n hcall
      omega
  · intro room e he side fd n hcall
    rw [valid.asked_eq he hcall]
    unfold ClientState.readCapacity
    split <;> omega

/-- A call leaves room in the buffer unless the chunk filled it. -/
theorem ReadCall.Valid.room_iff (valid : c.Valid) (fits : c.before.RequestFits)
    (room : c.before.requestBuffer.length < c.before.requestCapacity) :
    c.after.requestBuffer.length < c.after.requestCapacity ↔ c.fills = false := by
  have hle := c.before.le_readCapacity
  have hfits := fits.fits
  rcases valid.idle_or_got with ⟨-, idle⟩ | ⟨-, got⟩
  · rw [idle.buffer]
    refine iff_of_true ?_ idle.fills
    rcases idle.capacity with hcapacity | hcapacity <;> omega
  · have hasked := got.asked
    rw [got.fills, got.buffer, got.capacity, List.length_append, decide_eq_false_iff_not]
    omega

/-- The sequence asks for something in every call unless a chunk before the last
filled the buffer: the next call finds no room and does not make any. -/
theorem Reads.asks_iff (fits : st.RequestFits)
    (room : st.requestBuffer.length < st.requestCapacity) (reads : Reads st calls) :
    (∀ c ∈ calls, c.Asks) ↔ ∀ c ∈ calls.dropLast, c.fills = false := by
  induction calls generalizing st with
  | nil => simp
  | cons c rest ih =>
      obtain ⟨same, valid, later⟩ := reads
      have before := fits.between same
      obtain ⟨-, hbuffer, hcapacity⟩ := same.request_eq
      rw [← hbuffer, ← hcapacity] at room
      have asks : c.Asks := (valid.asks_iff before).mpr room
      cases rest with
      | nil => simpa using asks
      | cons d rest =>
          have after := valid.requestFits before
          rw [List.forall_mem_cons, and_iff_right asks, List.dropLast_cons_cons,
            List.forall_mem_cons (a := c), ← valid.room_iff before room]
          by_cases left : c.after.requestBuffer.length < c.after.requestCapacity
          · rw [ih after left later, and_iff_right left]
          -- a full buffer is never grown: the next call asks for nothing
          · obtain ⟨-, hbuffer, hcapacity⟩ := later.1.request_eq
            refine iff_of_false (fun all => left ?_) (fun h => left h.1)
            rw [← hbuffer, ← hcapacity]
            exact (later.2.1.asks_iff (after.between later.1)).mp (all d List.mem_cons_self)

/-! ## What has arrived -/

/-- After the call the buffer has everything that arrived, and the client moves on
with the chunk that completes the header. -/
structure Gathers (earlier : List ReadCall) (c : ReadCall) : Prop where
  buffer : c.after.requestBuffer = chunks (earlier ++ [c])
  moves : c.after.state = .authenticating ↔
    crlfcrlf <:+: chunks (earlier ++ [c]) ∧ ¬ crlfcrlf <:+: chunks earlier

/-- While a client reads, the buffer has what arrived, and no header is complete. -/
structure ClientState.Gathered (st : ClientState) (arrived : Bytes) : Prop where
  buffer : st.requestBuffer = arrived
  incomplete : st.state = .readingRequest → ¬ crlfcrlf <:+: arrived

theorem ReadCall.Valid.gathered (valid : c.Valid) {arrived : Bytes}
    (nulFree : 0 ∉ arrived ++ c.chunk) (before : c.before.Gathered arrived) :
    c.after.Gathered (arrived ++ c.chunk) ∧
      (c.after.state = .authenticating ↔ crlfcrlf <:+: arrived ++ c.chunk) := by
  have incomplete := before.incomplete valid.phase
  rcases valid.idle_or_got with ⟨none, idle⟩ | ⟨-, got⟩
  · rw [none, List.append_nil]
    exact ⟨⟨idle.buffer.trans before.buffer, fun _ => incomplete⟩,
      iff_of_false idle.waiting incomplete⟩
  · have hbuffer : c.after.requestBuffer = arrived ++ c.chunk := by
      rw [got.buffer, before.buffer]
    have hstate := got.state
    rw [hbuffer, cstr_of_not_mem nulFree] at hstate
    simp only [strstr_isSome] at hstate
    by_cases complete : crlfcrlf <:+: arrived ++ c.chunk
    · rw [if_pos complete] at hstate
      refine ⟨⟨hbuffer, fun reading => ?_⟩, iff_of_true hstate complete⟩
      rw [hstate] at reading
      cases reading
    · rw [if_neg complete] at hstate
      refine ⟨⟨hbuffer, fun _ => complete⟩, iff_of_false (fun moved => ?_) complete⟩
      rw [hstate] at moved
      cases moved

/-- However the bytes are cut into chunks, every call gathers them. -/
theorem Reads.gathers {earlier : List ReadCall} (gathered : st.Gathered (chunks earlier))
    (nulFree : 0 ∉ chunks (earlier ++ calls)) (reads : Reads st calls) :
    EachAfter Gathers earlier calls := by
  induction calls generalizing st earlier with
  | nil => trivial
  | cons c rest ih =>
      obtain ⟨same, valid, later⟩ := reads
      obtain ⟨hstate, hbuffer, -⟩ := same.request_eq
      have before : c.before.Gathered (chunks earlier) :=
        ⟨hbuffer.trans gathered.buffer, fun reading => gathered.incomplete (hstate ▸ reading)⟩
      have hchunks : chunks (earlier ++ [c]) = chunks earlier ++ c.chunk := by simp
      have split : earlier ++ c :: rest = earlier ++ [c] ++ rest := by simp
      rw [split] at nulFree
      have clean : 0 ∉ chunks (earlier ++ [c]) := fun h => nulFree (by
        rw [chunks_append]
        exact List.mem_append_left _ h)
      rw [hchunks] at clean
      obtain ⟨after, moves⟩ := valid.gathered clean before
      rw [← hchunks] at after moves
      refine ⟨⟨after.buffer, moves.trans (and_iff_left ?_).symm⟩, ih after nulFree later⟩
      exact before.incomplete valid.phase

/-! ## Reading clients of the proxy -/

/-- A move that goes on reading is a call of `handle_reading_request`. -/
theorem Move.reading_runs {ev : ClientEvent} {tr : History} {again : Bool}
    (move : Move ev st tr st' again) (phase : st.state = .readingRequest)
    (phase' : st'.state = .readingRequest) :
    (handleReadingRequest handOver st ev).Runs tr st' := by
  have reads : ∀ {g t : History} {st₁ : ClientState}, MadeRoom st g st₁ →
      (receiveRequest st₁).Runs t (0, st') → (handleReadingRequest handOver st ev).Runs (g ++ t) st' := by
    intro g t st₁ room run
    rw [handleReadingRequest, Prog.runs_bind]
    refine ⟨(0, st'), g ++ t, [], by simp, ?_, rfl, rfl⟩
    unfold readRequestNonblocking
    cases room with
    | fits room =>
        rw [if_neg room]
        exact run
    | grown room =>
        rw [if_pos room]
        exact ⟨true, t, rfl, run⟩
  cases move with
  | @readNothing g st₁ r _ room idle =>
      refine reads room ⟨r, [], rfl, ?_⟩
      rcases idle with rfl | ⟨rfl, some⟩
      · exact ⟨rfl, rfl⟩
      · show (if _ then _ else _ : Proc (Int × ClientState)).Runs _ _
        rw [if_neg some]
        exact ⟨rfl, rfl⟩
  | readPart bs _ room part =>
      refine reads room ⟨.data bs, [], rfl, ?_⟩
      show (if _ then _ else _ : Proc (Int × ClientState)).Runs _ _
      rw [part]
      exact ⟨rfl, rfl⟩
  | _ => simp_all

theorem ClientState.Between.trans {st₁ : ClientState} (h₁ : st.Between st₁)
    (h₂ : st₁.Between st') : st.Between st' := by
  unfold Between at *
  rw [h₂, h₁]

/-- A client that is reading got there by a sequence of calls. -/
def ReadSoFar (st : ClientState) : Prop :=
  st.state = .readingRequest → ∃ fd now calls, Reads (.create fd now) calls ∧
    ((ClientState.create fd now).afterReads calls).Between st

theorem ReadSoFar.between (h : ReadSoFar st) (same : st.Between st') : ReadSoFar st' := by
  intro phase
  rw [same.request_eq.1] at phase
  obtain ⟨fd, now, calls, reads, last⟩ := h phase
  exact ⟨fd, now, calls, reads, last.trans same⟩

theorem ReadSoFar.move {ev : ClientEvent} {tr : History} {again : Bool} (h : ReadSoFar st)
    (move : Move ev st tr st' again) (ok : Admitted tr) : ReadSoFar st' := by
  intro phase'
  by_cases phase : st.state = .readingRequest
  · obtain ⟨fd, now, calls, reads, last⟩ := h phase
    refine ⟨fd, now, calls ++ [⟨st, ev, tr, st'⟩], Reads.append.mpr ⟨reads, last, ?_, trivial⟩, ?_⟩
    · exact ⟨phase, move.reading_runs phase phase', ok⟩
    · rw [ClientState.afterReads_append]
      exact rfl
  · -- no other state goes back to reading
    cases move with
    | relayed forwarding run =>
        have transfer : TransferSpec st st' tr := (connectionForward_runs run ok).1
        rw [transfer.frame] at phase'
        exact absurd phase' phase
    | _ => simp_all

theorem readSoFar_inv : SessionInv (fun st _ => ReadSoFar st) (fun _ => True) where
  weaken _ := trivial
  start := trivial
  refused _ := trivial
  born := by
    intro fd tr res registered _
    cases registered with
    | created now => exact fun _ => ⟨fd, now, [], trivial, rfl⟩
    | _ => trivial
  slot n h := h.between rfl
  move h _ move ok := h.move move ok
  tick := by
    intro st tr res _ h ticked _
    cases ticked with
    | active => exact h
    | released => trivial
    | silenced => exact h.between rfl
    | expired => exact h.between rfl
  release _ _ _ := trivial

/-- **Reading clients.** A client that is in `READING_REQUEST` in a reachable world
went through a sequence of calls from its creation on. -/
theorem reading_reachable {w : World} (h : proxy.Reachable w) {id : ClientId}
    (live : w.mem.heap id = some st) : ReadSoFar st :=
  (readSoFar_inv.reachable h id).2 st live

end SimpleProxy
