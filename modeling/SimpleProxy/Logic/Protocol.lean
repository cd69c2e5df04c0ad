import SimpleProxy.Lib.System
import SimpleProxy.Main.Client
import Mathlib.Logic.Function.Basic

/-!
# The protocol of a session

What an authenticating relay does for one client, as those it talks to notice it: it listens
until a request is complete, has the request checked, answers one that is denied, looks up and
dials where a granted one says, greets the client of a tunnel, and from then on passes on what
it hears, in both directions and in order. `Rules` is what the protocol leaves open. There are
no descriptors, buffer sizes, events or other clients here.

`wire_of_run` is what a peer can rely on: the bytes that go to the target are those of the
client, from its request on or behind it, and those that go to the client are the answers of
the relay and then those of the target.
-/

namespace SimpleProxy

open Interact CString

/-- What is noticed of a session. `told` is a reply of the relay's own, of which `n` bytes were
accepted; `passed` is traffic. -/
inductive Deed
  | heard (side : Side) (bs : Bytes)
  | asked (request : Bytes) (granted : Bool)
  | located (host : Bytes) (addr : Option Addr)
  | dialled (addr : Addr) (port : Nat) (r : ConnectResult)
  | settled (ok : Bool)
  | told (text : Bytes) (n : Nat)
  | passed (side : Side) (bs : Bytes)
  | hungUp (side : Side)
  deriving DecidableEq, Repr

/-- When a request is complete, where it goes, whether it asks for a tunnel, and the two replies
of the relay. -/
structure Rules where
  complete : Bytes → Bool
  endpoint : Bytes → Option (Bytes × Nat)
  tunnel : Bytes → Bool
  denial : Bytes
  greeting : Bytes

/-- How far a session is, and what is waiting in it: `waiting side` was heard from that side
and not passed on yet. -/
inductive Stage
  | listening (request : Bytes)
  | denied
  | granted (request host : Bytes) (port : Nat)
  | located (request : Bytes) (addr : Addr) (port : Nat)
  | calling (request waiting : Bytes)
  | greeting (request : Bytes) (connected : Bool)
  | relaying (waiting : Side → Bytes)
  | ended

/-- The moves of the protocol. -/
inductive Rules.Step (R : Rules) : Stage → Deed → Stage → Prop
  | listen {request : Bytes} (bs : Bytes) (partial' : R.complete request = false) :
      Step R (.listening request) (.heard .client bs) (.listening (request ++ bs))
  | deny {request : Bytes} (complete : R.complete request = true) :
      Step R (.listening request) (.asked request false) .denied
  | grant {request host : Bytes} {port : Nat} (complete : R.complete request = true)
      (endpoint : R.endpoint request = some (host, port)) :
      Step R (.listening request) (.asked request true) (.granted request host port)
  | nowhere {request : Bytes} (complete : R.complete request = true)
      (endpoint : R.endpoint request = none) :
      Step R (.listening request) (.asked request true) .ended
  | refuse (n : Nat) : Step R .denied (.told R.denial n) .ended
  | locate {request host : Bytes} {port : Nat} (addr : Addr) :
      Step R (.granted request host port) (.located host (some addr)) (.located request addr port)
  | unknown {request host : Bytes} {port : Nat} :
      Step R (.granted request host port) (.located host none) .ended
  | call {request : Bytes} {addr : Addr} {port : Nat} :
      Step R (.located request addr port) (.dialled addr port .inProgress)
        (.calling request request)
  | reach {request : Bytes} {addr : Addr} {port : Nat} (plain : R.tunnel request = false) :
      Step R (.located request addr port) (.dialled addr port .ok) (.calling request request)
  | reachTunnel {request : Bytes} {addr : Addr} {port : Nat} (tunnel : R.tunnel request = true) :
      Step R (.located request addr port) (.dialled addr port .ok) (.greeting request false)
  | unreachable {request : Bytes} {addr : Addr} {port : Nat} :
      Step R (.located request addr port) (.dialled addr port .error) .ended
  | greetEarly {request : Bytes} (n : Nat) :
      Step R (.greeting request false) (.told R.greeting n) (.calling request [])
  | connect {request waiting : Bytes} (plain : R.tunnel request = false) :
      Step R (.calling request waiting) (.settled true)
        (.relaying (Function.update (fun _ => []) .client waiting))
  | connectTunnel {request waiting : Bytes} (tunnel : R.tunnel request = true) :
      Step R (.calling request waiting) (.settled true) (.greeting request true)
  | fail {request waiting : Bytes} : Step R (.calling request waiting) (.settled false) .ended
  | greet {request : Bytes} (n : Nat) :
      Step R (.greeting request true) (.told R.greeting n) (.relaying fun _ => [])
  | hear {waiting : Side → Bytes} (side : Side) (bs : Bytes) :
      Step R (.relaying waiting) (.heard side bs)
        (.relaying (Function.update waiting side (waiting side ++ bs)))
  | pass {waiting : Side → Bytes} {side : Side} {bs rest : Bytes}
      (first : waiting side.other = bs ++ rest) :
      Step R (.relaying waiting) (.passed side bs)
        (.relaying (Function.update waiting side.other rest))
  | hangUp (stage : Stage) (side : Side) : Step R stage (.hungUp side) .ended

/-- The sessions of a relay. -/
def Rules.protocol (R : Rules) : Labelled Stage Deed where
  init := .listening []
  step := R.Step

/-! ## The streams of a session -/

/-- What was heard from each side, what it was sent, and which requests were granted. -/
@[ext] structure Streams where
  heard : Side → Bytes
  sent : Side → Bytes
  grants : List Bytes

namespace Deed

def hears (side : Side) : Deed → Bytes
  | heard s bs => if s = side then bs else []
  | _ => []

def sends (side : Side) : Deed → Bytes
  | told text n => if .client = side then text.take n else []
  | passed s bs => if s = side then bs else []
  | _ => []

def grants : Deed → List Bytes
  | asked request true => [request]
  | _ => []

end Deed

def Streams.add (s : Streams) (d : Deed) : Streams where
  heard side := s.heard side ++ d.hears side
  sent side := s.sent side ++ d.sends side
  grants := s.grants ++ d.grants

def streams (ds : List Deed) : Streams where
  heard side := ds.flatMap (Deed.hears side)
  sent side := ds.flatMap (Deed.sends side)
  grants := ds.flatMap Deed.grants

@[simp] theorem streams_nil : streams [] = ⟨fun _ => [], fun _ => [], []⟩ := rfl

theorem streams_append (d₁ d₂ : List Deed) : streams (d₁ ++ d₂) =
    ⟨fun side => (streams d₁).heard side ++ (streams d₂).heard side,
      fun side => (streams d₁).sent side ++ (streams d₂).sent side,
      (streams d₁).grants ++ (streams d₂).grants⟩ := by
  simp [streams]

theorem streams_concat (ds : List Deed) (d : Deed) : streams (ds ++ [d]) = (streams ds).add d := by
  simp [streams, Streams.add]

section Add

variable (s : Streams) (d : Deed) (side : Side)

@[simp] theorem Streams.add_heard : (s.add d).heard side = s.heard side ++ d.hears side := rfl

@[simp] theorem Streams.add_sent : (s.add d).sent side = s.sent side ++ d.sends side := rfl

@[simp] theorem Streams.add_grants : (s.add d).grants = s.grants ++ d.grants := rfl

end Add

namespace Rules

variable {R : Rules} {s : Streams} {stage stage' : Stage} {d : Deed} {request : Bytes}

/-- The bytes of the client that are not for the target: the request for a tunnel. -/
def dropped (R : Rules) (request : Bytes) : Nat := if R.tunnel request then request.length else 0

/-- What a client has been told in front of the traffic. A tunnel is greeted up to twice, and
nobody else. -/
def Greeted (R : Rules) (request told : Bytes) : Prop :=
  ∃ i j, (R.tunnel request = false → i = 0 ∧ j = 0) ∧
    told = R.greeting.take i ++ R.greeting.take j

theorem Greeted.nothing : R.Greeted request [] := ⟨0, 0, fun _ => ⟨rfl, rfl⟩, rfl⟩

/-- What a session looks like from outside. -/
inductive Wire (R : Rules) (s : Streams) : Prop
  | refused (grants : s.grants = []) (heard : s.heard .target = []) (target : s.sent .target = [])
      (client : s.sent .client <+: R.denial)
  | relayed (request told : Bytes) (grants : s.grants = [request])
      (complete : R.complete request = true) (begins : request <+: s.heard .client)
      (target : s.sent .target <+: (s.heard .client).drop (R.dropped request))
      (greeted : R.Greeted request told) (client : s.sent .client <+: told ++ s.heard .target)

/-- Nothing was granted, and nobody was told or sent anything. -/
structure Unasked (s : Streams) : Prop where
  grants : s.grants = []
  heard : s.heard .target = []
  sent : ∀ side, s.sent side = []

/-- A request was granted, and is all that was heard. -/
structure Dialling (R : Rules) (s : Streams) (request : Bytes) : Prop where
  grants : s.grants = [request]
  complete : R.complete request = true
  client : s.heard .client = request
  target : s.heard .target = []
  sent : s.sent .target = []

/-- Traffic: what was sent to a side and what waits for it is what the other side said. -/
structure Flowing (R : Rules) (s : Streams) (request told : Bytes) (waiting : Side → Bytes) :
    Prop where
  grants : s.grants = [request]
  complete : R.complete request = true
  begins : request <+: s.heard .client
  greeted : R.Greeted request told
  up : s.sent .target ++ waiting .client = (s.heard .client).drop (R.dropped request)
  down : s.sent .client ++ waiting .target = told ++ s.heard .target

/-- What has happened in a session that is at this stage. -/
def InOrder (R : Rules) (s : Streams) : Stage → Prop
  | .listening request => Unasked s ∧ s.heard .client = request
  | .denied => Unasked s
  | .granted request _ _ => R.Dialling s request ∧ s.sent .client = []
  | .located request _ _ => R.Dialling s request ∧ s.sent .client = []
  | .calling request waiting =>
      R.Dialling s request ∧ (R.tunnel request = false → s.sent .client = [] ∧ waiting = request) ∧
        ∃ i, s.sent .client = R.greeting.take i
  | .greeting request connected =>
      R.Dialling s request ∧ R.tunnel request = true ∧
        ∃ i, (connected = false → i = 0) ∧ s.sent .client = R.greeting.take i
  | .relaying waiting => ∃ request told, R.Flowing s request told waiting
  | .ended => R.Wire s

theorem Unasked.wire (h : Unasked s) : R.Wire s :=
  .refused h.grants h.heard (h.sent .target) (by rw [h.sent]; exact List.nil_prefix)

theorem Dialling.begins (h : R.Dialling s request) : request <+: s.heard .client :=
  ⟨[], by rw [List.append_nil, h.client]⟩

theorem Dialling.wire (h : R.Dialling s request) {told : Bytes} (greeted : R.Greeted request told)
    (client : s.sent .client = told) : R.Wire s := by
  refine .relayed request told h.grants h.complete h.begins ?_ greeted ?_
  · rw [h.sent]
    exact List.nil_prefix
  · rw [client]
    exact List.prefix_append _ _

theorem Flowing.wire {told : Bytes} {waiting : Side → Bytes}
    (h : R.Flowing s request told waiting) : R.Wire s :=
  .relayed request told h.grants h.complete h.begins ⟨_, h.up⟩ h.greeted ⟨_, h.down⟩

theorem greeted_once (tunnel : R.tunnel request = true) (i : Nat) :
    R.Greeted request (R.greeting.take i) :=
  ⟨i, 0, fun plain => absurd (tunnel.symm.trans plain) (by simp), by simp⟩

/-- A client that may have been greeted once, if it asked for a tunnel. -/
theorem Dialling.wire_called (h : R.Dialling s request)
    (plain : R.tunnel request = false → s.sent .client = []) {i : Nat}
    (told : s.sent .client = R.greeting.take i) : R.Wire s := by
  cases tunnel : R.tunnel request with
  | false => exact h.wire .nothing (plain tunnel)
  | true => exact h.wire (greeted_once tunnel i) told

/-- The prefix conditions at any stage. -/
theorem InOrder.wire (h : R.InOrder s stage) : R.Wire s := by
  cases stage with
  | listening => exact h.1.wire
  | denied => exact Unasked.wire h
  | granted => exact h.1.wire .nothing h.2
  | located => exact h.1.wire .nothing h.2
  | calling =>
      obtain ⟨dialling, plain, i, told⟩ := h
      exact dialling.wire_called (fun h => (plain h).1) told
  | greeting =>
      obtain ⟨dialling, tunnel, i, -, told⟩ := h
      exact dialling.wire (greeted_once tunnel i) told
  | relaying =>
      obtain ⟨request, told, flowing⟩ := h
      exact flowing.wire
  | ended => exact h

/-- A deed that nobody hears of and that grants nothing. -/
theorem Dialling.silent (h : R.Dialling s request) (heard : ∀ side, d.hears side = [])
    (sends : d.sends .target = []) (grants : d.grants = []) : R.Dialling (s.add d) request where
  grants := by rw [Streams.add_grants, grants, List.append_nil, h.grants]
  complete := h.complete
  client := by rw [Streams.add_heard, heard, List.append_nil, h.client]
  target := by rw [Streams.add_heard, heard, List.append_nil, h.target]
  sent := by rw [Streams.add_sent, sends, List.append_nil, h.sent]

/-- The first traffic. -/
theorem Dialling.flowing (h : R.Dialling s request) {told waiting : Bytes}
    (greeted : R.Greeted request told) (client : s.sent .client = told)
    (rest : waiting = request.drop (R.dropped request)) :
    R.Flowing s request told (Function.update (fun _ => []) .client waiting) where
  grants := h.grants
  complete := h.complete
  begins := h.begins
  greeted := greeted
  up := by rw [h.sent, h.client, Function.update_self, rest, List.nil_append]
  down := by simp [h.target, client]

/-- What a side says joins what waits to be passed on. -/
theorem Flowing.hear {told : Bytes} {waiting : Side → Bytes} (h : R.Flowing s request told waiting)
    (side : Side) (bs : Bytes) :
    R.Flowing (s.add (.heard side bs)) request told
      (Function.update waiting side (waiting side ++ bs)) := by
  have short : R.dropped request ≤ (s.heard .client).length := by
    have := h.begins.length_le
    unfold dropped
    split <;> omega
  cases side with
  | client =>
      refine ⟨by simp [h.grants, Deed.grants], h.complete, ?_, h.greeted, ?_, ?_⟩
      · exact h.begins.trans (List.prefix_append _ _)
      · have up := h.up
        simp only [Streams.add_sent, Streams.add_heard, Deed.sends, Deed.hears, List.append_nil,
          Function.update_self, if_true, List.drop_append_of_le_length short, ← up,
          List.append_assoc]
      · simpa [Deed.sends, Deed.hears] using h.down
  | target =>
      refine ⟨by simp [h.grants, Deed.grants], h.complete, ?_, h.greeted, ?_, ?_⟩
      · simpa [Deed.hears] using h.begins
      · simpa [Deed.sends, Deed.hears] using h.up
      · have down := h.down
        simp only [Streams.add_sent, Streams.add_heard, Deed.sends, Deed.hears, List.append_nil,
          Function.update_self, if_true, ← List.append_assoc, down]

/-- What is passed on is what waited longest. -/
theorem Flowing.pass {told : Bytes} {waiting : Side → Bytes} (h : R.Flowing s request told waiting)
    {side : Side} {bs rest : Bytes} (first : waiting side.other = bs ++ rest) :
    R.Flowing (s.add (.passed side bs)) request told
      (Function.update waiting side.other rest) := by
  cases side with
  | client =>
      have first : waiting .target = bs ++ rest := first
      refine ⟨by simp [h.grants, Deed.grants], h.complete, ?_, h.greeted, ?_, ?_⟩
      · simpa [Deed.hears] using h.begins
      · simpa [Deed.sends, Deed.hears, Side.other] using h.up
      · have down := h.down
        simpa [first, Deed.sends, Deed.hears, Side.other] using down
  | target =>
      have first : waiting .client = bs ++ rest := first
      refine ⟨by simp [h.grants, Deed.grants], h.complete, ?_, h.greeted, ?_, ?_⟩
      · simpa [Deed.hears] using h.begins
      · have up := h.up
        simpa [first, Deed.sends, Deed.hears, Side.other] using up
      · simpa [Deed.sends, Deed.hears, Side.other] using h.down

/-- Hanging up moves no bytes. -/
theorem Wire.hungUp (h : R.Wire s) (side : Side) : R.Wire (s.add (.hungUp side)) := by
  have same : s.add (.hungUp side) = s := by
    ext <;> simp [Deed.hears, Deed.sends, Deed.grants]
  rwa [same]

theorem dropped_plain (plain : R.tunnel request = false) : R.dropped request = 0 := by
  simp [dropped, plain]

theorem dropped_tunnel (tunnel : R.tunnel request = true) : R.dropped request = request.length := by
  simp [dropped, tunnel]

/-- Every move of the protocol keeps the streams in order. -/
theorem InOrder.step (h : R.InOrder s stage) (step : R.Step stage d stage') :
    R.InOrder (s.add d) stage' := by
  cases step with
  | listen bs =>
      obtain ⟨before, heard⟩ := h
      refine ⟨⟨?_, ?_, fun side => ?_⟩, ?_⟩
      · simp [before.grants, Deed.grants]
      · simp [before.heard, Deed.hears]
      · simp [before.sent, Deed.sends]
      · simp [heard, Deed.hears]
  | deny =>
      obtain ⟨before, -⟩ := h
      refine ⟨?_, ?_, fun side => ?_⟩
      · simp [before.grants, Deed.grants]
      · simp [before.heard, Deed.hears]
      · simp [before.sent, Deed.sends]
  | grant complete =>
      obtain ⟨before, heard⟩ := h
      refine ⟨⟨?_, complete, ?_, ?_, ?_⟩, ?_⟩
      · simp [before.grants, Deed.grants]
      · simp [heard, Deed.hears]
      · simp [before.heard, Deed.hears]
      · simp [before.sent, Deed.sends]
      · simp [before.sent, Deed.sends]
  | @nowhere request complete =>
      obtain ⟨before, heard⟩ := h
      refine .relayed request [] ?_ complete ?_ ?_ .nothing ?_
      · simp [before.grants, Deed.grants]
      · simp [heard, Deed.hears]
      · simp [before.sent, Deed.sends]
      · simp [before.sent, Deed.sends]
  | refuse n =>
      have before : Unasked s := h
      refine .refused ?_ ?_ ?_ ?_
      · simp [before.grants, Deed.grants]
      · simp [before.heard, Deed.hears]
      · simp [before.sent, Deed.sends]
      · simpa [before.sent, Deed.sends] using List.take_prefix n R.denial
  | locate addr =>
      obtain ⟨dialling, told⟩ := h
      exact ⟨dialling.silent (fun _ => rfl) rfl rfl, by simp [told, Deed.sends]⟩
  | unknown =>
      obtain ⟨dialling, told⟩ := h
      exact (dialling.silent (fun _ => rfl) rfl rfl).wire .nothing (by simp [told, Deed.sends])
  | call =>
      obtain ⟨dialling, told⟩ := h
      refine ⟨dialling.silent (fun _ => rfl) rfl rfl, fun _ => ⟨?_, rfl⟩, 0, ?_⟩
      · simp [told, Deed.sends]
      · simp [told, Deed.sends]
  | reach plain =>
      obtain ⟨dialling, told⟩ := h
      refine ⟨dialling.silent (fun _ => rfl) rfl rfl, fun _ => ⟨?_, rfl⟩, 0, ?_⟩
      · simp [told, Deed.sends]
      · simp [told, Deed.sends]
  | reachTunnel tunnel =>
      obtain ⟨dialling, told⟩ := h
      refine ⟨dialling.silent (fun _ => rfl) rfl rfl, tunnel, 0, fun _ => rfl, ?_⟩
      simp [told, Deed.sends]
  | unreachable =>
      obtain ⟨dialling, told⟩ := h
      exact (dialling.silent (fun _ => rfl) rfl rfl).wire .nothing (by simp [told, Deed.sends])
  | greetEarly n =>
      obtain ⟨dialling, tunnel, i, first, told⟩ := h
      obtain rfl := first rfl
      refine ⟨dialling.silent (fun _ => rfl) rfl rfl, fun plain => ?_, n, ?_⟩
      · rw [tunnel] at plain
        cases plain
      · simp [told, Deed.sends]
  | connect plain =>
      obtain ⟨dialling, quiet, -⟩ := h
      obtain ⟨told, rfl⟩ := quiet plain
      refine ⟨_, [], (dialling.silent (fun _ => rfl) rfl rfl).flowing .nothing ?_ ?_⟩
      · simp [told, Deed.sends]
      · simp [dropped_plain plain]
  | connectTunnel tunnel =>
      obtain ⟨dialling, -, i, told⟩ := h
      refine ⟨dialling.silent (fun _ => rfl) rfl rfl, tunnel, i, fun h => ?_, ?_⟩
      · cases h
      · simp [told, Deed.sends]
  | fail =>
      obtain ⟨dialling, plain, i, told⟩ := h
      have stopped := dialling.silent (d := .settled false) (fun _ => rfl) rfl rfl
      refine stopped.wire_called (i := i) (fun h => ?_) ?_
      · simp [(plain h).1, Deed.sends]
      · simp [told, Deed.sends]
  | @greet request n =>
      obtain ⟨dialling, tunnel, i, -, told⟩ := h
      have greeted : R.Greeted request (R.greeting.take i ++ R.greeting.take n) :=
        ⟨i, n, fun plain => absurd (tunnel.symm.trans plain) (by simp), rfl⟩
      have dialling := dialling.silent (d := .told R.greeting n) (fun _ => rfl) rfl rfl
      -- the request itself is dropped
      have flowing : R.Flowing (s.add (.told R.greeting n)) request _
          (Function.update (fun _ => []) .client []) :=
        dialling.flowing greeted (by simp [told, Deed.sends]) (by simp [dropped_tunnel tunnel])
      exact ⟨request, _, by rwa [Function.update_eq_self_iff.mpr rfl] at flowing⟩
  | hear side bs =>
      obtain ⟨request, told, flowing⟩ := h
      exact ⟨request, told, flowing.hear side bs⟩
  | pass first =>
      obtain ⟨request, told, flowing⟩ := h
      exact ⟨request, told, flowing.pass first⟩
  | hangUp _ side => exact Wire.hungUp h.wire side

/-- **The wire.** Whatever the peers do, a session that keeps to the protocol looks like this
from outside, at every moment. -/
theorem wire_of_run {ds : List Deed} (run : R.protocol.Run (.listening []) ds stage) :
    R.Wire (streams ds) := by
  refine InOrder.wire (Labelled.Run.invariant (I := fun ds stage => R.InOrder (streams ds) stage)
    ?_ ?_ run)
  · exact ⟨⟨rfl, rfl, fun _ => rfl⟩, rfl⟩
  · intro ds stage d stage' h step
    rw [streams_concat]
    exact h.step step

end Rules

end SimpleProxy
