import TianmaCoder.Session.SeedBoundary
import TianmaCoder.Session.SurfaceManager

/-!
# Live sessions

A session is an append-only log under a `SurfaceManager`, with a cache of the messages
derived from the surface. The cache is extended by unseen node positions and rebuilt when
the content generation moves.

## Main definitions

* `Session.append` — validate a candidate, publish it unless its dispatch fails.
* `Session.deriveMessages` — the cached derivation.
* `Session.create` — the constructor over a borrowed seed.
* `derivedMessages` — the uncached derivation from a log.
-/

namespace TianmaCoder

open Checked

/-- One append: the event type, its payload and its surface metadata, at a clock reading.
`dispatchFailure` is the refusal of the synchronous internal dispatch, if any. -/
structure AppendCall where
  type : EventType
  data : Json
  surfaceOp : Option Json := none
  sourceEventSeqs : Option Json := none
  time : ℤ
  dispatchFailure : Option String := none

/-- An event-sourced session. -/
structure Session where
  /-- Every event object built so far; a `Ref` is a position here. -/
  objects : List SessionEvent
  log : List Ref
  surfaceManager : SurfaceManager
  /-- Whether the header declares fork history. -/
  isSeeded : Bool
  inheritedEventCount : ℕ
  derived : List Json
  derivedNodes : ℕ
  derivedGeneration : ℕ

namespace Session

/-- A session before its constructor reads a seed. -/
def blank : Session where
  objects := []
  log := []
  surfaceManager := SurfaceManager.create
  isSeeded := false
  inheritedEventCount := 0
  derived := []
  derivedNodes := 0
  derivedGeneration := 0

/-- The event a reference denotes. -/
def heap (s : Session) : Ref → SessionEvent := fun r => s.objects.getD r default

/-- `snapshotEvents()` — the complete log. -/
def events (s : Session) : List SessionEvent := s.log.map s.heap

variable (projections : List SessionMessageProjection)

/-- Validate one event object as the next of the log; the object is built either way. -/
def validateNext (s : Session) (event : SessionEvent) : Session × Except String Unit :=
  let s' := { s with objects := s.objects ++ [event] }
  let (m, verdict) :=
    s'.surfaceManager.validateNext s'.heap projections s'.log s.objects.length
  ({ s' with surfaceManager := m }, verdict)

/-- Push the event object built last. -/
def pushLast (s : Session) : Session := { s with log := s.log ++ [s.objects.length - 1] }

/-- The event an append builds. -/
def candidate (s : Session) (call : AppendCall) : SessionEvent where
  type := call.type
  seq := s.log.length
  time := call.time
  data := call.data
  surfaceOp := call.surfaceOp
  sourceEventSeqs := call.sourceEventSeqs

/-- Append one event to the log. -/
def append (s : Session) (call : AppendCall) : Session × Except String SessionEvent :=
  let subject := s!"session event \"{call.type.name}\" at seq {s.log.length}"
  match validateSessionEventData (s.candidate call) subject with
  | .error message => (s, .error message)
  | .ok () =>
    match s.validateNext projections (s.candidate call) with
    | (s', .error message) => (s', .error message)
    | (s', .ok ()) =>
      match call.dispatchFailure with
      | some message => (s', .error message)
      | none => (s'.pushLast, .ok (s.candidate call))

/-- Derive the message of each unseen node onto the cache. -/
def deriveNodes (s : Session) : List ℕ → Session × Except String Unit
  | [] => (s, .ok ())
  | seq :: nodes =>
    match s.log[seq]? with
    | none => (s, .error "Cannot read properties of undefined (reading 'seq')")
    | some event =>
      let (m, message) := s.surfaceManager.read s.heap projections
        (fun state => deriveEventMessage (s.heap event) state.projectedMessages) s.log
      match message with
      | .error message => ({ s with surfaceManager := m }, .error message)
      | .ok message =>
        deriveNodes { s with surfaceManager := m, derived := s.derived ++ message.toList } nodes

/-- Drop the cache when it was built under another content generation. -/
def resetDerived (s : Session) (generation : ℕ) : Session :=
  if generation ≠ s.derivedGeneration then
    { s with derived := [], derivedNodes := 0, derivedGeneration := generation }
  else s

/-- Derive the message history by walking the surface. -/
def deriveMessages (s : Session) : Session × Except String (List Json) :=
  match s.surfaceManager.read s.heap projections (·.nodes) s.log with
  | (m, .error message) => ({ s with surfaceManager := m }, .error message)
  | (m, .ok nodes) =>
    match m.read s.heap projections (·.contentGeneration) s.log with
    | (m, .error message) => ({ s with surfaceManager := m }, .error message)
    | (m, .ok generation) =>
      let s := { s with surfaceManager := m }.resetDerived generation
      match s.deriveNodes projections (nodes.drop s.derivedNodes) with
      | (s, .error message) => (s, .error message)
      | (s, .ok ()) => ({ s with derivedNodes := nodes.length }, .ok s.derived)

/-! ## The constructor -/

/-- Admit one seed event at its index. -/
def seedEvent (s : Session) (entry : SessionEvent × ℕ) : Except String Session := do
  assertSessionEventEnvelope entry.1 entry.2
  if entry.1.seq ≠ entry.2 then
    throw s!"seed event at index {entry.2} has seq {entry.1.seq} (expected {entry.2}); seed must be contiguous from 0"
  match s.validateNext projections entry.1 with
  | (_, .error message) => throw s!"invalid seed event at index {entry.2}: {message}"
  | (s, .ok ()) => pure s.pushLast

end Session

/-- A `session/end-seed` marker. -/
def SessionEvent.isEndSeed (event : SessionEvent) : Bool := event.type == .sessionEndSeed

/-- The `session/end-seed` marker of an inherited cut. -/
def SessionEvent.isInheritedMarker (event : SessionEvent) : Bool :=
  event.type == .sessionEndSeed && event.field "inherited" == some (.bool true)

namespace Session

variable (projections : List SessionMessageProjection)

/-- The cut checks of the constructor; returns the inherited event count. -/
def checkInherited (log : List SessionEvent) (seeded : Bool) (hasSeed : Bool)
    (supplied : Option ℕ) : Except String ℕ := do
  if seeded && !hasSeed then
    throw "seeded session requires an explicit constructor seed"
  if seeded && supplied.isNone then
    throw "seeded session requires an inherited event count"
  let inherited := supplied.getD 0
  if !seeded && inherited != 0 then
    throw "unseeded session inherited event count must be 0"
  if log.length < inherited then
    throw "session inherited event count exceeds its event log"
  let markedSeed := (log[inherited]?).any SessionEvent.isInheritedMarker
  if seeded && inherited != log.length && !markedSeed then
    throw "seeded session constructor seed must equal its inherited prefix or mark its inherited cut"
  if markedSeed && (log.drop (inherited + 1)).any SessionEvent.isInheritedMarker then
    throw "session inherited event count must identify the final inherited marker"
  return inherited

/-- The marker a constructor appends after its seed, if any. -/
def seedMarker (log : List SessionEvent) (seeded hasSeed : Bool) (inherited : ℕ) :
    Option Json :=
  let markedSeed := (log[inherited]?).any SessionEvent.isInheritedMarker
  if hasSeed && seeded && !markedSeed then
    some (.obj [("inherited", .bool true)])
  else if hasSeed && !seeded && !(log.getLast?.any SessionEvent.isEndSeed) then
    some (.obj [])
  else none

/-- `Session.create`: validate a borrowed seed, check the inherited cut, and append the
lifecycle marker the seed lacks. `now` is the clock at construction. -/
def create (seed : Option (List SessionEvent)) (seeded : Bool) (supplied : Option ℕ) (now : ℤ) :
    Except String Session := do
  let s ← (seed.getD []).zipIdx.foldlM (seedEvent projections) blank
  let inherited ← checkInherited s.events seeded seed.isSome supplied
  let s := { s with isSeeded := seeded, inheritedEventCount := inherited }
  match seedMarker s.events seeded seed.isSome inherited with
  | none => return s
  | some data =>
    match s.append projections { type := .sessionEndSeed, data := data, time := now } with
    | (_, .error message) => throw message
    | (s, .ok _) => return s

end Session

/-- The messages of the nodes of a surface, those with none dropped. -/
def surfaceMessages (events : List SessionEvent) (projectedMessages : OrderedMap ℕ Json)
    (nodes : List ℕ) : List Json :=
  nodes.filterMap fun seq =>
    (events[seq]?).bind fun event => deriveEventMessage event projectedMessages

/-- The derivation of a log without a cache: replay it, project the message of each node. -/
def derivedMessages (events : List SessionEvent) (projections : List SessionMessageProjection) :
    Except String (List Json) := do
  let fold ← foldSurface events projections
  return surfaceMessages events fold.projectedMessages fold.nodes

end TianmaCoder
