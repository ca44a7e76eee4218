import TianmaCoder.Format.AssistantStream
import TianmaCoder.Lib.OrderedMap
import TianmaCoder.Session.Event

/-!
# The v1-to-v2 migration stage

The stage reads released-v1 events and packed assistant rows and emits v2 events with dense
seqs. Top-level assistant chunks are consumed into the stream of the message that cites
them, or of an `assistant/attempt`; events that arrive behind a pending attempt are held
back until it is settled.

The validation of released payloads can only refuse; it is a parameter of the stage.

## Main definitions

* `SourceItem` — an event, a packed assistant row, or another run of events.
* `V1ToV2.State`, `V1ToV2.transformItem`, `V1ToV2.finishMigration` — the stage.
* `V1ToV2.migrate` — a whole source through the stage.
-/

namespace TianmaCoder

open Checked

/-- The header facts the stage reads. -/
structure ReleasedV1Header where
  id : String
  parentSession : Option String
  isSeeded : Bool
  createdAt : ℤ
  /-- The inherited event count stored with the header. -/
  sourceCut : ℕ
  unseeded : isSeeded = false → sourceCut = 0

/-- A released packed assistant row. -/
structure ReleasedAssistantChunkRun where
  firstSeq : ℕ
  turn : ℕ
  step : ℕ
  key : DeltaKey
  time0 : ℤ
  dt : List ℤ
  members : List String
  members_ne : members ≠ []
  dt_length : dt.length + 1 = members.length
  times_safe : Json.isSafeInteger time0 ∧
    assertMemberTimes "row" time0 dt = .ok () ∧ ∀ gap ∈ dt, Json.isSafeInteger gap
  counts : turn ≤ Json.maxSafeInteger ∧ step ≤ Json.maxSafeInteger ∧
    key.index ≤ Json.maxSafeInteger
  id_ne : ∀ index id name, key = .toolCall index id name → id ≠ ""

namespace ReleasedAssistantChunkRun

variable (r : ReleasedAssistantChunkRun)

def eventCount : ℕ := r.members.length

def lastSeq : ℕ := r.firstSeq + r.members.length - 1

def stream : AssistantStreamRecord := .run r.key r.time0 r.dt r.members

def lastTime : ℤ := r.stream.lastTime

/-- The chunk event of one member. -/
def memberEvent (offset : ℕ) (value : TimedStreamChunk) : SessionEvent where
  type := .assistantChunk
  seq := r.firstSeq + offset
  time := value.time
  data := .obj [("turn", .nat r.turn), ("step", .nat r.step), ("chunk", value.chunk)]

/-- `expandAssistantChunkRun`. -/
def expand : List SessionEvent :=
  r.stream.expand.mapIdx r.memberEvent

end ReleasedAssistantChunkRun

/-- One item of a source. -/
inductive SourceItem where
  | event (event : SessionEvent)
  | chunkRun (run : ReleasedAssistantChunkRun)
  /-- A run of another type, by its expansion. -/
  | run (events : List SessionEvent)

/-- The events of an item. -/
def SourceItem.events : SourceItem → List SessionEvent
  | event e => [e]
  | chunkRun r => r.expand
  | run es => es

/-- A turn or step number as a payload carries it. -/
abbrev Coordinate := Option Json

/-- `a === b` on coordinates: two objects are never the same one. -/
def Coordinate.same : Coordinate → Coordinate → Bool
  | some (.arr _), _ => false
  | some (.obj _), _ => false
  | a, b => a == b

/-- `turn === openTurn + 1`. -/
def Coordinate.follows (openTurn turn : Coordinate) : Bool :=
  match openTurn, turn with
  | some (.int n), some (.int m) => m == n + 1
  | _, _ => false

/-- A value in a message. -/
def renderValue : Option Json → String
  | none => "undefined"
  | some .null => "null"
  | some (.bool b) => toString b
  | some (.int n) => toString n
  | some (.str s) => s
  | some (.float _) => "NaN"
  | some (.arr _) => "[object Array]"
  | some (.obj _) => "[object Object]"

/-- `record(value)[k]`. -/
def readMember (value : Option Json) (k : String) : Except String (Option Json) :=
  match value with
  | none => throw s!"Cannot read properties of undefined (reading '{k}')"
  | some .null => throw s!"Cannot read properties of null (reading '{k}')"
  | some v => pure (v.get? k)

namespace V1ToV2

/-- One attempt under collection. -/
structure AttemptGroup where
  turn : Coordinate
  step : Coordinate
  /-- Maximal stretches of consumed chunk seqs: first seq and count. -/
  spans : List (ℕ × ℕ)
  stream : List MutableRecord
  accumulator : Option AssistantStreamAccumulator
  chunkCount : ℕ
  lastChunkSeq : ℕ
  lastChunkTime : ℤ
  terminal : Bool

/-- The pending attempt, and the events held back behind it. -/
structure StreamingAttempt where
  group : AttemptGroup
  afterLastChunk : List SessionEvent

/-- What a target event was made from. -/
inductive Origin where
  /-- The image of a source event, with the seqs of the chunks a message took. -/
  | source (event : SessionEvent) (chunkSeqs : List ℕ)
  /-- An event generated beside the image of the source event at `seq`. -/
  | generated (seq : ℕ)
  /-- An attempt, from the chunks at these seqs. -/
  | attempt (chunkSeqs : List ℕ)
  /-- A cut marker the source does not have. -/
  | marker

/-- A target event and what it was made from. -/
structure Emitted where
  origin : Origin
  event : SessionEvent

structure LegacyTurnState where
  openTurn : Option Coordinate
  openStep : Option Coordinate
  previous : Option SessionEvent

/-- What emission reads and writes. -/
structure Target where
  mapping : OrderedMap ℕ ℕ
  targetSeq : ℕ
  targetCut : Option ℕ
  emitted : List Emitted

/-- The state of the stage beside its source header. -/
structure State where
  legacyTurns : LegacyTurnState
  pending : Option StreamingAttempt
  lastTime : ℤ
  target : Target

/-! ## References -/

def mapOne (value : Option Json) (mapping : OrderedMap ℕ ℕ) (label : String) :
    Except String Json :=
  match value with
  | some (.int (.ofNat seq)) =>
    match mapping.lookup seq with
    | some target => pure (.nat target)
    | none => throw s!"{label} targets consumed assistant/chunk {seq}"
  | value => throw s!"{label} targets consumed assistant/chunk {renderValue value}"

def mapList (values : Option Json) (mapping : OrderedMap ℕ ℕ) (label : String) :
    Except String Json :=
  match values with
  | some (.arr items) => do
    let mapped ← items.mapM fun item => mapOne (some item) mapping label
    pure (.arr mapped)
  | _ => throw "values.map is not a function"

def remapPayloadReferences (event : SessionEvent) (mapping : OrderedMap ℕ ℕ) :
    Except String Json :=
  let data := event.data
  match event.type with
  | .commandDone => do
    match ← readMember (some data) "sourceEventSeq" with
    | none => pure data
    | some source =>
      let mapped ← mapOne (some source) mapping s!"command/done {event.seq} sourceEventSeq"
      pure (data.put "sourceEventSeq" mapped)
  | .compactionPrune | .compactionSummary => do
    let label := s!"{event.type.name} {event.seq}"
    let range ← readMember (some data) "shadowedRange"
    let start ← mapOne (← readMember range "start") mapping s!"{label} shadowedRange start"
    let stop ← mapOne (← readMember range "end") mapping s!"{label} shadowedRange end"
    let seqs ← mapList (data.get? "shadowedSeqs") mapping s!"{label} shadowedSeqs"
    pure ((data.put "shadowedRange" (.obj [("start", start), ("end", stop)])).put
      "shadowedSeqs" seqs)
  | .sessionTitle | .sessionTitleLlmRequest => do
    let values ← readMember (some data) "messageSeqs"
    let seqs ← mapList values mapping s!"{event.type.name} {event.seq} messageSeqs"
    pure (data.put "messageSeqs" seqs)
  | _ => pure data

/-- The surface operation over mapped positions. -/
def remapSurfaceOp (event : SessionEvent) (mapping : OrderedMap ℕ ℕ) :
    Except String (Option Json) :=
  match event.surfaceOp with
  | none => pure none
  | some (.str "append") => pure (some (.str "append"))
  | some replacement => do
    let label := s!"{event.type.name} {event.seq} surface"
    let start ← mapOne (← readMember (some replacement) "start") mapping s!"{label} start"
    let stop ← mapOne (← readMember (some replacement) "end") mapping s!"{label} end"
    pure (some (.obj [("op", .str "replace"), ("start", start), ("end", stop)]))

/-- The cited events over mapped positions. -/
def remapSources (event : SessionEvent) (mapping : OrderedMap ℕ ℕ) :
    Except String (Option Json) :=
  match event.sourceEventSeqs with
  | none => pure none
  | some values => do
    let mapped ← mapList (some values) mapping s!"{event.type.name} {event.seq} sources"
    pure (some mapped)

def remapReferences (source : SessionEvent) (targetSeq : ℕ) (mapping : OrderedMap ℕ ℕ) :
    Except String SessionEvent := do
  let sourceEventSeqs ← remapSources source mapping
  let surfaceOp ← remapSurfaceOp source mapping
  let data ← remapPayloadReferences source mapping
  pure { source with seq := targetSeq, data, sourceEventSeqs, surfaceOp }

/-! ## Emission -/

/-- The marker of an inherited cut. -/
def endSeed (seq : ℕ) (time : ℤ) : SessionEvent where
  type := .sessionEndSeed
  seq := seq
  time := time
  data := .obj [("inherited", .bool true)]

/-- Append one event to the target. -/
def Target.emit (t : Target) (origin : Origin) (event : SessionEvent) : Target :=
  { t with emitted := t.emitted ++ [⟨origin, event⟩], targetSeq := t.targetSeq + 1 }

variable (header : ReleasedV1Header)

/-- Mark the cut before the first event from at or after the source cut. -/
def ensureTargetCut (t : Target) (origin : ℕ) (time : ℤ) (type : EventType) : Target :=
  if !header.isSeeded || t.targetCut.isSome || decide (origin < header.sourceCut) then t
  else
    let marked := { t with targetCut := some t.targetSeq }
    if origin = header.sourceCut ∧ type = .sessionEndSeed then marked
    else marked.emit .marker (endSeed t.targetSeq time)

/-- A source event as it is emitted: the end of the inherited seed is tagged. -/
def tagEndSeed (event : SessionEvent) : SessionEvent :=
  if header.isSeeded ∧ event.seq = header.sourceCut ∧ event.type = .sessionEndSeed then
    { event with data := .obj [("inherited", .bool true)] }
  else event

/-- Emit the image of a source event; `chunkSeqs` are those of the chunks it takes. -/
def Target.emitImage (t : Target) (chunkSeqs : List ℕ) (event : SessionEvent) :
    Except String Target := do
  let source := tagEndSeed header event
  let t := ensureTargetCut header t event.seq event.time source.type
  let t := { t with mapping := OrderedMap.set event.seq t.targetSeq t.mapping }
  let target ← remapReferences source t.targetSeq t.mapping
  pure (t.emit (.source source chunkSeqs) target)

def Target.emitSource (t : Target) (event : SessionEvent) : Except String Target :=
  t.emitImage header [] event

def Target.emitGenerated (t : Target) (position : ℕ) (origin : Origin) (event : SessionEvent) :
    Except String Target := do
  let t := ensureTargetCut header t position event.time event.type
  let target ← remapReferences event t.targetSeq t.mapping
  pure (t.emit origin target)

def emitSource (s : State) (event : SessionEvent) : Except String State := do
  let target ← s.target.emitSource header event
  pure { s with target }

/-- Emit an event made beside the image of the source event at `position`. -/
def emitGenerated (s : State) (position : ℕ) (event : SessionEvent) : Except String State := do
  let target ← s.target.emitGenerated header position (.generated position) event
  pure { s with target }

/-! ## Attempts -/

def attemptGroup (turn step : Coordinate) : AttemptGroup where
  turn := turn
  step := step
  spans := []
  stream := []
  accumulator := none
  chunkCount := 0
  lastChunkSeq := 0
  lastChunkTime := 0
  terminal := false

namespace AttemptGroup

/-- The seqs of the chunks a group has consumed. -/
def chunkSeqs (group : AttemptGroup) : List ℕ :=
  group.spans.flatMap fun span => List.range' span.1 span.2

/-- `group.spans[0]?.firstSeq`. -/
def first? (group : AttemptGroup) : Option ℕ := group.spans.head?.map (·.1)

def recordChunkSpan (group : AttemptGroup) (firstSeq eventCount : ℕ) (lastTime : ℤ) :
    AttemptGroup :=
  let spans :=
    match group.spans.getLast? with
    | some (first, count) =>
      if first + count = firstSeq then group.spans.dropLast ++ [(first, count + eventCount)]
      else group.spans ++ [(firstSeq, eventCount)]
    | none => [(firstSeq, eventCount)]
  { group with
    spans := spans
    chunkCount := group.chunkCount + eventCount
    lastChunkSeq := firstSeq + eventCount - 1
    lastChunkTime := lastTime }

/-- A message cites exactly the consumed chunks, in order. -/
def matchesChunkSources (group : AttemptGroup) (sources : List Json) : Bool :=
  sources.length == group.chunkCount && sources == group.chunkSeqs.map .nat

/-- Merge the accumulated records into the stream. -/
def flushAccumulator (group : AttemptGroup) : AttemptGroup :=
  match group.accumulator with
  | none => group
  | some accumulator =>
    { group with
      stream := accumulator.snapshot.foldl
        (fun stream record => appendStreamRecord stream record record.lastTime) group.stream
      accumulator := none }

/-- Add the chunk of one chunk event. -/
def pushChunk (group : AttemptGroup) (event : SessionEvent) : Except String AttemptGroup :=
  match event.data.get? "chunk" with
  | none => throw "Assistant stream chunk must be losslessly JSON-serializable"
  | some chunk => do
    let accumulator ← (group.accumulator.getD .empty).push ⟨event.time, chunk⟩
    let group := { group with accumulator := some accumulator }
    let group := group.recordChunkSpan event.seq 1 event.time
    pure { group with terminal := group.terminal || chunk.get? "type" == some (.str "finish") }

/-- Add the chunks of a packed row. -/
def appendRun (group : AttemptGroup) (run : ReleasedAssistantChunkRun) : AttemptGroup :=
  let group := group.flushAccumulator
  let group := { group with stream := appendStreamRecord group.stream run.stream run.lastTime }
  group.recordChunkSpan run.firstSeq run.eventCount run.lastTime

/-- The stream an event stores. -/
def streamOf (group : AttemptGroup) : Json :=
  .arr (group.flushAccumulator.stream.map fun entry => entry.record.toJson)

end AttemptGroup

/-- A message without its chunk references, with the stream of its attempt. -/
def messageEvent (source : SessionEvent) (group : AttemptGroup) : SessionEvent :=
  { source with sourceEventSeqs := none, data := source.data.put "stream" group.streamOf }

/-- Emit the message that takes the chunks of a group. -/
def emitMessage (s : State) (event : SessionEvent) (group : AttemptGroup) :
    Except String State := do
  let target ← s.target.emitImage header group.chunkSeqs (messageEvent event group)
  pure { s with target }

def attemptEvent (group : AttemptGroup) : SessionEvent where
  type := .assistantAttempt
  seq := group.lastChunkSeq
  time := group.lastChunkTime
  data := .obj [("turn", group.turn.getD .null), ("step", group.step.getD .null),
    ("stream", group.streamOf)]

/-- Emit the events held back behind a pending attempt. -/
def flushBuffered (s : State) (pending : StreamingAttempt) : Except String State := do
  let target ← pending.afterLastChunk.foldlM (Target.emitSource header) s.target
  pure { s with target, pending := some { pending with afterLastChunk := [] } }

/-- Settle the pending attempt as an `assistant/attempt`, then the events behind it. -/
def finishAttempt (s : State) : Except String State :=
  match s.pending with
  | none => pure s
  | some pending => do
    let group := pending.group
    let target ← s.target.emitGenerated header group.lastChunkSeq (.attempt group.chunkSeqs)
      (attemptEvent group)
    let s ← flushBuffered header { s with target } pending
    pure { s with pending := none }

/-- The source cut lies after `first` and not after `last`, or the other way round. -/
def splitsAttempt (first last : ℕ) : Bool :=
  decide (first < header.sourceCut) != decide (last < header.sourceCut)

def assertAttemptRange (first last : ℕ) : Except String Unit :=
  if splitsAttempt header first last then
    throw s!"inherited Session cut {header.sourceCut} splits one Assistant attempt"
  else pure ()

def assertAttemptCut (group : AttemptGroup) (member : ℕ) : Except String Unit :=
  assertAttemptRange header (group.first?.getD member) member

/-- Whether a chunk at these coordinates continues the group. -/
def AttemptGroup.continues (group : AttemptGroup) (turn step : Coordinate) : Bool :=
  !group.terminal && group.turn.same turn && group.step.same step

/-- Settle a pending attempt that the coordinates do not continue; otherwise emit what is
held back behind it. -/
def settleOrFlush (s : State) (turn step : Coordinate) : Except String State :=
  match s.pending with
  | none => pure s
  | some pending =>
    if pending.group.continues turn step then flushBuffered header s pending
    else finishAttempt header s

/-- The pending attempt, or a new one. -/
def State.attempt (s : State) (turn step : Coordinate) : StreamingAttempt :=
  s.pending.getD { group := attemptGroup turn step, afterLastChunk := [] }

def transformChunk (s : State) (event : SessionEvent) : Except String State := do
  let turn ← readMember (some event.data) "turn"
  let step ← readMember (some event.data) "step"
  let s ← settleOrFlush header s turn step
  let pending := s.attempt turn step
  assertAttemptCut header pending.group event.seq
  let group ← pending.group.pushChunk event
  pure { s with pending := some { pending with group } }

def transformMessage (s : State) (event : SessionEvent) : Except String State := do
  let turn ← readMember (some event.data) "turn"
  let step ← readMember (some event.data) "step"
  let bare := messageEvent event (attemptGroup turn step)
  match s.pending with
  | some pending =>
    if !(pending.group.turn.same turn && pending.group.step.same step) then
      emitSource header (← finishAttempt header s) bare
    else
      match event.sourceEventSeqs with
      | some (.arr []) => emitSource header (← finishAttempt header s) bare
      | some (.arr sources) =>
        if !pending.group.matchesChunkSources sources then
          throw s!"assistant/message {event.seq} chunk references are not one complete ordered attempt"
        assertAttemptCut header pending.group event.seq
        let s ← flushBuffered header s pending
        let s ← emitMessage header s event pending.group
        pure { s with pending := none }
      | _ =>
        throw s!"assistant/message {event.seq} does not cite its complete v1 chunk attempt"
  | none =>
    match event.sourceEventSeqs with
    | some (.arr (_ :: _)) =>
      throw s!"assistant/message {event.seq} chunk references are not one complete ordered attempt"
    | _ => emitSource header s bare

/-! ## Legacy turns and goals -/

def legacyInterruptedTurn (state : LegacyTurnState) (event : SessionEvent) :
    Except String (Option SessionEvent) :=
  match event.type, state.openTurn, state.openStep with
  | .turnStart, some openTurn, none => do
    let turn ← readMember (some event.data) "turn"
    match state.previous with
    | some previous =>
      if !openTurn.follows turn || previous.type != .agentInboxSpliced then pure none
      else
        let target ← readMember (some previous.data) "target"
        match previous.data.get? "inserted" with
        | some (.arr (_ :: _)) =>
          if target = some (.str "next-turn") then
            pure (some
              { type := .turnEnd
                seq := event.seq
                time := event.time
                data := .obj [("turn", openTurn.getD .null),
                  ("reason", .obj [("kind", .str "interrupted")])] })
          else pure none
        | _ => pure none
    | none => pure none
  | _, _, _ => pure none

def observeLegacyTurn (state : LegacyTurnState) (event : SessionEvent) :
    Except String LegacyTurnState :=
  match event.type with
  | .turnStart => do
    let turn ← readMember (some event.data) "turn"
    pure { openTurn := some turn, openStep := none, previous := some event }
  | .turnEnd => pure { openTurn := none, openStep := none, previous := some event }
  | .stepStart => do
    let step ← readMember (some event.data) "step"
    pure { state with openStep := some step, previous := some event }
  | .stepEnd => pure { state with openStep := none, previous := some event }
  | _ => pure { state with previous := some event }

/-- The goal mutation carried by a legacy user message, and the message left of it. -/
def splitLegacyGoalChange (event : SessionEvent) :
    Except String (Option (SessionEvent × SessionEvent)) :=
  match event.type with
  | .userMessage => do
    let source ← readMember (some event.data) "source"
    let kind ← readMember source "kind"
    let change ← readMember source "change"
    match change with
    | some change =>
      if kind = some (.str "goal") then
        pure (some (
          { type := .goalChange, seq := event.seq, time := event.time, data := change },
          { event with
            data := event.data.put "source"
              (.obj [("kind", .str "plugin"), ("plugin", .str "goal")]) }))
      else pure none
    | none => pure none
  | _ => pure none

def closesAttempt (event : SessionEvent) : Bool :=
  event.type == .turnEnd || event.type == .stepEnd || event.type == .llmRetry
    || event.type == .llmRetryStarted

/-! ## Source items -/

/-- Property names every object inherits. -/
def objectPrototypeMembers : List String :=
  ["constructor", "__defineGetter__", "__defineSetter__", "hasOwnProperty",
    "__lookupGetter__", "__lookupSetter__", "isPrototypeOf", "propertyIsEnumerable",
    "toString", "valueOf", "__proto__", "toLocaleString"]

/-- Whether `RELEASED_V0_EVENT_DISPOSITIONS` has an entry. -/
def hasReleasedDisposition : EventType → Bool
  | .assistantAttempt | .deliverablesPresented | .developerMessage | .feedbackMessageDelete
  | .feedbackMessagePut | .imageOffload | .subagentCatalog | .systemMessage
  | .toolPtcDispatch | .toolPtcDispatchStart | .workspaceChanges => false
  | .unknown name => objectPrototypeMembers.contains name
  | _ => true

def assertChunkEnvelope (event : SessionEvent) : Except String Unit :=
  match event.extra with
  | (unexpected, _) :: _ =>
    throw s!"assistant/chunk {event.seq} has unexpected member {unexpected}"
  | [] =>
    match event.ignorable with
    | none | some (.bool true) => pure ()
    | some _ => throw s!"assistant/chunk {event.seq} ignorable must be true when present"

/-- A chunk has the envelope of a chunk, and every type has a released disposition. -/
def assertReleasedType (event : SessionEvent) : Except String Unit := do
  if event.type = .assistantChunk then assertChunkEnvelope event
  if hasReleasedDisposition event.type = false then
    throw s!"format v1 contains unknown event type {event.type.name} at seq {event.seq}"

/-- A turn starts when none is open, or when the open one counts as interrupted. -/
def assertPriorTurn (state : LegacyTurnState) (event : SessionEvent)
    (interrupted : Option SessionEvent) : Except String Unit :=
  if event.type = .turnStart ∧ state.openTurn.isSome ∧ interrupted.isNone then
    let turn := renderValue (event.field "turn")
    throw s!"turn/start {turn} does not close the prior turn"
  else pure ()

def assertSourceDeliveryMarker (event : SessionEvent) : Except String Unit :=
  match event.type with
  | .sessionLogDeepseekDeliveryAccepted => do
    let version ← readMember (some event.data) "sessionFormatVersion"
    let inherited := header.parentSession.isSome && decide (event.seq < header.sourceCut)
    if version = some (.int 1) ∧ inherited = false
        ∧ event.data.get? "sessionId" ≠ some (.str header.id) then
      throw "current-generation delivery marker names the wrong Session"
    else pure ()
  | _ => pure ()

/-- The state once an event was observed. -/
def State.observe (s : State) (event : SessionEvent) : Except String State := do
  let legacyTurns ← observeLegacyTurn s.legacyTurns event
  pure { s with legacyTurns, lastTime := event.time }

/-- Transform one event after its checks. -/
def transformChecked (s : State) (event : SessionEvent) : Except String State := do
  match ← splitLegacyGoalChange event with
  | some (change, message) =>
    let s ← emitGenerated header s event.seq change
    emitSource header s message
  | none =>
    if event.type = .assistantChunk then transformChunk header s event
    else if event.type = .assistantMessage then transformMessage header s event
    else if closesAttempt event then
      emitSource header (← finishAttempt header s) event
    else
      match s.pending with
      | some pending =>
        let afterLastChunk := pending.afterLastChunk ++ [event]
        pure { s with pending := some { pending with afterLastChunk } }
      | none => emitSource header s event

/-- Close the prior turn that a legacy restart left open. -/
def closeInterrupted (s : State) (event : SessionEvent) (interrupted : Option SessionEvent) :
    Except String State :=
  match interrupted with
  | none => pure s
  | some turnEnd => do
    let s ← finishAttempt header s
    emitGenerated header s event.seq turnEnd

def transformReleasedEvent (s : State) (event : SessionEvent) : Except String State := do
  assertReleasedType event
  let interrupted ← legacyInterruptedTurn s.legacyTurns event
  assertPriorTurn s.legacyTurns event interrupted
  assertSourceDeliveryMarker header event
  let s ← s.observe event
  let s ← closeInterrupted header s event interrupted
  transformChecked header s event

def transformReleasedRun (s : State) (run : ReleasedAssistantChunkRun) :
    Except String State := do
  let turn : Coordinate := some (.nat run.turn)
  let step : Coordinate := some (.nat run.step)
  let s :=
    { s with legacyTurns := { s.legacyTurns with previous := none }, lastTime := run.lastTime }
  let s ← settleOrFlush header s turn step
  let pending := s.attempt turn step
  assertAttemptRange header run.firstSeq run.lastSeq
  pure { s with pending := some { pending with group := pending.group.appendRun run } }

/-- The validation a decoded event passes before the stage transforms it. -/
def assertDecoded (assertReleasedEventPayload : SessionEvent → Except String Unit)
    (event : SessionEvent) : Except String Unit :=
  if event.type ≠ .assistantChunk ∧ hasReleasedDisposition event.type then
    assertReleasedEventPayload event
  else pure ()

/-- One event or packed row, after the validation of decoded events. -/
inductive SourceStep where
  | event (event : SessionEvent)
  | chunkRun (run : ReleasedAssistantChunkRun)

def transformStep (s : State) : SourceStep → Except String State
  | .event event => transformReleasedEvent header s event
  | .chunkRun run => transformReleasedRun header s run

variable (assertReleasedEventPayload : SessionEvent → Except String Unit)

def transformItem (s : State) : SourceItem → Except String State
  | .event event => do
    assertDecoded assertReleasedEventPayload event
    transformStep header s (.event event)
  | .chunkRun run => transformStep header s (.chunkRun run)
  | .run events => (events.map .event).foldlM (transformStep header) s

/-- Settle what is pending and return the target cut. -/
def finishMigration (s : State) : Except String (State × ℕ) := do
  let s ← finishAttempt header s
  let t := s.target
  if header.isSeeded ∧ t.targetCut = none then
    let marked := { t with targetCut := some t.targetSeq }
    pure ({ s with target := marked.emit .marker (endSeed t.targetSeq s.lastTime) }, t.targetSeq)
  else pure (s, t.targetCut.getD 0)

/-- The state before any event. -/
def initial : State where
  legacyTurns := { openTurn := none, openStep := none, previous := none }
  pending := none
  lastTime := header.createdAt
  target :=
    { mapping := []
      targetSeq := 0
      targetCut := if header.isSeeded then none else some 0
      emitted := [] }

/-- A whole source through the stage: the target events with their origins, and the cut. -/
def migrate (items : List SourceItem) : Except String (List Emitted × ℕ) := do
  let s ← items.foldlM (transformItem header assertReleasedEventPayload) (initial header)
  let (s, cut) ← finishMigration header s
  pure (s.target.emitted, cut)

end V1ToV2

end TianmaCoder
