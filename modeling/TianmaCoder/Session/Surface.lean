import TianmaCoder.Session.Event

/-!
# The surface fold

The surface is an ordered view of the message-producing events of a log. Each event is
planned against the current view before it is applied, so that a refused event leaves the
view unchanged. A positional replacement splices one node over a contiguous range of
current nodes; a message projection rewrites the messages of current nodes.

## Main definitions

* `validateSessionEventData`, `validateSurfaceMetadata` — event-local admission.
* `planSurfaceEvent`, `applySurfacePlan` — one validated transition and its commit.
* `foldSurface` — the replay of a complete log.
-/

namespace TianmaCoder

/-! ## Event-local validation -/

/-- Whether a content block adds or removes a tool. -/
def isToolChange (block : Json) : Bool :=
  block.get? "type" == some (.str "tool-addition")
    || block.get? "type" == some (.str "tool-removal")

/-- Check one block of a developer message; returns whether it adds a tool. -/
def validateToolChange (subject : String) (block : Json) : Except String Bool := do
  if !isToolChange block then
    return false
  let kind := (Json.str? (block.get? "type")).getD ""
  if (Json.nonEmptyStr? (block.get? "toolName")).isNone then
    throw s!"{subject} {kind} requires a nonempty toolName"
  if block.get? "type" == some (.str "tool-addition") then
    if block.has "tool" then
      throw s!"{subject} tool-addition must omit inline tool definitions"
    return true
  return false

/-- The message checks of `validateSessionEventData`, for a message that is an object. -/
def validateSurfaceMessage (type : EventType) (data message : Json) (subject : String) :
    Except String Unit := do
  let developerRole := message.get? "role" == some (.str "developer")
  if (type == .developerMessage) != developerRole then
    throw s!"{subject} developer/message and developer role must occur together"
  match message.get? "content" with
  | some (.arr content) =>
    if !developerRole && content.any isToolChange then
      throw s!"{subject} tool-change blocks require developer role"
    if type == .developerMessage then
      let additions ← content.mapM (validateToolChange subject)
      let bad :=
        if additions.any id then (Json.count? (data.get? "headerSeq")).isNone
        else data.has "headerSeq"
      if bad then
        throw s!"{subject} requires headerSeq exactly when tool additions are present"
  | _ => pure ()

/-- The `request/header` checks of `validateSessionEventData`. -/
def validateRequestHeader (data : Json) (subject : String) : Except String Unit := do
  if !data.isObject then
    throw s!"{subject} data must be an object"
  match data.get? "header" with
  | some (.obj header) =>
    if (Json.obj header).has "system" then
      throw s!"{subject} must omit header.system; use system/message"
    if (Json.obj header).get? "tools" == some (.arr []) then
      throw s!"{subject} must omit empty tools"
    if (Json.obj header).get? "adapterDefaults" == some (.obj []) then
      throw s!"{subject} must omit empty adapterDefaults"
  | _ => throw s!"{subject} header must be an object"

/-- The `tool/result` checks of `validateSessionEventData`. -/
def validateToolFailure (data : Json) (subject : String) : Except String Unit := do
  if !data.isObject then
    throw s!"{subject} data must be an object"
  if (data.get? "error").isSome && data.path ["message", "isError"] != some (.bool true) then
    throw s!"{subject} error requires message.isError === true"

/-- Reject noncanonical request-header fields, developer roles and content, and
contradictory tool failure metadata. -/
def validateSessionEventData (event : SessionEvent) (subject : String) : Except String Unit := do
  let message := if event.type == .userMessage then some event.data else event.field "message"
  if event.type.isSurfaceEligible && event.data.isObject then
    match message with
    | some (.obj ms) => validateSurfaceMessage event.type event.data (.obj ms) subject
    | _ => pure ()
  match event.type with
  | .requestHeader => validateRequestHeader event.data subject
  | .toolResult => validateToolFailure event.data subject
  | _ => pure ()

/-- How a message-producing event enters the surface. -/
inductive SurfaceOp where
  | append
  | replace (startSeq endSeq : ℕ)
  deriving DecidableEq, Repr

/-- The exact positional-replacement shape, `{ op: 'replace', startSeq, endSeq }`. -/
def replaceOp? (value : Json) : Option SurfaceOp :=
  match value with
  | .obj ms =>
    if ms.length = 3 ∧ value.get? "op" = some (.str "replace") then
      match Json.count? (value.get? "startSeq"), Json.count? (value.get? "endSeq") with
      | some startSeq, some endSeq => some (.replace startSeq endSeq)
      | _, _ => none
    else none
  | _ => none

/-- Validate event-local surface eligibility and return its operation. -/
def surfaceOpOf (event : SessionEvent) : Except String (Option SurfaceOp) :=
  let type := event.type.name
  if !event.type.isSurfaceEligible then
    -- Unknown ignorable records retain opaque metadata without affecting history.
    if !event.type.isKnown && event.ignorable == some (.bool true) then
      pure none
    else if event.surfaceOp.isSome then
      throw s!"session event \"{type}\" is not surface-eligible and cannot carry surfaceOp"
    else if event.sourceEventSeqs.isSome then
      throw s!"session event \"{type}\" is not surface-eligible and cannot carry sourceEventSeqs"
    else pure none
  else
    match event.surfaceOp with
    | none => throw s!"session event \"{type}\" is surface-eligible and requires a surfaceOp marker"
    | some (.str "append") => pure (some .append)
    | some (.obj ms) =>
      match replaceOp? (.obj ms) with
      | some op => pure (some op)
      | none => throw s!"session event \"{type}\" carries an invalid replace surfaceOp"
    | some _ => throw s!"session event \"{type}\" carries an invalid surfaceOp"

/-- The cited source seqs of an event, validated against the event's own position. -/
def sourceEventSeqsOf (event : SessionEvent) : Except String (List ℕ) := do
  match event.sourceEventSeqs with
  | none => pure []
  | some raw =>
    if event.type == .assistantMessage then
      throw "assistant/message embeds its source stream and cannot carry sourceEventSeqs"
    match raw with
    | .arr items =>
      if items.isEmpty then
        throw "sourceEventSeqs must not be empty"
      let sources ← items.mapM fun source =>
        match Json.count? (some source) with
        | some seq => pure seq
        | none => throw
            s!"session event \"{event.type.name}\" sourceEventSeqs must densely contain non-negative safe integers"
      if ¬ sources.Nodup then
        throw "sourceEventSeqs must not contain duplicates"
      match sources.find? (fun source => event.seq ≤ source) with
      | some source =>
        throw s!"sourceEventSeqs must reference earlier events: {source} >= current seq {event.seq}"
      | none => pure sources
    | _ => throw s!"sourceEventSeqs on event at seq {event.seq} must be an array when present"

/-- Validate cited source-event seqs against prior entries and the replacement range. -/
def assertSourceEventReferences (event : SessionEvent) (shadowedSeqs : List ℕ) :
    Except String Unit := do
  let sources ← sourceEventSeqsOf event
  let missing := shadowedSeqs.filter fun seq => seq ∉ sources
  if !missing.isEmpty then
    let list := ", ".intercalate (missing.map toString)
    throw s!"surface replace: sourceEventSeqs must include every shadowed surface node; missing {list}"

/-- Validate one event's surface metadata without checking membership in a surface. -/
def validateSurfaceMetadata (event : SessionEvent) : Except String (Option SurfaceOp) := do
  let op ← surfaceOpOf event
  match op with
  | some (.replace startSeq endSeq) =>
    if event.seq ≤ startSeq ∨ event.seq ≤ endSeq then
      throw s!"surface replace at seq {event.seq}: startSeq and endSeq must reference earlier events"
  | _ => pure ()
  if op.isSome then
    assertSourceEventReferences event []
  return op

/-! ## Relations to earlier events -/

/-- The event at `seq` in a contiguous window that starts at `baseSeq`. -/
def windowEvent (events : List SessionEvent) (baseSeq seq : ℕ) : Option SessionEvent :=
  if seq < baseSeq then none else events[seq - baseSeq]?

/-- Resolve one tool addition against the tools of its request header. -/
def assertToolDefinition (header : SessionEvent) (headerSeq : ℕ) (block : Json) :
    Except String Unit := do
  if block.get? "type" != some (.str "tool-addition") then
    return
  let tools := (Json.arr? (header.data.path ["header", "tools"])).getD []
  let toolName := (Json.str? (block.get? "toolName")).getD ""
  match tools.filter fun tool => tool.get? "name" == block.get? "toolName" with
  | [definition] =>
    if (Json.str? (definition.get? "description")).isNone
        || !((definition.get? "parameters").any Json.isObject) then
      throw s!"developer/message tool-addition \"{toolName}\" requires a complete tool definition in headerSeq {headerSeq}"
    if definition.has "deferLoading" && definition.get? "deferLoading" != some (.bool true) then
      throw "developer/message referenced tool deferLoading must be true when present"
  | _ =>
    throw s!"developer/message tool-addition \"{toolName}\" must name exactly one tool in headerSeq {headerSeq}"

/-- Resolve tool additions against their immutable historical request header. -/
def assertDeveloperHeader (event : SessionEvent) (events : List SessionEvent) (baseSeq : ℕ) :
    Except String Unit := do
  if event.type != .developerMessage then
    return
  validateSessionEventData event s!"developer/message at seq {event.seq}"
  match event.field "headerSeq" with
  | none => pure ()
  | some value =>
    let headerSeq := (Json.count? (some value)).getD event.seq
    match windowEvent events baseSeq headerSeq with
    | some header =>
      if event.seq ≤ headerSeq ∨ header.type ≠ .requestHeader then
        throw "developer/message headerSeq must reference an earlier request/header"
      event.messageContent.forM (assertToolDefinition header headerSeq)
    | none => throw "developer/message headerSeq must reference an earlier request/header"

/-- A located replacement range: its index bounds and the nodes it covers. -/
structure ReplacementRange where
  startIdx : ℕ
  endIdx : ℕ
  shadowedSeqs : List ℕ

/-- Locate one replacement range in the current nodes. -/
def replacementRange (nodes : List ℕ) (startSeq endSeq : ℕ) : Except String ReplacementRange := do
  match nodes.idxOf? startSeq with
  | none => throw s!"surface replace: start seq {startSeq} not found in surface"
  | some startIdx =>
    match nodes.idxOf? endSeq with
    | none => throw s!"surface replace: end seq {endSeq} not found in surface"
    | some endIdx =>
      if endIdx < startIdx then
        throw s!"surface replace: start seq {startSeq} (index {startIdx}) is after end seq {endSeq} (index {endIdx})"
      return {
        startIdx := startIdx
        endIdx := endIdx
        shadowedSeqs := (nodes.take (endIdx + 1)).drop startIdx }

/-- A tool-result payload with the content of its message blanked. -/
def withoutContent (data : Json) : Json :=
  data.put "message" (((data.get? "message").getD .null).put "content" .null)

/-- Restrict a tool-result replacement to one current result's content. -/
def assertToolResultRewrite (event : SessionEvent) (shadowedSeqs : List ℕ)
    (events : List SessionEvent) (baseSeq : ℕ) : Except String Unit := do
  if event.type != .toolResult then
    return
  match shadowedSeqs with
  | [originalSeq] =>
    match windowEvent events baseSeq originalSeq with
    | some original =>
      if original.type ≠ .toolResult then
        throw "tool/result surface replacement must target a current tool/result"
      if !(withoutContent original.data).deepEqual (withoutContent event.data) then
        throw "tool/result surface replacement may change only content"
    | none => throw "tool/result surface replacement must target a current tool/result"
  | _ => throw "tool/result surface replacement must rewrite exactly one current node"

/-- Protect the system prompt at surface node 0. -/
def assertSystemHeadRewrite (event : SessionEvent) (nodes : List ℕ) (startIdx : ℕ)
    (shadowedSeqs : List ℕ) (events : List SessionEvent) (baseSeq : ℕ) : Except String Unit := do
  if startIdx ≠ 0 then
    return
  match nodes.head?.bind (windowEvent events baseSeq) with
  | some head =>
    if head.type == .systemMessage
        && (event.type != .systemMessage || shadowedSeqs.length != 1) then
      throw "surface replace: node 0 holds the system prompt and may be rewritten only by a system/message over exactly that node"
  | none => pure ()

/-! ## Messages and their projections -/

/-- Project a single event into the message it derives to, or `none` when it produces none:
a non-surface event, or a system, developer or assistant message with no content. -/
def deriveEventMessage (event : SessionEvent) (projectedMessages : OrderedMap ℕ Json) :
    Option Json :=
  match projectedMessages.lookup event.seq with
  | some projected => some projected
  | none =>
    match event.type with
    | .userMessage => some event.data
    | .systemMessage | .developerMessage | .assistantMessage =>
      if event.messageContent.isEmpty then none else event.field "message"
    | .toolResult => event.field "message"
    | _ => none

/-- Readonly history immediately before a message-projection event. -/
structure SessionMessageProjectionContext where
  nodes : List ℕ
  events : List SessionEvent
  baseSeq : ℕ
  messages : OrderedMap ℕ Json

/-- The same context with its window cut at the candidate: entries at or beyond the
candidate seq are not committed inputs. -/
def SessionMessageProjectionContext.before (context : SessionMessageProjectionContext)
    (seq : ℕ) : SessionMessageProjectionContext :=
  { context with events := context.events.take (seq - context.baseSeq) }

/-- The identity of a projection definition: the object, and the event type it interprets. -/
structure ProjectionRef where
  id : ℕ
  type : EventType
  deriving DecidableEq, Repr

/-- Pure interpretation of one plugin-owned event that changes existing message content. -/
structure SessionMessageProjection extends ProjectionRef where
  project : SessionEvent → SessionMessageProjectionContext → Except String (OrderedMap ℕ Json)
  /-- Over earlier nodes the interpretation reads committed history only. -/
  project_before : ∀ event context, (∀ seq ∈ context.nodes, seq < event.seq) →
    project event (context.before event.seq) = project event context

/-- Message projections interpret declared types only. -/
def DeclaredProjections (projections : List SessionMessageProjection) : Prop :=
  ∀ projection ∈ projections, projection.type.needsMessageProjection = true

/-! ## Planning and applying one event -/

/-- Mutable state shared by complete and incremental folds. -/
structure SurfaceFoldState where
  nodes : List ℕ
  replaceGeneration : ℕ
  contentGeneration : ℕ
  projectedMessages : OrderedMap ℕ Json
  /-- The definitions used so far. -/
  projections : List ProjectionRef
  deriving DecidableEq

/-- An empty surface fold state. -/
def createFoldState : SurfaceFoldState where
  nodes := []
  replaceGeneration := 0
  contentGeneration := 0
  projectedMessages := []
  projections := []

/-- One replacement operation observed while folding a session surface. -/
structure SurfaceFoldReplacement where
  seq : ℕ
  start : ℕ
  end_ : ℕ
  shadowedSeqs : List ℕ
  deriving DecidableEq

/-- One validated surface transition that has not changed the fold state yet. -/
inductive SurfacePlan where
  | append (seq : ℕ)
  | replace (replacement : SurfaceFoldReplacement) (startIdx endIdx : ℕ)
  | project (projection : ProjectionRef) (messages : OrderedMap ℕ Json)
  deriving DecidableEq

/-- Validate one event at its replay boundary and prepare its atomic fold transition. -/
def planSurfaceEvent (state : SurfaceFoldState) (event : SessionEvent) (expectedSeq : ℕ)
    (events : List SessionEvent) (baseSeq : ℕ) (projections : List SessionMessageProjection) :
    Except String (Option SurfacePlan) := do
  if event.seq ≠ expectedSeq then
    throw s!"session event seq {event.seq} is not contiguous; expected {expectedSeq}"
  let surfaceOp ← validateSurfaceMetadata event
  assertDeveloperHeader event events baseSeq
  match projections.find? (fun item => item.type == event.type) with
  | some projection =>
    let messages ← projection.project event {
      nodes := state.nodes, events := events, baseSeq := baseSeq,
      messages := state.projectedMessages }
    return some (.project projection.toProjectionRef messages)
  | none =>
    if event.type.needsMessageProjection then
      throw s!"session event \"{event.type.name}\" requires a message projection; load its owning plugin or supply its projection definition"
    match surfaceOp with
    | none => return none
    | some .append => return some (.append event.seq)
    | some (.replace startSeq endSeq) =>
      let range ← replacementRange state.nodes startSeq endSeq
      assertSourceEventReferences event range.shadowedSeqs
      assertToolResultRewrite event range.shadowedSeqs events baseSeq
      assertSystemHeadRewrite event state.nodes range.startIdx range.shadowedSeqs events baseSeq
      return some (.replace
        { seq := event.seq, start := startSeq, end_ := endSeq,
          shadowedSeqs := range.shadowedSeqs }
        range.startIdx range.endIdx)

/-- `Array.prototype.splice(start, end - start + 1, seq)`. -/
def spliceNode (nodes : List ℕ) (startIdx endIdx seq : ℕ) : List ℕ :=
  nodes.take startIdx ++ seq :: nodes.drop (endIdx + 1)

/-- Commit one previously validated surface transition. -/
def applySurfacePlan (state : SurfaceFoldState) : Option SurfacePlan →
    SurfaceFoldState × Option SurfaceFoldReplacement
  | none => (state, none)
  | some (.append seq) => ({ state with nodes := state.nodes ++ [seq] }, none)
  | some (.replace replacement startIdx endIdx) =>
    ({ state with
        nodes := spliceNode state.nodes startIdx endIdx replacement.seq
        replaceGeneration := state.replaceGeneration + 1
        contentGeneration := state.contentGeneration + 1 },
      some replacement)
  | some (.project projection messages) =>
    ({ state with
        projectedMessages :=
          messages.foldl (fun m (seq, message) => OrderedMap.set seq message m)
            state.projectedMessages
        projections :=
          if projection ∈ state.projections then state.projections
          else state.projections ++ [projection]
        contentGeneration := state.contentGeneration + 1 },
      none)

/-- Apply one event and return replacement metadata only when one occurred. -/
def applySurfaceEvent (state : SurfaceFoldState) (event : SessionEvent) (expectedSeq : ℕ)
    (events : List SessionEvent) (baseSeq : ℕ) (projections : List SessionMessageProjection) :
    Except String (SurfaceFoldState × Option SurfaceFoldReplacement) := do
  let plan ← planSurfaceEvent state event expectedSeq events baseSeq projections
  return applySurfacePlan state plan

/-! ## The complete fold -/

/-- Complete result of replaying the surface operations in a session log. -/
structure SurfaceFoldResult where
  nodes : List ℕ
  replacements : List SurfaceFoldReplacement
  projectedMessages : OrderedMap ℕ Json
  deriving DecidableEq

/-- One iteration of the replay loop, at `index`. -/
def foldSurfaceStep (events : List SessionEvent) (projections : List SessionMessageProjection)
    (acc : SurfaceFoldState × List SurfaceFoldReplacement) (entry : SessionEvent × ℕ) :
    Except String (SurfaceFoldState × List SurfaceFoldReplacement) := do
  let (state, replacement) ← applySurfaceEvent acc.1 entry.1 entry.2 events 0 projections
  return (state, acc.2 ++ replacement.toList)

/-- The state and the replacements after the loop over `events`. -/
def foldSurfaceState (events : List SessionEvent) (projections : List SessionMessageProjection) :
    Except String (SurfaceFoldState × List SurfaceFoldReplacement) :=
  events.zipIdx.foldlM (foldSurfaceStep events projections) (createFoldState, [])

/-- Replay a complete session log through the canonical surface fold. -/
def foldSurface (events : List SessionEvent) (projections : List SessionMessageProjection) :
    Except String SurfaceFoldResult := do
  let (state, replacements) ← foldSurfaceState events projections
  return {
    nodes := state.nodes
    replacements := replacements
    projectedMessages := state.projectedMessages }

end TianmaCoder
