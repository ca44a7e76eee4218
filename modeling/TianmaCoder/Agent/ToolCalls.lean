import TianmaCoder.Lib.Effect
import TianmaCoder.Lib.Json
import TianmaCoder.Lib.Transition

/-!
# The tool calls of one step

`executeToolCalls` walks over the calls of one assistant message in groups: an exclusive call
alone, or a rolling pool over all remaining calls, which ends where the next call has turned
exclusive. A function is here the list of its segments between two awaits; a `Point` says which
await it stands at, and every action of the environment may fall in between: an abort, a new
classification of the calls, the end of a dispatch, an event of another writer.

The tool runtime is the environment's: what `prepare`, `dispatch`, `finalize` and `finish`
answer is in the actions. `finish` answers without an await in the source; here its answer is an
action like that of `finalize`, so that other actions may come first.

## Main definitions

* `runGroup`, `startCall`, `fillPool`, `commitReady`, `settleGroup` — the segments of a pool.
* `nextGroup` — the loop of `executeToolCalls`.
* `step` — one resumed await or one action of the environment.
-/

namespace TianmaCoder

namespace ToolCalls

/-- The kind of a `ToolExecutionMode`. -/
inductive Mode where
  | parallel
  | exclusive
  deriving DecidableEq

/-- A call in the assistant message. -/
structure ToolCallBlock where
  id : String
  name : String
  arguments : String
  deriving DecidableEq

variable {ε κ : Type}

/-- What the durable events and the loop read of a finished execution. -/
structure ToolExecutionResult (κ : Type) where
  content : List Json
  isError : Bool
  /-- `error.info` -/
  errorInfo : Option Json
  presentation : Option Json
  additionalContexts : List κ
  concludesTurn : Bool
  deriving DecidableEq

/-! ## Events -/

/-- The data of `tool/call`. -/
structure ToolCallData where
  turn : ℕ
  step : ℕ
  callId : String
  name : String
  arguments : String
  deriving DecidableEq

/-- The data of `tool/result`, with the fields of its message. -/
structure ToolResultData where
  turn : ℕ
  step : ℕ
  callId : String
  content : List Json
  isError : Bool
  error : Option Json
  presentation : Option Json
  deriving DecidableEq

/-- The events appended while the calls run. -/
inductive Event where
  | toolCall (seq : ℕ) (data : ToolCallData)
  | toolResult (data : ToolResultData) (sourceEventSeqs : List (Option ℕ))
  /-- An event of another writer. -/
  | other (event : Json)
  deriving DecidableEq

/-- The sequence numbers of the calls on record. -/
def callSeqs : List Event → List ℕ :=
  List.filterMap fun
    | .toolCall seq _ => some seq
    | _ => none

/-- The calls on record. -/
def callData : List Event → List ToolCallData :=
  List.filterMap fun
    | .toolCall _ data => some data
    | _ => none

/-- The results on record, each with what it cites. -/
def results : List Event → List (ToolResultData × List (Option ℕ)) :=
  List.filterMap fun
    | .toolResult data sources => some (data, sources)
    | _ => none

/-! ## State -/

/-- A settled dispatch that awaits its model-order finalization. -/
structure Slot (κ : Type) where
  result : ToolExecutionResult κ
  needsPost : Bool
  deriving DecidableEq

/-- The locals of `runGroup`. -/
structure Group (ε κ : Type) where
  calls : List ToolCallBlock
  mode : Mode
  slots : List (Option (Slot κ))
  callSeqs : List (Option ℕ)
  nextToStart : ℕ
  committed : ℕ
  started : ℕ
  aborted : Bool
  concluded : Bool
  schedulerFailure : Option ε
  /-- The map of pending dispatches, each with whether its promise has settled. -/
  inFlight : List (ℕ × Bool)
  deriving DecidableEq

/-- What the caller of `executeToolCalls` fixes. -/
structure Settings (ε κ : Type) where
  turn : ℕ
  step : ℕ
  maxParallelToolCalls : ℕ
  /-- The number of the first event appended here. -/
  firstSeq : ℕ
  /-- The session's answer to an event, where it throws. -/
  appendRefusal : List Event → Event → Option ε
  /-- The acceptor's answer to a context, where it throws. -/
  contextRefusal : List κ → κ → Option ε
  /-- An error of the scheduler's own. -/
  error : String → ε

structure State (ε κ : Type) where
  log : List Event
  /-- `signal.aborted` -/
  signalAborted : Bool
  executionMode : ToolCallBlock → Except ε Mode
  /-- The contexts accepted so far. -/
  contexts : List κ
  next : ℕ
  concluded : Bool
  group : Group ε κ
  /-- Bookkeeping: how the started calls were classified as they started. -/
  startModes : List (Except ε Mode)
  /-- Bookkeeping: the results committed for started calls. -/
  outcomes : List (ToolExecutionResult κ)
  /-- Bookkeeping: how many calls have the synthetic result. -/
  skipped : ℕ

/-- The outcome of one group. -/
structure GroupOutcome where
  consumed : ℕ
  aborted : Bool
  concluded : Bool
  deriving DecidableEq

/-- Where `executeToolCalls` stands. -/
inductive Point (ε : Type) where
  /-- At `prepare`, in `startCall`. -/
  | prepare
  /-- Behind `await startCall`, in `fillPool`. -/
  | startCall
  /-- At `finalize` or `finish`, in `commitReady`. -/
  | finalize
  /-- Behind `await commitReady`. -/
  | commitReady
  /-- Behind `await fillPool`. -/
  | fillPool
  /-- At `Promise.race`. -/
  | race
  /-- An exception on its way to the handler of `runGroup`. -/
  | thrown (error : ε)
  /-- At `Promise.allSettled`, in the handler. -/
  | drain
  /-- Behind `await runGroup`. -/
  | outcome (group : GroupOutcome)
  | returned (concluded : Bool)
  /-- Rejected with a failure of the scheduler. -/
  | failed (error : ε)
  /-- Rejected because the session refused the events of a skipped call. -/
  | refused (error : ε)
  deriving DecidableEq

/-- A segment changes the state up to the point where it ends or throws. -/
abbrev Segment (ε κ α : Type) := EStateM ε (State ε κ) α

variable (settings : Settings ε κ)

/-! ## Appending -/

def append (event : ℕ → Event) : Segment ε κ ℕ := fun s =>
  let seq := settings.firstSeq + s.log.length
  match settings.appendRefusal s.log (event seq) with
  | some error => .error error s
  | none => .ok seq { s with log := s.log ++ [event seq] }

def toolCallData (block : ToolCallBlock) : ToolCallData where
  turn := settings.turn
  step := settings.step
  callId := block.id
  name := block.name
  arguments := block.arguments

/-- Append a started call. -/
def appendToolCall (block : ToolCallBlock) : Segment ε κ ℕ :=
  append settings fun seq => .toolCall seq (toolCallData settings block)

def toolResultData (block : ToolCallBlock) (result : ToolExecutionResult κ) : ToolResultData where
  turn := settings.turn
  step := settings.step
  callId := block.id
  content := result.content
  isError := result.isError
  error := result.errorInfo
  presentation := result.presentation

/-- Append a model-ordered result linked to its call event. -/
def appendToolResult (block : ToolCallBlock) (result : ToolExecutionResult κ)
    (callSeq : Option ℕ) : Segment ε κ Unit := do
  let _ ← append settings fun _ => .toolResult (toolResultData settings block result) [callSeq]

def TOOL_ABORTED_BEFORE_DISPATCH : String := "ABORTED_BEFORE_DISPATCH"

/-- The result of a call that an abort left unstarted. -/
def abortedBeforeDispatch : ToolExecutionResult κ where
  content := [.obj [("type", .str "text"),
    ("text", .str "Error: tool call aborted before dispatch")]]
  isError := true
  errorInfo := some (.obj [("name", .str "AbortError"),
    ("code", .str TOOL_ABORTED_BEFORE_DISPATCH)])
  presentation := none
  additionalContexts := []
  concludesTurn := false

/-- Append the call and the result of a call skipped after cancellation. -/
def appendSkippedToolCall (block : ToolCallBlock) : Segment ε κ PUnit := do
  let callSeq ← appendToolCall settings block
  appendToolResult settings block abortedBeforeDispatch (some callSeq)
  modify fun s => { s with skipped := s.skipped + 1 }

/-! ## The pool -/

def throwSchedulerFailure : Segment ε κ Unit := do
  match (← get).group.schedulerFailure with
  | some error => throw error
  | none => pure ()

/-- Whether a later call of a pool has to wait for the next barrier. -/
def isBarrier (nextCall : ToolCallBlock) : Segment ε κ Bool := do
  let s ← get
  if 0 < s.group.nextToStart ∧ s.group.mode = .parallel then
    match s.executionMode nextCall with
    | .ok mode => pure (mode != .parallel)
    | .error error => throw error
  else
    pure false

/-- `startCall(nextToStart)`, up to its await. -/
def startCall (call : ToolCallBlock) : Segment ε κ (Point ε) := do
  let seq ← appendToolCall settings call
  modify fun s =>
    { s with
      group :=
        { s.group with
          callSeqs := s.group.callSeqs.set s.group.nextToStart (some seq)
          started := s.group.started + 1 }
      startModes := s.startModes ++ [s.executionMode call] }
  pure .prepare

/-- What `prepare` answers; `dispatch` may throw before it returns a promise. -/
inductive Preparation (ε κ : Type) where
  | dispatch
  | dispatchThrows (error : ε)
  | postResult (result : ToolExecutionResult κ)
  | finalResult (result : ToolExecutionResult κ)

def Group.setSlot (g : Group ε κ) (index : ℕ) (slot : Slot κ) : Group ε κ :=
  { g with slots := g.slots.set index (some slot) }

/-- `startCall` behind its await. -/
def continueCall (prepared : Preparation ε κ) : Segment ε κ (Point ε) := do
  throwSchedulerFailure
  match prepared with
  | .dispatch =>
    modify fun s =>
      { s with group := { s.group with
          inFlight := s.group.inFlight ++ [(s.group.nextToStart, false)] } }
  | .dispatchThrows error => throw error
  | .postResult result =>
    modify fun s => { s with group := s.group.setSlot s.group.nextToStart ⟨result, true⟩ }
  | .finalResult result =>
    modify fun s => { s with group := s.group.setSlot s.group.nextToStart ⟨result, false⟩ }
  pure .startCall

/-- The test of the loop in `fillPool`, and the start of the next call. -/
def fillPool : Segment ε κ (Point ε) := do
  let g := (← get).group
  if h : g.nextToStart < g.calls.length then
    if g.aborted = false ∧ g.inFlight.length < settings.maxParallelToolCalls then
      let nextCall := g.calls[g.nextToStart]
      if ← isBarrier nextCall then
        pure .fillPool
      else
        startCall settings nextCall
    else
      pure .fillPool
  else
    pure .fillPool

/-- The test of the loop in `commitReady`. -/
def commitReady : Segment ε κ (Point ε) := do
  let g := (← get).group
  if g.committed < g.calls.length ∧ (g.slots[g.committed]?.join).isSome = true then
    pure .finalize
  else
    pure .commitReady

def acceptContext (context : κ) : Segment ε κ PUnit := fun s =>
  match settings.contextRefusal s.contexts context with
  | some error => .error error s
  | none => .ok () { s with contexts := s.contexts ++ [context] }

/-- Commit the finalized result of the call at `committed`, and look at the next slot. -/
def commit (result : ToolExecutionResult κ) : Segment ε κ (Point ε) := do
  let g := (← get).group
  if h : g.committed < g.calls.length then
    appendToolResult settings g.calls[g.committed] result (g.callSeqs[g.committed]?.join)
    modify fun s => { s with outcomes := s.outcomes ++ [result] }
    forM result.additionalContexts (acceptContext settings)
    modify fun s =>
      { s with group := { s.group with
          concluded := s.group.concluded || result.concludesTurn
          committed := s.group.committed + 1 } }
    commitReady
  else
    commitReady

/-- The exceptions of the pool reach the handler of `runGroup`. -/
def inPool (segment : Segment ε κ (Point ε)) : Segment ε κ (Point ε) :=
  tryCatch segment fun error => pure (.thrown error)

/-- The refusal of a skipped call's events rejects at once. -/
def rejecting (segment : Segment ε κ (Point ε)) : Segment ε κ (Point ε) :=
  tryCatch segment fun error => pure (.refused error)

/-- `runGroup` behind its loop. -/
def settleGroup : Segment ε κ (Point ε) := do
  let g := (← get).group
  if g.aborted then
    rejecting do
      forM (g.calls.drop g.started) (appendSkippedToolCall settings)
      pure (.outcome ⟨g.calls.length, true, g.concluded⟩)
  else if g.committed ≠ g.started then
    throw (settings.error "tool-call scheduler: uncommitted settled calls")
  else
    pure (.outcome ⟨g.started, false, g.concluded⟩)

/-- `runGroup`, up to its first await. -/
def runGroup (calls : List ToolCallBlock) (mode : Mode) : Segment ε κ (Point ε) := do
  modify fun s =>
    { s with group :=
        { calls := calls
          mode := mode
          slots := calls.map fun _ => none
          callSeqs := calls.map fun _ => none
          nextToStart := 0
          committed := 0
          started := 0
          aborted := s.signalAborted
          concluded := false
          schedulerFailure := none
          inFlight := [] } }
  inPool (fillPool settings)

/-! ## The walk over the calls -/

/-- The loop of `executeToolCalls` over the planned calls. -/
def nextGroup (planned : List ToolCallBlock) : Segment ε κ (Point ε) := do
  let s ← get
  if h : s.next < planned.length then
    let first := planned[s.next]
    match s.executionMode first with
    | .error error => throw error
    | .ok mode =>
      runGroup settings (if mode = .parallel then planned.drop s.next else [first]) mode
  else
    pure (.returned s.concluded)

/-- `executeToolCalls` behind `await runGroup`. -/
def continueWith (planned : List ToolCallBlock) (outcome : GroupOutcome) :
    Segment ε κ (Point ε) := do
  modify fun s =>
    { s with next := s.next + outcome.consumed, concluded := s.concluded || outcome.concluded }
  if outcome.aborted then
    rejecting do
      let s ← get
      forM (planned.drop s.next) (appendSkippedToolCall settings)
      pure (.returned s.concluded)
  else
    nextGroup settings planned

/-! ## Runs -/

/-- A run of `executeToolCalls`. -/
structure Execution (ε κ : Type) where
  point : Point ε
  state : State ε κ

/-- What no handler of the pool sees rejects with the scheduler's failure. -/
def resumed (s : State ε κ) (segment : Segment ε κ (Point ε)) : Execution ε κ :=
  match segment s with
  | .ok point s => ⟨point, s⟩
  | .error error s => ⟨.failed error, s⟩

/-- The next thing that happens. -/
inductive Action (ε κ : Type) where
  /-- The signal is aborted. -/
  | abort
  /-- The registry changes how calls are classified. -/
  | reclassify (executionMode : ToolCallBlock → Except ε Mode)
  /-- Another writer appends. -/
  | foreign (event : Json)
  /-- A dispatch settles. -/
  | settle (index : ℕ) (outcome : Except ε (Slot κ))
  | prepared (prepared : Except ε (Preparation ε κ))
  | finalized (result : Except ε (ToolExecutionResult κ))
  /-- `Promise.race` yields an index. -/
  | raced (index : ℕ)
  /-- An await whose promise has settled goes on. -/
  | resume

/-- The reactions on the promise of a dispatch. -/
def Group.settle (g : Group ε κ) (index : ℕ) (outcome : Except ε (Slot κ)) : Group ε κ :=
  let g : Group ε κ := { g with inFlight := g.inFlight.map fun p => (p.1, p.2 || p.1 == index) }
  match outcome with
  | .ok slot => g.setSlot index slot
  | .error error => { g with schedulerFailure := g.schedulerFailure <|> some error }

/-- The segment behind `await Promise.race`. -/
def afterRace (index : ℕ) : Segment ε κ (Point ε) := do
  modify fun s =>
    { s with group := { s.group with
        inFlight := s.group.inFlight.filter fun p => p.1 != index } }
  throwSchedulerFailure
  commitReady

/-- The segment behind `await startCall`. -/
def afterStart : Segment ε κ (Point ε) := do
  modify fun s => { s with group := { s.group with nextToStart := s.group.nextToStart + 1 } }
  throwSchedulerFailure
  commitReady

/-- The segment behind `await commitReady`. -/
def afterCommit : Segment ε κ (Point ε) := do
  throwSchedulerFailure
  modify fun s =>
    { s with group := { s.group with aborted := s.group.aborted || s.signalAborted } }
  fillPool settings

/-- The test of the loop in `runGroup`. -/
def afterFill : Segment ε κ (Point ε) := do
  if 0 < (← get).group.inFlight.length then
    pure .race
  else
    settleGroup settings

/-- The handler of `runGroup`, up to its await. -/
def handle (error : ε) : Segment ε κ (Point ε) := do
  modify fun s =>
    { s with group := { s.group with
        schedulerFailure := s.group.schedulerFailure <|> some error } }
  pure .drain

/-- The segment that an action resumes at a point. -/
def resumption (planned : List ToolCallBlock) (s : State ε κ) :
    Point ε → Action ε κ → Option (Segment ε κ (Point ε))
  | .prepare, .prepared (.ok prepared) => some (inPool (continueCall prepared))
  | .prepare, .prepared (.error error) => some (inPool (throw error))
  | .startCall, .resume => some (inPool afterStart)
  | .finalize, .finalized (.ok result) => some (inPool (commit settings result))
  | .finalize, .finalized (.error error) => some (inPool (throw error))
  | .commitReady, .resume => some (inPool (afterCommit settings))
  | .fillPool, .resume => some (afterFill settings)
  | .race, .raced index =>
    if (index, true) ∈ s.group.inFlight then some (inPool (afterRace index)) else none
  | .thrown error, .resume => some (handle error)
  | .drain, .resume =>
    if s.group.inFlight.all Prod.snd then s.group.schedulerFailure.map throw else none
  | .outcome outcome, .resume => some (continueWith settings planned outcome)
  | _, _ => none

/-- One resumed await, or one action of the environment. -/
def step (planned : List ToolCallBlock) (x : Execution ε κ) :
    Action ε κ → Option (Execution ε κ)
  | .abort => some { x with state := { x.state with signalAborted := true } }
  | .reclassify mode => some { x with state := { x.state with executionMode := mode } }
  | .foreign event =>
    some { x with state := { x.state with log := x.state.log ++ [.other event] } }
  | .settle index outcome =>
    if (index, false) ∈ x.state.group.inFlight then
      some { x with state := { x.state with group := x.state.group.settle index outcome } }
    else
      none
  | action => (resumption settings planned x.state x.point action).map (resumed x.state)

/-- The locals before the first group. -/
def Group.empty : Group ε κ where
  calls := []
  mode := .exclusive
  slots := []
  callSeqs := []
  nextToStart := 0
  committed := 0
  started := 0
  aborted := false
  concluded := false
  schedulerFailure := none
  inFlight := []

/-- `executeToolCalls`, up to its first await. -/
def start (planned : List ToolCallBlock) (signalAborted : Bool)
    (executionMode : ToolCallBlock → Except ε Mode) : Execution ε κ :=
  resumed
    { log := []
      signalAborted := signalAborted
      executionMode := executionMode
      contexts := []
      next := 0
      concluded := false
      group := .empty
      startModes := []
      outcomes := []
      skipped := 0 }
    (nextGroup settings planned)

end ToolCalls

end TianmaCoder
