import TianmaCoder.Lib.Checked
import TianmaCoder.Session.Surface

/-!
# The session invariant

The relational checks of the session event log. A trace follows the open turn, the open step
and the tool calls of the step that have no result yet; each candidate is validated against
the committed trace, and its transition is applied once the event commits.

## Main definitions

* `SessionTrace`, `validateEvent`, `applyTransition` — one checked transition.
* `runTrace` — the trace of a complete log, or the first refusal.
-/

namespace TianmaCoder

/-- Recovery code for an assistant tool request that never reached a recorded call start. -/
def TOOL_NOT_STARTED : String := "TOOL_NOT_STARTED"

/-- Recovery code for a recorded call whose outcome was not durably recorded. -/
def TOOL_OUTCOME_UNKNOWN : String := "TOOL_OUTCOME_UNKNOWN"

/-- How an error text shows a number, or `null`. -/
def shown : Option Json → String
  | some (.int n) => toString n
  | some (.str s) => s
  | some (.bool b) => toString b
  | some .null | none => "null"
  | some _ => "[object Object]"

namespace SessionEvent

/-- `event.data.turn`. -/
def turn (e : SessionEvent) : Json := (e.field "turn").getD .null

/-- `event.data.step`. -/
def step (e : SessionEvent) : Json := (e.field "step").getD .null

/-- The synthetic result of a call that never started. -/
def isSyntheticNotStarted (e : SessionEvent) : Bool :=
  e.data.path ["message", "isError"] == some (.bool true)
    && e.data.path ["error", "code"] == some (.str TOOL_NOT_STARTED)

end SessionEvent

/-- Per-session bookkeeping for relational log checks. -/
structure SessionTrace where
  lastSeq : ℤ
  openTurn : Option Json
  openStep : Option Json
  nextTurn : ℕ
  nextStep : ℕ
  pendingCalls : List String
  deriving DecidableEq

/-- A trace before the first event. -/
def freshTrace : SessionTrace where
  lastSeq := -1
  openTurn := none
  openStep := none
  nextTurn := 1
  nextStep := 1
  pendingCalls := []

/-- What a transition does to the pending calls. -/
inductive PendingChange where
  | none
  | add (callId : String)
  | delete (callId : String)
  | clear

/-- One accepted event's deferred mutation of a committed trace. -/
structure SessionTraceTransition where
  lastSeq : ℤ
  openTurn : Option Json
  openStep : Option Json
  nextTurn : ℕ
  nextStep : ℕ
  pendingCalls : PendingChange

/-- Assert that a step-scoped event names the open turn and step. -/
def requireOpenStep (trace : SessionTrace) (event : SessionEvent) : Except String Unit :=
  if trace.openTurn ≠ some event.turn ∨ trace.openStep ≠ some event.step then
    throw s!"{event.type.name} names turn {shown (some event.turn)}/step {shown (some event.step)} but open is turn {shown trace.openTurn}/step {shown trace.openStep}"
  else pure ()

/-- The transition of an event that moves nothing but the position. -/
def SessionTrace.stay (trace : SessionTrace) (event : SessionEvent) : SessionTraceTransition where
  lastSeq := event.seq
  openTurn := trace.openTurn
  openStep := trace.openStep
  nextTurn := trace.nextTurn
  nextStep := trace.nextStep
  pendingCalls := .none

/-- Validate one candidate event without mutating the committed trace. -/
def validateEvent (trace : SessionTrace) (event : SessionEvent) :
    Except String SessionTraceTransition := do
  if (event.seq : ℤ) ≤ trace.lastSeq then
    throw s!"seq must strictly increase: saw {event.seq} after {trace.lastSeq}"
  match event.type with
  | .turnStart =>
    if trace.openTurn.isSome then
      throw s!"turn/start {shown (some event.turn)} while turn {shown trace.openTurn} is still open"
    if event.turn ≠ .nat trace.nextTurn then
      throw s!"turn/start expected turn {trace.nextTurn}, got {shown (some event.turn)}"
    return { trace.stay event with openTurn := some event.turn, nextStep := 1 }
  | .turnEnd =>
    if trace.openTurn ≠ some event.turn then
      throw s!"turn/end {shown (some event.turn)} does not match open turn {shown trace.openTurn}"
    if trace.openStep.isSome then
      throw s!"turn/end {shown (some event.turn)} while step {shown trace.openStep} is still open"
    return { trace.stay event with openTurn := none, nextTurn := trace.nextTurn + 1 }
  | .stepStart =>
    if trace.openTurn ≠ some event.turn then
      throw s!"step/start in turn {shown (some event.turn)} but open turn is {shown trace.openTurn}"
    if trace.openStep.isSome then
      throw s!"step/start {shown (some event.step)} while step {shown trace.openStep} is still open"
    if event.step ≠ .nat trace.nextStep then
      throw s!"step/start expected step {trace.nextStep} in turn {shown (some event.turn)}, got {shown (some event.step)}"
    return { trace.stay event with openStep := some event.step }
  | .stepEnd =>
    requireOpenStep trace event
    return { trace.stay event with
      pendingCalls := .clear, openStep := none, nextStep := trace.nextStep + 1 }
  | .developerMessage | .assistantAttempt | .assistantMessage | .systemMessage =>
    requireOpenStep trace event
    return trace.stay event
  | .toolCall =>
    requireOpenStep trace event
    return { trace.stay event with pendingCalls := .add event.callId }
  | .toolResult =>
    -- A content rewrite is durable turn work, not a second execution of the call.
    if !event.isAppend then
      if trace.openTurn.isNone then
        throw "tool/result surface replacement appended outside any open turn"
      return trace.stay event
    requireOpenStep trace event
    if event.resultCallId ∉ trace.pendingCalls ∧ event.isSyntheticNotStarted = false then
      throw s!"tool/result for {event.resultCallId} with no prior tool/call in this step"
    return { trace.stay event with pendingCalls := .delete event.resultCallId }
  | .requestHeader | .requestContext =>
    if trace.openTurn.isNone then
      throw s!"{event.type.name} appended outside any open turn (core execution events must be turn-enclosed)"
    return trace.stay event
  | _ => return trace.stay event

/-- Apply one validated transition after its event commits. -/
def applyTransition (trace : SessionTrace) (transition : SessionTraceTransition) :
    SessionTrace where
  lastSeq := transition.lastSeq
  openTurn := transition.openTurn
  openStep := transition.openStep
  nextTurn := transition.nextTurn
  nextStep := transition.nextStep
  pendingCalls :=
    match transition.pendingCalls with
    | .none => trace.pendingCalls
    | .add callId =>
      if callId ∈ trace.pendingCalls then trace.pendingCalls else trace.pendingCalls ++ [callId]
    | .delete callId => trace.pendingCalls.filter (· ≠ callId)
    | .clear => []

/-- Validate and commit one event. -/
def traceEvent (trace : SessionTrace) (event : SessionEvent) : Except String SessionTrace := do
  let transition ← validateEvent trace event
  return applyTransition trace transition

/-- The trace of a log from a fresh trace, event by event. -/
def runTrace (log : List SessionEvent) : Except String SessionTrace :=
  log.foldlM traceEvent freshTrace

end TianmaCoder
