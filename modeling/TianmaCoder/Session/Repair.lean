import TianmaCoder.Lib.Outstanding
import TianmaCoder.Session.Invariant

/-!
# Synthetic closers of an open turn

`openTurnClosers` scans a log for the open turn, the open step and the tool calls that wait
for a result, and returns the events that close them: one error result for each waiting call,
then `step/end`, then `turn/end`.

## Main definitions

* `RepairScan`, `scanEvent`, `scanLog` — the boundary cursor and the waiting calls.
* `openTurnClosers` — the synthetic events.
-/

namespace TianmaCoder

/-- Why an open tail turn is closed with synthetic events. -/
inductive OpenTurnCloseCause where
  | interrupted
  | forked
  deriving DecidableEq, Repr

namespace OpenTurnCloseCause

def kind : OpenTurnCloseCause → String
  | .interrupted => "interrupted"
  | .forked => "forked"

/-- `CLOSER_TEXT[cause].started`. -/
def startedText : OpenTurnCloseCause → String
  | .interrupted => "The tool call was interrupted after it was recorded, but no result was durably recorded. Its outcome is unknown. Decide whether to retry from the tool semantics: retry only if the operation is read-only or idempotent; if it may have side effects, first verify external state or ask the user. Do not retry blindly."
  | .forked => "The history inherited by this branch records this tool call starting but does not include its result. The parent session may have completed it after the fork point. Decide whether to retry from the tool semantics: retry only if the operation is read-only or idempotent; if it may have side effects, first verify external state or ask the user. Do not retry blindly."

/-- `CLOSER_TEXT[cause].notStarted`. -/
def notStartedText : OpenTurnCloseCause → String
  | .interrupted => "The tool call was interrupted before the Harness recorded it as started. Retry it if it is still needed."
  | .forked => "The history inherited by this branch has no record of this tool call starting. The parent session may have executed it after the fork point. Decide whether to retry from the tool semantics: retry only if the operation is read-only or idempotent; if it may have side effects, first verify external state or ask the user. Do not retry blindly."

end OpenTurnCloseCause

/-- A call that waits for its result: the step of its message, and the seq of its `tool/call`. -/
structure PendingCall where
  step : Json
  callSeq : Option ℕ := none
  deriving DecidableEq

/-- The scan state of `openTurnClosers`. -/
structure RepairScan where
  openTurn : Option Json
  openStep : Option Json
  pendingCalls : OrderedMap String PendingCall
  deriving DecidableEq

/-- The scan before the first event. -/
def RepairScan.start : RepairScan where
  openTurn := none
  openStep := none
  pendingCalls := []

/-- One iteration of the scan. -/
def scanEvent (scan : RepairScan) (event : SessionEvent) : RepairScan :=
  match event.type with
  | .turnStart => { openTurn := some event.turn, openStep := none, pendingCalls := [] }
  | .turnEnd => { openTurn := none, openStep := none, pendingCalls := [] }
  | .stepStart => { scan with openStep := some event.step }
  | .stepEnd => { scan with openStep := none, pendingCalls := [] }
  | .assistantMessage =>
    { scan with
      pendingCalls := event.toolCallBlocks.foldl
        (fun calls id => OrderedMap.set id { step := event.step } calls) scan.pendingCalls }
  | .toolCall =>
    match scan.pendingCalls.lookup event.callId with
    | some entry =>
      { scan with
        pendingCalls :=
          OrderedMap.set event.callId { entry with callSeq := some event.seq } scan.pendingCalls }
    | none => scan
  | .toolResult =>
    { scan with pendingCalls := OrderedMap.delete event.resultCallId scan.pendingCalls }
  | _ => scan

/-- The scan of a complete log. -/
def scanLog (events : List SessionEvent) : RepairScan := events.foldl scanEvent RepairScan.start

/-- The message of a synthetic result. -/
def closerMessage (cause : OpenTurnCloseCause) (callId : String) (started : Bool) (seq : ℕ) :
    Json :=
  .obj [("id", .str s!"{cause.kind}-tool-result-{callId}-{seq}"),
    ("role", .str "tool"),
    ("toolCallId", .str callId),
    ("isError", .bool true),
    ("source", .obj [("kind", .str "tool"), ("callId", .str callId)]),
    ("content", .arr [.obj [("type", .str "text"),
      ("text", .str (if started then cause.startedText else cause.notStartedText))]])]

/-- The error of a synthetic result. -/
def closerError (started : Bool) : Json :=
  if started then
    .obj [("name", .str "ToolOutcomeUnknownError"), ("code", .str TOOL_OUTCOME_UNKNOWN)]
  else
    .obj [("name", .str "ToolNotStartedError"), ("code", .str TOOL_NOT_STARTED)]

/-- The synthetic result of one waiting call, at `seq`. -/
def closerResult (cause : OpenTurnCloseCause) (turn : Json) (time : ℤ) (callId : String)
    (call : PendingCall) (seq : ℕ) : SessionEvent where
  type := .toolResult
  seq := seq
  time := time
  data := .obj [("turn", turn), ("step", call.step),
    ("message", closerMessage cause callId call.callSeq.isSome seq),
    ("error", closerError call.callSeq.isSome)]
  surfaceOp := some (.str "append")
  sourceEventSeqs := call.callSeq.map fun callSeq => .arr [.nat callSeq]

/-- The synthetic end of the open step. -/
def closerStepEnd (turn step : Json) (time : ℤ) (seq : ℕ) : SessionEvent where
  type := .stepEnd
  seq := seq
  time := time
  data := .obj [("turn", turn), ("step", step)]

/-- The synthetic end of the open turn. -/
def closerTurnEnd (cause : OpenTurnCloseCause) (turn : Json) (time : ℤ) (seq : ℕ) :
    SessionEvent where
  type := .turnEnd
  seq := seq
  time := time
  data := .obj [("turn", turn), ("reason", .obj [("kind", .str cause.kind)])]

/-- The synthetic results of the waiting calls, in map order, from `seq`. -/
def closerResults (cause : OpenTurnCloseCause) (turn : Json) (time : ℤ) :
    OrderedMap String PendingCall → ℕ → List SessionEvent
  | [], _ => []
  | (callId, call) :: calls, seq =>
    closerResult cause turn time callId call seq
      :: closerResults cause turn time calls (seq + 1)

/-- The boundary closers that follow the results. -/
def boundaryClosers (cause : OpenTurnCloseCause) (turn : Json) (openStep : Option Json)
    (time : ℤ) (seq : ℕ) : List SessionEvent :=
  match openStep with
  | some step =>
    [closerStepEnd turn step time seq, closerTurnEnd cause turn time (seq + 1)]
  | none => [closerTurnEnd cause turn time seq]

/-- The synthetic events that close an open tail turn; none when the log is balanced. -/
def openTurnClosers (events : List SessionEvent) (cause : OpenTurnCloseCause) :
    List SessionEvent :=
  let scan := scanLog events
  match scan.openTurn, events.getLast? with
  | some turn, some last =>
    let seq := last.seq + 1
    closerResults cause turn last.time scan.pendingCalls seq
      ++ boundaryClosers cause turn scan.openStep last.time (seq + scan.pendingCalls.length)
  | _, _ => []

end TianmaCoder
