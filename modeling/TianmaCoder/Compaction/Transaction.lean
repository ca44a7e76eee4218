import TianmaCoder.Compaction.Region

/-!
# The compaction transaction

One `compactSurfaceRegion` call among appends of other code. The call runs synchronously
between its await points: the entry up to the first request of a summary, the handling of a
failed summary up to the next request, the acceptance of a summary, and the commit with the
close of the bracket. Other code appends between these, and while a recovery runs.

## Main definitions

* `TransactionState` — the attached session, the events of the call and its phase.
* `TransactionState.step` — one synchronous part of the call, or an append of other code.
* `Ending.outcome` — what the promise of the call settles to.
-/

namespace TianmaCoder

namespace Compaction

/-! ## Requests and results -/

/-- Who owns the bracket: the open turn, or nobody. -/
inductive Owner where
  | currentTurn
  | standalone
  deriving DecidableEq

/-- One call, with the identity its bracket gets. -/
structure Request where
  start : ℕ
  end_ : ℕ
  owner : Owner
  stability : Stability
  sourceCommandId : Option String
  compactionId : String
  deriving DecidableEq

/-- An open bracket of the call. -/
structure Bracket where
  compactionId : String
  sourceCommandId : Option String
  /-- The owner turn, or `null`. -/
  turn : Json
  startSeq : ℕ
  owner : Owner
  stability : Stability
  deriving DecidableEq

/-- The payload that opens a bracket. -/
def Bracket.lifecycle (bracket : Bracket) : List (String × Json) :=
  [("compactionId", .str bracket.compactionId)] ++ sourceCommandMember bracket.sourceCommandId
    ++ [("turn", bracket.turn)]

/-- A committed replacement whose bracket is still open. -/
structure PendingResult where
  summarySeq : ℕ
  summary : List Json
  start : ℕ
  end_ : ℕ
  shadowedSeqs : List ℕ
  shadowedTokenCount : ℤ
  deriving DecidableEq

/-- The result of a successful call. -/
structure CompactionResult extends PendingResult where
  compactionId : String
  sourceCommandId : Option String
  startSeq : ℕ
  endSeq : ℕ
  deriving DecidableEq

/-- The stage a failure is captured in. -/
inductive Stage where
  | summary
  | commit
  deriving DecidableEq

/-- A failure captured after the bracket opened. -/
structure TransactionFailure where
  error : RegionError
  stage : Stage
  deriving DecidableEq

/-- A call after its one attempt to close the bracket. -/
structure Ending where
  /-- The stage the call had entered. -/
  stage : Stage
  failure : Option TransactionFailure
  closed : Bool
  result : Option CompactionResult
  deriving DecidableEq

/-- `ManualCompactionErrorCode`, the classes a closed attempt can report. -/
inductive ManualCode where
  | commit
  | changed
  | summary
  | persistence
  deriving DecidableEq

/-- What the promise of a call rejects with. -/
inductive CallError where
  | aborted (reason : String)
  | manual (code : ManualCode) (message : String) (cause : RegionError)
  | thrown (error : RegionError)
  deriving DecidableEq

/-- Classify one closed manual attempt. -/
def manualFailure (failure : TransactionFailure) : CallError :=
  match failure.stage, failure.error with
  | .commit, error => .manual .commit "manual compaction did not commit cleanly" error
  | .summary, .surfaceChanged message cause =>
    .manual .changed "the compacted history changed during manual compaction"
      (.surfaceChanged message cause)
  | .summary, error =>
    .manual .summary "manual compaction could not produce a smaller summary" error

/-- What the promise settles to, after the optional flush of a closed bracket and a last look
at the signal. -/
def Ending.outcome (ending : Ending) (owner : Owner) (flush : Option RegionError)
    (aborted : Option String) : Except CallError CompactionResult :=
  match owner, aborted with
  | .standalone, some reason => .error (.aborted reason)
  | _, _ =>
    match ending.failure, ending.result with
    | some failure, _ =>
      match owner with
      | .standalone => .error (manualFailure failure)
      | .currentTurn => .error (.thrown failure.error)
    | none, none => .error (.thrown (.error "compaction committed without a result"))
    | none, some result =>
      match ending.closed, flush with
      | true, some cause =>
        .error (.manual .persistence "manual compaction durability checkpoint failed" cause)
      | _, _ => .ok result

/-! ## The state -/

/-- Where the call stands. -/
inductive Phase [NumberText] where
  | idle
  /-- It threw before its bracket opened. -/
  | rejected (error : RegionError)
  /-- It awaits a summary. -/
  | summarizing (bracket : Bracket) (prepared : PreparedCompaction)
  /-- The summary is settled; the transaction has not continued yet. -/
  | settled (bracket : Bracket) (outcome : Except RegionError SummarizedCompaction)
  | ended (bracket : Bracket) (ending : Ending)
  deriving DecidableEq

/-- What an append meets besides the session: the clock, and the other dispatch listeners. -/
structure Surroundings where
  now : ℕ → ℤ
  refuse : SessionEvent → Option String

/-- A session with one call, the events the call appended, and the snapshots it asked summaries
of. -/
structure TransactionState [NumberText] extends Attached where
  own : List SessionEvent
  requested : List PreparedCompaction
  phase : Phase

variable [NumberText] (projections : List SessionMessageProjection)

namespace TransactionState

/-- One append of the call. -/
def appendOwn (s : TransactionState) (env : Surroundings) (type : EventType) (data : Json)
    (surfaceOp sourceEventSeqs : Option Json) : Except String TransactionState := do
  let call : AppendCall :=
    { type := type, data := data, surfaceOp := surfaceOp, sourceEventSeqs := sourceEventSeqs
      time := env.now s.log.length }
  let event := s.toAttached.candidate call
  let attached ← s.toAttached.append projections { call with dispatchFailure := env.refuse event }
  return { s with toAttached := attached, own := s.own ++ [event] }

/-- Appends of other code; a refused one changes nothing. -/
def appendOthers (s : TransactionState) : List AppendCall → TransactionState
  | [] => s
  | call :: calls =>
    match s.toAttached.append projections call with
    | .ok attached => appendOthers { s with toAttached := attached } calls
    | .error _ => appendOthers s calls

/-- Record a failure of a stage and make the one attempt to close the bracket. -/
def close (s : TransactionState) (env : Surroundings) (bracket : Bracket) (error : RegionError)
    (stage : Stage) : TransactionState :=
  let data := .obj (bracket.lifecycle ++ [("error", .str error.chain)])
  match s.appendOwn projections env .compactionEnd data none none with
  | .ok s => { s with phase := .ended bracket ⟨stage, some ⟨error, stage⟩, true, none⟩ }
  | .error message =>
    { s with phase := .ended bracket ⟨stage, some ⟨.error message, .commit⟩, false, none⟩ }

/-! ## The synchronous parts of the call -/

/-- A standalone call looks at its signal before anything else. -/
def throwIfAborted (owner : Owner) (aborted : Option String) : Except RegionError Unit :=
  match owner, aborted with
  | .standalone, some reason => .error (.error reason)
  | _, _ => .ok ()

/-- The turn that owns the bracket: none may be open for a standalone call, one must be open
otherwise. -/
def ownerTurn (owner : Owner) (entry : CompactionEntryState) : Except RegionError Json :=
  match owner with
  | .standalone =>
    if entry.openTurn ≠ .null then
      .error (.busy "manual compaction: the session already has an open turn")
    else .ok .null
  | .currentTurn =>
    if entry.openTurn = .null then
      .error (.error "compactRegion: no open turn — automatic compaction events must be enclosed in a turn")
    else .ok entry.openTurn

/-- The checks before the bracket opens: the selection and the owner. -/
def enter (s : TransactionState) (request : Request) (aborted : Option String) :
    Except RegionError (SurfaceSelection × Json) := do
  throwIfAborted request.owner aborted
  let selection ← plain (validateSurfaceRegion s.log (surfaceState projections s.log).nodes
    request.start request.end_)
  let entry := inspectCompactionEntryState s.log
  assertCompactionInactive entry "compaction"
  let turn ← ownerTurn request.owner entry
  return (selection, turn)

/-- Ask for a summary, unless the signal fired. -/
def request (s : TransactionState) (bracket : Bracket) (prepared : PreparedCompaction)
    (aborted : Option String) : TransactionState :=
  match aborted with
  | some reason => { s with phase := .settled bracket (.error (.error reason)) }
  | none =>
    { s with requested := s.requested ++ [prepared], phase := .summarizing bracket prepared }

/-- From the entry up to the first request. -/
def begin_ (s : TransactionState) (env : Surroundings) (meter : Meter) (request : Request)
    (aborted aborted' : Option String) : TransactionState :=
  match s.enter projections request aborted with
  | .error error => { s with phase := .rejected error }
  | .ok (selection, turn) =>
    let bracket : Bracket :=
      { compactionId := request.compactionId, sourceCommandId := request.sourceCommandId
        turn := turn, startSeq := s.log.length, owner := request.owner
        stability := request.stability }
    match s.appendOwn projections env .compactionStart (.obj bracket.lifecycle) none none with
    | .error message => { s with phase := .rejected (.error message) }
    | .ok s =>
      match prepareCompaction projections meter s.log selection with
      | .error error => s.close projections env bracket error .summary
      | .ok prepared => s.request bracket prepared aborted'

/-- What the recovery of a failed summary does: its appends, then its answer. -/
structure Recovery where
  appends : List AppendCall
  answer : Except RegionError Bool

/-- Prepare the span again after a recovery. -/
def prepareAgain (meter : Meter) (log : List SessionEvent) (prepared : PreparedCompaction) :
    Except RegionError PreparedCompaction := do
  let selection ← plain (validateSurfaceRegion log (surfaceState projections log).nodes
    prepared.start prepared.end_)
  prepareCompaction projections meter log selection

/-- From a failed summary up to the next request, or to the failure of the call. -/
def summaryFailed (s : TransactionState) (bracket : Bracket) (prepared : PreparedCompaction)
    (error : RegionError) (meter meter' : Meter) (recovery : Recovery)
    (aborted : Bool) (aborted' : Option String) : TransactionState :=
  if aborted then { s with phase := .settled bracket (.error error) }
  else
    match assertStable projections bracket.stability meter s.log prepared with
    | .error changed => { s with phase := .settled bracket (.error changed) }
    | .ok () =>
      let s := s.appendOthers projections recovery.appends
      match recovery.answer with
      | .error thrown => { s with phase := .settled bracket (.error thrown) }
      | .ok false => { s with phase := .settled bracket (.error error) }
      | .ok true =>
        match prepareAgain projections meter' s.log prepared with
        | .error failed => { s with phase := .settled bracket (.error failed) }
        | .ok prepared => s.request bracket prepared aborted'

/-- Frame a returned summary and accept it when it is smaller. -/
def summaryReturned (s : TransactionState) (bracket : Bracket) (prepared : PreparedCompaction)
    (result : SummaryResult) (messageId : String) : TransactionState :=
  let message := checkpointMessage messageId bracket.compactionId bracket.sourceCommandId
    result.summary
  { s with phase := .settled bracket (acceptSummary prepared result message) }

/-- The payload of a `compaction/summary`. -/
def summaryData (bracket : Bracket) (summarized : SummarizedCompaction) : Json :=
  let callRecord := if summarized.llmStreamCall then
      [("rawOutput", summarized.rawOutput.getD .null), ("llmStreamCall", .bool true)]
    else (summarized.rawOutput.map fun output => ("rawOutput", output)).toList
  .obj ([("compactionId", .str bracket.compactionId)]
    ++ sourceCommandMember bracket.sourceCommandId
    ++ [("summary", .arr summarized.summary)] ++ callRecord
    ++ [("shadowedRange", .obj [("start", .nat summarized.start), ("end", .nat summarized.end_)]),
      ("shadowedSeqs", .arr (summarized.shadowedSeqs.map .nat)),
      ("shadowedTokenCount", .int summarized.shadowedTokenCount),
      ("provider", .str summarized.provider), ("model", .str summarized.model)]
    ++ (summarized.maxTokens.map fun tokens => ("maxTokens", .nat tokens)).toList
    ++ (summarized.usage.map fun usage => ("usage", usage)).toList)

/-- Append the summary record and the replacement without yielding; what was appended stands
when a later append is refused. -/
def commitCompactionBody (s : TransactionState) (env : Surroundings) (bracket : Bracket)
    (summarized : SummarizedCompaction) : TransactionState × Except String PendingResult :=
  match s.appendOwn projections env .compactionSummary (summaryData bracket summarized) none none with
  | .error message => (s, .error message)
  | .ok s' =>
    let surfaceOp := .obj [("op", .str "replace"), ("startSeq", .nat summarized.start),
      ("endSeq", .nat summarized.end_)]
    let sources := .arr (([bracket.startSeq, s.log.length] ++ summarized.shadowedSeqs).map .nat)
    match s'.appendOwn projections env .userMessage summarized.checkpointMessage
        (some surfaceOp) (some sources) with
    | .error message => (s', .error message)
    | .ok s'' =>
      (s'', .ok
        { summarySeq := s.log.length, summary := summarized.summary, start := summarized.start
          end_ := summarized.end_, shadowedSeqs := summarized.shadowedSeqs
          shadowedTokenCount := summarized.shadowedTokenCount })

/-- Commit an accepted summary and close the bracket. -/
def commit (s : TransactionState) (env : Surroundings) (bracket : Bracket)
    (summarized : SummarizedCompaction) : TransactionState :=
  match s.commitCompactionBody projections env bracket summarized with
  | (s, .error message) => s.close projections env bracket (.error message) .commit
  | (s, .ok pending) =>
    match s.appendOwn projections env .compactionEnd (.obj bracket.lifecycle) none none with
    | .error message =>
      -- The close was attempted; it is not attempted again.
      { s with phase := .ended bracket ⟨.commit, some ⟨.error message, .commit⟩, false, none⟩ }
    | .ok s' =>
      { s' with
        phase := .ended bracket ⟨.commit, none, true, some
          { pending with
            compactionId := bracket.compactionId, sourceCommandId := bracket.sourceCommandId
            startSeq := bracket.startSeq, endSeq := s.log.length }⟩ }

/-- From the settled summary to the close of the bracket. -/
def resume (s : TransactionState) (env : Surroundings) (meter : Meter) (bracket : Bracket)
    (outcome : Except RegionError SummarizedCompaction) (aborted : Option String) :
    TransactionState :=
  match outcome with
  | .error error => s.close projections env bracket error .summary
  | .ok summarized =>
    match bracket.owner, aborted with
    | .standalone, some reason => s.close projections env bracket (.error reason) .summary
    | _, _ =>
      match assertStable projections bracket.stability meter s.log
          summarized.toPreparedCompaction with
      | .error changed => s.close projections env bracket changed .summary
      | .ok () => s.commit projections env bracket summarized

/-! ## The step relation -/

/-- An append of other code, or the next synchronous part of the call. -/
inductive Action where
  | other (call : AppendCall)
  | begin_ (env : Surroundings) (meter : Meter) (request : Request)
      (aborted aborted' : Option String)
  | summaryFailed (error : RegionError) (meter meter' : Meter) (recovery : Recovery)
      (aborted : Bool) (aborted' : Option String)
  | summaryReturned (result : SummaryResult) (messageId : String)
  | resume (env : Surroundings) (meter : Meter) (aborted : Option String)

/-- One action; `none` when the call is not where the action takes it up. -/
def step (s : TransactionState) (action : Action) : Option TransactionState :=
  match action, s.phase with
  | .other call, _ => some (s.appendOthers projections [call])
  | .begin_ env meter request aborted aborted', .idle =>
    some (s.begin_ projections env meter request aborted aborted')
  | .summaryFailed error meter meter' recovery aborted aborted', .summarizing bracket prepared =>
    some (s.summaryFailed projections bracket prepared error meter meter' recovery aborted
      aborted')
  | .summaryReturned result messageId, .summarizing bracket prepared =>
    some (s.summaryReturned bracket prepared result messageId)
  | .resume env meter aborted, .settled bracket outcome =>
    some (s.resume projections env meter bracket outcome aborted)
  | _, _ => none

/-- A session before the call. -/
def initial (seed : List SessionEvent) (trace : Trace) : TransactionState where
  log := seed
  trace := trace
  own := []
  requested := []
  phase := .idle

end TransactionState

end Compaction

end TianmaCoder
