import TianmaCoder.Session.Invariant
import TianmaCoder.Session.SurfaceFold

/-!
# The compaction invariant

The relational checks of the compaction events. A trace follows the open turn, the open
compaction and the surface; every candidate is checked against it before it commits.

## Main definitions

* `Trace`, `validateCompactionEvent`, `applyCompactionTransition` — one checked transition.
* `seedTrace`, `Trace.accept` — the trace of a constructed session and of a live append.
-/

namespace TianmaCoder

namespace Compaction

/-- The open compaction of a trace. -/
structure CompactionTrace where
  compactionId : Json
  sourceCommandId : Option Json
  startSeq : ℕ
  /-- The owner turn, or `null` for a standalone compaction. -/
  turn : Json
  summarized : Bool
  deriving DecidableEq

/-- Per-session bookkeeping of the compaction checks. -/
structure Trace where
  /-- The open turn, or `null`. -/
  openTurn : Json
  compaction : Option CompactionTrace
  surfaceEvents : List SessionEvent
  deriving DecidableEq

/-- A trace before the first event. -/
def freshTrace : Trace := ⟨.null, none, []⟩

/-- One accepted event's deferred change of the open compaction. -/
inductive CompactionTransition where
  | start (open_ : CompactionTrace)
  | summary (open_ : CompactionTrace)
  | end_
  | endSeed
  deriving DecidableEq

/-- Require a durable opaque identity to be a non-empty string. -/
def validateId (value : Option Json) (label : String) : Except String Unit :=
  match Json.nonEmptyStr? value with
  | some _ => pure ()
  | none => throw s!"{label} must be a non-empty string"

/-- Validate a durable event-sequence identity. -/
def validateSeq (value : Option Json) (label : String) : Except String ℕ :=
  match Json.count? value with
  | some seq => pure seq
  | none => throw s!"{label} must be a non-negative safe integer event seq"

/-- Validate one shadowed surface span and its complete ordered identity list. -/
def validateShadowedSeqs (surface : List ℕ) (event : SessionEvent) : Except String Unit := do
  let eventType := event.type.name
  let start ← validateSeq (event.data.path ["shadowedRange", "start"])
    s!"{eventType} shadowedRange.start"
  let end_ ← validateSeq (event.data.path ["shadowedRange", "end"])
    s!"{eventType} shadowedRange.end"
  let seqs ← ((Json.arr? (event.field "shadowedSeqs")).getD []).mapM fun seq =>
    validateSeq (some seq) s!"{eventType} shadowedSeqs"
  if seqs.isEmpty then
    throw s!"{eventType} shadowedSeqs must be non-empty"
  if seqs.head? ≠ some start ∨ seqs.getLast? ≠ some end_ then
    throw s!"{eventType} shadowedRange must match the first and last shadowedSeqs"
  match surface.idxOf? start, surface.idxOf? end_ with
  | some startIndex, some endIndex =>
    if endIndex < startIndex then
      throw s!"{eventType} shadowed seqs must name an earlier current surface span"
    if (surface.take (endIndex + 1)).drop startIndex ≠ seqs then
      throw s!"{eventType} shadowedSeqs must list every node in the current surface span"
  | _, _ => throw s!"{eventType} shadowed seqs must name an earlier current surface span"

/-- Keep the optional initiating command identity stable across one transaction. -/
def validateSourceCommandId (eventType : String) (value expected : Option Json) :
    Except String Unit := do
  if value.isSome then
    validateId value s!"{eventType} sourceCommandId"
  if value ≠ expected then
    throw s!"{eventType} sourceCommandId {shown value} does not match compaction/start sourceCommandId {shown expected}"

/-- Validate one replacement checkpoint against its open compaction transaction. -/
def validateCheckpoint (trace : Trace) (source : Json) : Except String Unit := do
  validateId (source.get? "compactionId") "compaction checkpoint compactionId"
  if (source.get? "sourceCommandId").isSome then
    validateId (source.get? "sourceCommandId") "compaction checkpoint sourceCommandId"
  match trace.compaction with
  | none => throw "compaction checkpoint has no matching compaction/start"
  | some open_ =>
    let id := source.get? "compactionId"
    if id ≠ some open_.compactionId then
      throw s!"compaction checkpoint id {shown id} does not match compaction/start id {shown (some open_.compactionId)}"
    validateSourceCommandId "compaction checkpoint" (source.get? "sourceCommandId")
      open_.sourceCommandId

/-- Keep every live compaction bracket on one side of each turn boundary. -/
def validateTurnBoundary (trace : Trace) (event : SessionEvent) : Except String Unit :=
  match event.type, trace.compaction with
  | .turnStart, some open_ | .turnEnd, some open_ =>
    let owner := if open_.turn = .null then "standalone compaction"
      else s!"compaction for turn {shown (some open_.turn)}"
    throw s!"{event.type.name} cannot cross an open {owner}"
  | _, _ => pure ()

/-- Advance the committed turn cursor after its boundary has been accepted. -/
def applyTurnBoundary (trace : Trace) (event : SessionEvent) : Trace :=
  match event.type with
  | .turnStart => { trace with openTurn := event.turn }
  | .turnEnd => { trace with openTurn := .null }
  | _ => trace

/-- Require a numbered bracket inside its exact turn, or a standalone bracket between turns. -/
def validateOwner (owner openTurn : Json) (eventType : String) : Except String Unit :=
  if owner = .null then
    if openTurn ≠ .null then
      throw s!"{eventType} is standalone but turn {shown (some openTurn)} is open"
    else pure ()
  else if openTurn = .null then
    throw s!"{eventType} for turn {shown (some owner)} appended outside any open turn"
  else if owner ≠ openTurn then
    throw s!"{eventType} names turn {shown (some owner)} but open turn is {shown (some openTurn)}"
  else pure ()

/-- A replacement that carries a compaction checkpoint; returns its source. -/
def checkpointSource (event : SessionEvent) : Option Json :=
  if event.type = .userMessage ∧ event.surfaceOp.isSome ∧ event.isAppend = false then
    (event.field "source").filter fun source =>
      source.get? "kind" = some (.str "compact-checkpoint")
  else none

/-- Check a `compaction/start`. -/
def validateStart (trace : Trace) (event : SessionEvent) : Except String CompactionTransition := do
  validateId (event.field "compactionId") "compaction/start compactionId"
  if (event.field "sourceCommandId").isSome then
    validateId (event.field "sourceCommandId") "compaction/start sourceCommandId"
  match trace.compaction with
  | some open_ =>
    let owner := if open_.turn = .null then "standalone compaction"
      else s!"turn {shown (some open_.turn)}"
    throw s!"compaction/start while {owner} is still compacting"
  | none =>
    validateOwner event.turn trace.openTurn "compaction/start"
    return .start ⟨(event.field "compactionId").getD .null, event.field "sourceCommandId",
      event.seq, event.turn, false⟩

/-- The checks a `compaction/summary` and a `compaction/end` share. -/
def validateMember (trace : Trace) (event : SessionEvent) : Except String CompactionTrace := do
  let eventType := event.type.name
  validateId (event.field "compactionId") s!"{eventType} compactionId"
  if (event.field "sourceCommandId").isSome then
    validateId (event.field "sourceCommandId") s!"{eventType} sourceCommandId"
  match trace.compaction with
  | none => throw s!"{eventType} has no matching compaction/start"
  | some open_ =>
    let id := event.field "compactionId"
    if id ≠ some open_.compactionId then
      throw s!"{eventType} id {shown id} does not match compaction/start id {shown (some open_.compactionId)}"
    validateSourceCommandId eventType (event.field "sourceCommandId") open_.sourceCommandId
    return open_

/-- Check a `compaction/summary`. -/
def validateSummary (trace : Trace) (surface : List ℕ) (event : SessionEvent) :
    Except String CompactionTransition := do
  let open_ ← validateMember trace event
  validateOwner open_.turn trace.openTurn "compaction/summary"
  if open_.summarized then
    throw "compaction/summary repeated within one compaction"
  validateShadowedSeqs surface event
  if (Json.count? (event.field "shadowedTokenCount")).isNone then
    throw "compaction/summary shadowedTokenCount must be a non-negative safe integer"
  return .summary { open_ with summarized := true }

/-- Check a `compaction/end`. -/
def validateEnd (trace : Trace) (event : SessionEvent) : Except String CompactionTransition := do
  let open_ ← validateMember trace event
  if event.turn ≠ open_.turn then
    throw s!"compaction/end owner {shown (some event.turn)} does not match compaction/start owner {shown (some open_.turn)}"
  validateOwner open_.turn trace.openTurn "compaction/end"
  if event.field "error" = none ∧ !open_.summarized then
    throw "successful compaction/end requires one compaction/summary"
  return .end_

/-- The current nodes of a trace. -/
def Trace.surface (projections : List SessionMessageProjection) (trace : Trace) : List ℕ :=
  match foldSurfaceState trace.surfaceEvents projections with
  | .ok acc => acc.1.nodes
  | .error _ => []

variable (projections : List SessionMessageProjection)

/-- Validate one compaction event without advancing the committed trace. -/
def validateCompactionEvent (trace : Trace) (event : SessionEvent) :
    Except String (Option CompactionTransition) := do
  match event.type with
  | .sessionEndSeed => return some .endSeed
  | .compactionPrune =>
    validateShadowedSeqs (trace.surface projections) event
    return none
  | .compactionStart =>
    let transition ← validateStart trace event
    return some transition
  | .compactionSummary =>
    let transition ← validateSummary trace (trace.surface projections) event
    return some transition
  | .compactionEnd =>
    let transition ← validateEnd trace event
    return some transition
  | _ =>
    match checkpointSource event with
    | some source =>
      validateCheckpoint trace source
      return none
    | none => return none

/-- Apply one committed compaction transition. -/
def applyCompactionTransition : CompactionTransition → Option CompactionTrace
  | .start open_ => some open_
  | .summary open_ => some open_
  | .end_ => none
  | .endSeed => none

/-- Commit one validated event. -/
def Trace.commit (trace : Trace) (event : SessionEvent) (transition : Option CompactionTransition) : Trace :=
  let trace := match transition with
    | some transition => { trace with compaction := applyCompactionTransition transition }
    | none => trace
  let trace := applyTurnBoundary trace event
  { trace with surfaceEvents := trace.surfaceEvents ++ [event] }

/-- A live append: both checks run before the event commits. -/
def Trace.accept (trace : Trace) (event : SessionEvent) : Except String Trace := do
  validateTurnBoundary trace event
  let transition ← validateCompactionEvent projections trace event
  return trace.commit event transition

/-! ## The trace of a constructed session -/

/-- Compaction starts still unmatched when a later seed boundary made them stale. -/
def inheritedOrphanStartSeqs (events : List SessionEvent) : List ℕ :=
  (events.foldl (fun (acc : List ℕ × Option ℕ) event =>
    match event.type with
    | .compactionStart => (acc.1, some event.seq)
    | .compactionEnd => (acc.1, none)
    | .sessionEndSeed => (acc.1 ++ acc.2.toList, none)
    | _ => acc) ([], none)).1

/-- Replay one seed event: a bracket that a later boundary makes stale vetoes nothing. -/
def seedStep (stale : List ℕ) (trace : Trace) (event : SessionEvent) : Except String Trace := do
  if !(trace.compaction.any fun open_ => decide (open_.startSeq ∈ stale)) then
    validateTurnBoundary trace event
  let transition ← validateCompactionEvent projections trace event
  return trace.commit event transition

/-- The trace of a session at its construction. -/
def seedTrace (events : List SessionEvent) : Except String Trace :=
  events.foldlM (seedStep projections (inheritedOrphanStartSeqs events)) freshTrace

end Compaction

end TianmaCoder
