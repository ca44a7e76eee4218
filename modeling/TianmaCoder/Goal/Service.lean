import TianmaCoder.Goal.Fold
import TianmaCoder.Lib.Number

/-!
# The goal service

Compare-and-set mutations of the current goal. Every mutation reads the projection, builds the
snapshot after it by hand and appends one `goal/change` event; the projection registry drives
the committed event before the append returns.

The clock, the drawn identities, the liveness of the agent and what the session does with an
append are inputs of a call.

## Main definitions

* `GoalWorld` — one live session: its log, its projection cell and its activation.
* `create`, `edit`, `pause`, `resume`, `complete`, `block`, `clear` — the mutations.
-/

namespace TianmaCoder

namespace Goal

open Checked

/-- How the language prints a finite number. -/
class NumberFormat where
  format : ℚ → String

/-- `String(x)` of a number. -/
def showNumber [NumberFormat] : Number → String
  | .nan => "NaN"
  | .negInfinity => "-Infinity"
  | .posInfinity => "Infinity"
  | .negZero => "0"
  | .finite q => NumberFormat.format q

inductive GoalErrorCode where
  | GOAL_AGENT_NOT_LIVE
  | GOAL_NOT_FOUND
  | GOAL_ALREADY_EXISTS
  | GOAL_STALE_REVISION
  | GOAL_INVALID_OBJECTIVE
  | GOAL_INVALID_MAX_ROUNDS
  | GOAL_INVALID_BLOCK_REASON
  | GOAL_INVALID_EDIT
  | GOAL_INVALID_TRANSITION
  deriving DecidableEq

/-- A thrown error; a domain error has a code. -/
structure Failure where
  message : String
  code : Option GoalErrorCode
  deriving DecidableEq

/-- `throw new GoalError(message, code)`. -/
def goalError {α : Type} (message : String) (code : GoalErrorCode) : Except Failure α :=
  throw ⟨message, some code⟩

/-- An argument of a remote call, whatever its type. -/
inductive Value where
  | undefined
  | null
  | str (s : String)
  | num (x : Number)
  | other
  deriving DecidableEq

/-- `a ?? b`. -/
def Value.orElse (a b : Value) : Value :=
  match a with
  | .undefined | .null => b
  | _ => a

/-- A revision a caller expects. -/
structure RefArgument where
  id : String
  revision : Number
  deriving DecidableEq

/-- The readings of a wall clock, in milliseconds: the time values of the language. -/
def maxTimeValue : ℤ := 8640000000000000

def TimeValue : Type := { ms : ℤ // -maxTimeValue ≤ ms ∧ ms ≤ maxTimeValue }

/-! ## Arguments -/

/-- Validate a caller-visible positive safe-integer round cap. -/
def resolveMaxGoalRounds (value : Value) : Except Failure ℕ :=
  match value with
  | .num (.finite q) =>
    if !(Number.finite q).isSafeInteger || (Number.finite q).lt (.ofNat 1) then
      goalError "maxGoalRounds must be a positive safe integer" .GOAL_INVALID_MAX_ROUNDS
    else pure q.num.toNat
  | _ => goalError "maxGoalRounds must be a positive safe integer" .GOAL_INVALID_MAX_ROUNDS

/-- Validate and normalize an objective at the domain boundary. -/
def resolveObjective (value : Value) : Except Failure String :=
  match value with
  | .str s =>
    if Text.trim s = "" then
      goalError "goal objective must be a non-empty string" .GOAL_INVALID_OBJECTIVE
    else pure (Text.trim s)
  | _ => goalError "goal objective must be a non-empty string" .GOAL_INVALID_OBJECTIVE

/-- Validate and detach one policy-owned blocker explanation; `none` is not a record. -/
def resolveBlockReason (reason : Option (Value × Value)) : Except Failure GoalBlockReason :=
  match reason with
  | some (.str code, .str message) =>
    if !Text.isLowerKebab code || Text.trim message = "" then
      goalError "goal block reason requires a lower-kebab-case code and a non-empty message"
        .GOAL_INVALID_BLOCK_REASON
    else pure ⟨code, Text.trim message⟩
  | _ =>
    goalError "goal block reason requires a lower-kebab-case code and a non-empty message"
      .GOAL_INVALID_BLOCK_REASON

structure CreateGoalRequest where
  objective : Value
  maxGoalRounds : Value
  deriving DecidableEq

structure EditGoalRequest where
  objective : Value
  maxGoalRounds : Value
  deriving DecidableEq

/-- Validated create input with every deployment default materialized. -/
structure ResolvedCreateGoal where
  objective : String
  maxGoalRounds : ℕ
  deriving DecidableEq

/-- Materialize deployment defaults and validate one create request. -/
def resolveCreateGoal (request : CreateGoalRequest) (defaultMaxGoalRounds : ℕ) :
    Except Failure ResolvedCreateGoal := do
  let objective ← resolveObjective request.objective
  let maxGoalRounds ← resolveMaxGoalRounds
    (request.maxGoalRounds.orElse (.num (.ofNat defaultMaxGoalRounds)))
  pure ⟨objective, maxGoalRounds⟩

/-! ## One live session -/

/-- Whether this process may continue an active goal by itself. -/
inductive GoalActivation where
  | armed
  | disarmed
  deriving DecidableEq

/-- Resolved defaults. -/
structure ResolvedConfig where
  defaultMaxGoalRounds : ℕ
  /-- Validated when the service is built. -/
  positive : IsPositive defaultMaxGoalRounds

/-- One live session of the service. -/
structure GoalWorld where
  resolved : ResolvedConfig
  log : List GoalEvent
  projection : GoalProjectionState
  activation : GoalActivation

/-- What surrounds one call: whether the agent is the live instance of the registry, the reading
of the clock, and the error with which the session refuses the append, if it does. -/
structure Surroundings where
  agentId : String
  live : Bool
  now : TimeValue
  refusal : Option String

namespace GoalWorld

/-- Log an event and drive the projection over it; a full log refuses. -/
def append (w : GoalWorld) (refusal : Option String) (body : EventBody) :
    Except Failure GoalWorld :=
  match refusal with
  | some message => throw ⟨message, none⟩
  | none =>
    if Json.maxArrayLength ≤ w.log.length then throw ⟨"Invalid array length", none⟩
    else
      let event : GoalEvent := ⟨w.log.length, body⟩
      pure { w with
        log := w.log ++ [event], projection := applyGoalProjection w.projection event }

/-- Enforce exact live-agent identity. -/
def assertLive (env : Surroundings) : Except Failure Unit :=
  if env.live then pure ()
  else
    let id := env.agentId
    goalError s!"agent \"{id}\" is not live in this registry" .GOAL_AGENT_NOT_LIVE

/-- Read the current durable projection maintained by the registry. -/
def state (w : GoalWorld) : Except Failure (Option GoalProjection) :=
  match w.projection.failure with
  | some failure => throw ⟨failure, none⟩
  | none => pure w.projection.current

/-- Resolve the durable state used by a mutation. -/
def prepareMutation (w : GoalWorld) (env : Surroundings) : Except Failure (Option GoalProjection) := do
  assertLive env
  w.state

/-- Reject stale or missing current-state refs. -/
def expectCurrent [NumberFormat] (state : Option GoalProjection) (ref : RefArgument) :
    Except Failure GoalProjection :=
  match state with
  | none => goalError "no current goal" .GOAL_NOT_FOUND
  | some projection =>
    let current := projection.goal
    if ref.id ≠ current.id ∨ ref.revision ≠ .ofNat current.revision then
      let id := ref.id
      let revision := showNumber ref.revision
      let currentId := current.id
      let currentRevision := current.revision
      goalError (s!"stale goal ref \"{id}\" revision {revision}; " ++
        s!"current is \"{currentId}\" revision {currentRevision}") .GOAL_STALE_REVISION
    else pure projection

/-- Build a new revision with one replacement phase. -/
def withPhase (current : GoalSnapshot) (phase : GoalPhase) : GoalSnapshot where
  id := current.id
  revision := current.revision + 1
  objective := current.objective
  phase := phase
  blockedReason := none
  maxGoalRounds := current.maxGoalRounds

/-- Render a stable invalid-transition error. -/
def transitionError {α : Type} (current : GoalSnapshot) (operation : SnapshotOperation)
    (allowed : List GoalPhase) : Except Failure α :=
  let id := current.id
  let name := operation.name
  let phase := current.phase.name
  let expected := " or ".intercalate (allowed.map GoalPhase.name)
  goalError s!"cannot {name} goal \"{id}\" from phase \"{phase}\"; expected {expected}"
    .GOAL_INVALID_TRANSITION

/-- Clamp a current goal's next timestamp across backward wall-clock movement. -/
def nextMutationTime (projection : GoalProjection) (now : TimeValue) : ℤ :=
  max now.val projection.updatedAt

/-! ## Planning a mutation

Everything a mutation does before it commits: the change to append and the activation after it. -/

structure Plan where
  change : GoalChange
  activation : GoalActivation
  deriving DecidableEq

/-- A mutation that retains the current goal's derived counters and times. -/
def planCurrent (projection : GoalProjection) (env : Surroundings) (operation : SnapshotOperation)
    (goal : GoalSnapshot) (activation : GoalActivation) : Plan :=
  ⟨.snapshot ⟨operation, goal, projection.roundsStarted, projection.createdAt,
    nextMutationTime projection env.now⟩, activation⟩

/-- The identity of a goal created with a drawn UUID. -/
def drawnId (uuid : String) : String := "goal-" ++ uuid

/-- A create; the identity is drawn at random. -/
def planCreate (w : GoalWorld) (env : Surroundings) (uuid : String) (request : CreateGoalRequest) :
    Except Failure Plan := do
  let spec ← resolveCreateGoal request w.resolved.defaultMaxGoalRounds
  let state ← w.prepareMutation env
  match state.filter fun projection => projection.goal.phase ≠ .complete with
  | some projection =>
    let id := projection.goal.id
    let phase := projection.goal.phase.name
    goalError s!"goal \"{id}\" already exists with phase \"{phase}\"" .GOAL_ALREADY_EXISTS
  | none =>
    let goal : GoalSnapshot :=
      ⟨⟨drawnId uuid, 1⟩, spec.objective, .active, none, spec.maxGoalRounds⟩
    pure ⟨.snapshot ⟨.create, goal, 0, env.now.val, env.now.val⟩, .armed⟩

variable [NumberFormat]

/-- The replacement of a field that the request may leave out. -/
def replacement {α : Type} (value : Value) (resolve : Value → Except Failure α) (current : α) :
    Except Failure α :=
  if value = .undefined then pure current else resolve value

def planEdit (w : GoalWorld) (env : Surroundings) (ref : RefArgument) (request : EditGoalRequest) :
    Except Failure Plan := do
  let state ← w.prepareMutation env
  let projection ← expectCurrent state ref
  let current := projection.goal
  if request.objective = .undefined ∧ request.maxGoalRounds = .undefined then
    goalError "goal edit requires objective and/or maxGoalRounds" .GOAL_INVALID_EDIT
  else do
    let objective ← replacement request.objective resolveObjective current.objective
    let maxGoalRounds ←
      replacement request.maxGoalRounds resolveMaxGoalRounds current.maxGoalRounds
    pure (planCurrent projection env .edit { current with
      revision := current.revision + 1, objective := objective, maxGoalRounds := maxGoalRounds }
      w.activation)

/-- Shared validated phase transition. -/
def planTransition (w : GoalWorld) (env : Surroundings) (ref : RefArgument)
    (operation : SnapshotOperation) (allowed : List GoalPhase) (phase : GoalPhase)
    (activation : GoalActivation) : Except Failure Plan := do
  let state ← w.prepareMutation env
  let projection ← expectCurrent state ref
  if projection.goal.phase ∉ allowed then transitionError projection.goal operation allowed
  else pure (planCurrent projection env operation (withPhase projection.goal phase) activation)

def planPause (w : GoalWorld) (env : Surroundings) (ref : RefArgument) : Except Failure Plan :=
  w.planTransition env ref .pause [.active] .paused .disarmed

def planComplete (w : GoalWorld) (env : Surroundings) (ref : RefArgument) : Except Failure Plan :=
  w.planTransition env ref .complete [.active, .paused, .blocked] .complete .disarmed

def planResume (w : GoalWorld) (env : Surroundings) (ref : RefArgument) : Except Failure Plan := do
  let state ← w.prepareMutation env
  let projection ← expectCurrent state ref
  let current := projection.goal
  let id := current.id
  let cap := current.maxGoalRounds
  if current.phase ∉ [GoalPhase.active, .paused, .blocked] then
    transitionError current .resume [.active, .paused, .blocked]
  else if current.phase = .active ∧ w.activation = .armed then
    goalError s!"goal \"{id}\" is already active and armed" .GOAL_INVALID_TRANSITION
  else if current.maxGoalRounds ≤ projection.roundsStarted then
    goalError s!"goal \"{id}\" exhausted {cap} goal rounds; increase maxGoalRounds before resuming"
      .GOAL_INVALID_TRANSITION
  else pure (planCurrent projection env .resume (withPhase current .active) .armed)

def planBlock (w : GoalWorld) (env : Surroundings) (ref : RefArgument)
    (reason : Option (Value × Value)) : Except Failure Plan := do
  let state ← w.prepareMutation env
  let projection ← expectCurrent state ref
  if projection.goal.phase ≠ .active then transitionError projection.goal .block [.active]
  else do
    let blockedReason ← resolveBlockReason reason
    pure (planCurrent projection env .block
      { withPhase projection.goal .blocked with blockedReason := some blockedReason } .disarmed)

def planClear (w : GoalWorld) (env : Surroundings) (ref : RefArgument) : Except Failure Plan := do
  let state ← w.prepareMutation env
  let projection ← expectCurrent state ref
  pure ⟨.clear ⟨projection.goal.id, projection.goal.revision + 1⟩
    (nextMutationTime projection env.now), .disarmed⟩

end GoalWorld

/-! ## Calls -/

/-- A mutation with its arguments. -/
inductive Mutation where
  | create (uuid : String) (request : CreateGoalRequest)
  | edit (ref : RefArgument) (request : EditGoalRequest)
  | pause (ref : RefArgument)
  | resume (ref : RefArgument)
  | complete (ref : RefArgument)
  | block (ref : RefArgument) (reason : Option (Value × Value))
  | clear (ref : RefArgument)

/-- What happens to a session: a mutation, a disarm or a new agent over it, or an event that
another component logs. -/
inductive Operation where
  | mutate (env : Surroundings) (mutation : Mutation)
  | disarm
  | round (source : GoalMessageSource)
  | message
  | other

/-- The view of the current goal. -/
structure GoalView extends GoalProjection where
  activation : GoalActivation
  deriving DecidableEq

/-- What a mutation returns: the view of the new snapshot, or the tombstone of a clear. -/
inductive Committed where
  | view (view : GoalView)
  | tombstone (ref : GoalRef)
  deriving DecidableEq

/-- The result of a planned mutation. -/
def GoalWorld.Plan.result (plan : GoalWorld.Plan) : Committed :=
  match plan.change with
  | .snapshot change =>
    .view ⟨⟨change.goal, change.roundsStarted, change.createdAt, change.updatedAt⟩, plan.activation⟩
  | .clear cleared _ => .tombstone cleared

namespace GoalWorld

variable [NumberFormat]

/-- Everything a mutation does before it commits. -/
def plan (w : GoalWorld) (env : Surroundings) : Mutation → Except Failure Plan
  | .create uuid request => w.planCreate env uuid request
  | .edit ref request => w.planEdit env ref request
  | .pause ref => w.planPause env ref
  | .resume ref => w.planResume env ref
  | .complete ref => w.planComplete env ref
  | .block ref reason => w.planBlock env ref reason
  | .clear ref => w.planClear env ref

omit [NumberFormat] in
/-- Commit one mutation: the append, the activation it carries, and the read of the new view. -/
def commit (w : GoalWorld) (env : Surroundings) (plan : Plan) :
    GoalWorld × Except Failure Committed :=
  match w.append env.refusal (.goalChange plan.change.toJson) with
  | .error e => (w, .error e)
  | .ok w' =>
    let committed := { w' with activation := plan.activation }
    (committed, committed.state.map fun _ => plan.result)

/-- Perform a mutation. -/
def mutate (w : GoalWorld) (env : Surroundings) (mutation : Mutation) :
    GoalWorld × Except Failure Committed :=
  match w.plan env mutation with
  | .error e => (w, .error e)
  | .ok plan => w.commit env plan

omit [NumberFormat] in
/-- An event another component logs. -/
def observe (w : GoalWorld) (body : EventBody) : GoalWorld × Except Failure Unit :=
  match w.append none body with
  | .error e => (w, .error e)
  | .ok w' => (w', .ok ())

/-- Perform one operation. -/
def exec (w : GoalWorld) : Operation → GoalWorld × Except Failure Unit
  | .mutate env mutation => ((w.mutate env mutation).1, (w.mutate env mutation).2.map fun _ => ())
  | .disarm => ({ w with activation := .disarmed }, .ok ())
  | .round source => w.observe (.userMessage (some source))
  | .message => w.observe (.userMessage none)
  | .other => w.observe .other

/-- The transition of a run. -/
def step (w : GoalWorld) (operation : Operation) : Option GoalWorld := some (w.exec operation).1

end GoalWorld

end Goal

end TianmaCoder
