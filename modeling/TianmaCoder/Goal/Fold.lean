import TianmaCoder.Goal.Domain

/-!
# The strict fold of durable goal facts

The fold validates every change against the goal it follows: a create brings a fresh id at
revision one, every other change advances the current goal by one revision and keeps what only
an edit may replace, and an admitted round is the next one of the active goal. The projection
of the session is the same fold through a state that is safe to checkpoint; it retains the first
failure instead of throwing.

## Main definitions

* `applyGoalChange`, `applyGoalEvent` — the strict fold.
* `applyGoalProjection` — the projection step.
-/

namespace TianmaCoder

namespace Goal

open Checked

/-- Accumulator of the fold. -/
structure GoalFoldState where
  goal : Option GoalSnapshot
  roundsStarted : ℕ
  createdAt : Option ℤ
  updatedAt : Option ℤ
  lastRef : Option GoalRef
  seenGoalIds : List String
  deriving DecidableEq

/-- No current goal and no prior ref. -/
def emptyGoalFoldState : GoalFoldState := ⟨none, 0, none, none, none, []⟩

/-- Message attribution for admitted continuation rounds, as it stands in the log. -/
structure GoalMessageSource where
  goalId : Json
  revision : Json
  round : Json
  deriving DecidableEq

/-- What a logged event says to the goal domain. -/
inductive EventBody where
  | goalChange (data : Json)
  /-- A user message; `none` when it is not attributed to a goal. -/
  | userMessage (source : Option GoalMessageSource)
  | other
  deriving DecidableEq

structure GoalEvent where
  seq : ℕ
  body : EventBody
  deriving DecidableEq

/-- A round that a message source names. -/
structure GoalRound where
  goalId : String
  revision : ℕ
  round : ℕ
  deriving DecidableEq

/-- Narrow model attribution to a valid goal source. -/
def goalSource (source : GoalMessageSource) : Except String GoalRound :=
  match source.goalId, Json.safeInt? source.revision, Json.safeInt? source.round with
  | .str goalId, some revision, some round =>
    if goalId = "" ∨ revision < 1 ∨ round < 1 then throw "goal message source is invalid"
    else pure ⟨goalId, revision.toNat, round.toNat⟩
  | _, _, _ => throw "goal message source is invalid"

/-- Require two snapshots to retain fields that only `edit` may replace. -/
def requireSameDefinition (current next : GoalSnapshot) (operation : String) :
    Except String Unit :=
  if next.objective ≠ current.objective ∨ next.maxGoalRounds ≠ current.maxGoalRounds then
    throw s!"goal {operation} cannot change objective or maxGoalRounds"
  else pure ()

/-- Require one exact next revision of the current goal. -/
def requireNextRevision (current : GoalSnapshot) (next : GoalRef) (operation : String) :
    Except String Unit :=
  if next.id ≠ current.id ∨ next.revision ≠ current.revision + 1 then
    throw s!"goal {operation} must advance the current goal by one revision"
  else pure ()

/-- A phase transition that keeps the definition of the goal. -/
def requireTransition (current next : GoalSnapshot) (operation : SnapshotOperation)
    (allowed : Bool) (error : String) : Except String Unit := do
  requireSameDefinition current next operation.name
  if allowed then pure () else throw error

/-- The phase rule of each operation. -/
def validatePhase (state : GoalFoldState) (operation : SnapshotOperation)
    (current next : GoalSnapshot) : Except String Unit :=
  match operation with
  | .edit =>
    if next.phase ≠ current.phase ∨ next.blockedReason ≠ current.blockedReason then
      throw "goal edit cannot change phase or blocked reason"
    else pure ()
  | .pause => requireTransition current next .pause
      (current.phase = .active && next.phase = .paused) "goal pause has an invalid phase transition"
  | .resume => requireTransition current next .resume
      ((current.phase = .active || current.phase = .paused || current.phase = .blocked) &&
        next.phase = .active && !(next.maxGoalRounds ≤ state.roundsStarted : Bool))
      "goal resume has an invalid phase transition or exhausted round budget"
  | .complete => requireTransition current next .complete
      (current.phase ≠ .complete && next.phase = .complete)
      "goal complete has an invalid phase transition"
  | .block => requireTransition current next .block
      (current.phase = .active && next.phase = .blocked) "goal block has an invalid phase transition"
  | .create => throw "goal create cannot be validated as a current-goal transition"

/-- Validate one non-create snapshot operation against the preceding projection. -/
def validateSnapshotTransition (state : GoalFoldState) (change : GoalSnapshotChange)
    (current : GoalSnapshot) : Except String Unit := do
  requireNextRevision current change.goal.toGoalRef change.operation.name
  match state.updatedAt with
  | none => throw "current goal fold lacks updatedAt"
  | some updatedAt =>
    if some change.createdAt ≠ state.createdAt ∨ change.updatedAt < updatedAt ∨
        change.roundsStarted ≠ state.roundsStarted then
      let name := change.operation.name
      throw s!"goal {name} does not preserve the current counters and timestamps"
    else validatePhase state change.operation current change.goal

/-- The accumulator after a snapshot. -/
def setSnapshot (state : GoalFoldState) (change : GoalSnapshotChange) : GoalFoldState :=
  { state with
    goal := some change.goal
    roundsStarted := change.roundsStarted
    createdAt := some change.createdAt
    updatedAt := some change.updatedAt
    lastRef := some change.goal.toGoalRef }

/-- A create needs a fresh active revision-one goal with zero rounds. -/
def applyCreate (state : GoalFoldState) (change : GoalSnapshotChange) :
    Except String GoalFoldState :=
  if change.goal.revision ≠ 1 ∨ change.goal.phase ≠ .active ∨ change.roundsStarted ≠ 0 ∨
      (state.goal.any fun goal => goal.phase ≠ .complete) ∨
      change.goal.id ∈ state.seenGoalIds then
    throw "goal create requires a fresh active revision-one goal with zero rounds"
  else
    pure (setSnapshot { state with seenGoalIds := state.seenGoalIds ++ [change.goal.id] } change)

/-- Every other snapshot follows the current goal. -/
def applySnapshot (state : GoalFoldState) (change : GoalSnapshotChange) :
    Except String GoalFoldState :=
  match state.goal with
  | none =>
    let name := change.operation.name
    throw s!"goal {name} requires a current goal"
  | some current => do
    validateSnapshotTransition state change current
    pure (setSnapshot state change)

/-- A clear leaves the tombstone of the current goal. -/
def applyClear (state : GoalFoldState) (cleared : GoalRef) (clearedAt : ℤ) :
    Except String GoalFoldState :=
  match state.goal with
  | none => throw "goal clear requires a current goal"
  | some current => do
    requireNextRevision current cleared "clear"
    match state.updatedAt with
    | none => throw "current goal fold lacks updatedAt"
    | some updatedAt =>
      if clearedAt < updatedAt then
        throw "goal clear timestamp cannot precede the current goal update"
      else
        pure { state with
          goal := none, roundsStarted := 0, createdAt := none, updatedAt := none
          lastRef := some cleared }

/-- Validate and apply one decoded change. -/
def applyGoalChange (state : GoalFoldState) : GoalChange → Except String GoalFoldState
  | .clear cleared clearedAt => applyClear state cleared clearedAt
  | .snapshot change =>
    if change.operation = .create then applyCreate state change else applySnapshot state change

/-- The round is the next one of the active goal. -/
def isNextRound (state : GoalFoldState) (round : GoalRound) : Bool :=
  state.goal.any fun current =>
    current.phase = .active && round.goalId = current.id && round.revision = current.revision &&
      round.round = state.roundsStarted + 1 && round.round ≤ current.maxGoalRounds

/-- Admit one round. -/
def applyRound (state : GoalFoldState) (seq : ℕ) (round : GoalRound) :
    Except String GoalFoldState :=
  if isNextRound state round then pure { state with roundsStarted := round.round }
  else throw s!"goal round at session event {seq} is not the next admitted round of the active goal"

/-- Apply one session event to the strict durable goal fold. -/
def applyGoalEvent (state : GoalFoldState) (event : GoalEvent) : Except String GoalFoldState :=
  match event.body with
  | .goalChange data => do
    match ← decodeGoalChange data with
    | some change => applyGoalChange state change
    | none =>
      let seq := event.seq
      throw s!"goal change at session event {seq} has an invalid kind"
  | .userMessage (some source) => goalSource source >>= applyRound state event.seq
  | .userMessage none => pure state
  | .other => pure state

/-- The accumulator after a whole log. -/
def foldEvents (events : List GoalEvent) : Except String GoalFoldState :=
  events.foldlM applyGoalEvent emptyGoalFoldState

/-- Pure replay fold of durable goal facts. -/
structure FoldedGoal where
  goal : Option GoalSnapshot
  roundsStarted : ℕ
  createdAt : Option ℤ
  updatedAt : Option ℤ
  lastRef : Option GoalRef
  deriving DecidableEq

/-! ## The projection -/

/-- Current goal projection, with the values derived from the log. -/
structure GoalProjection where
  goal : GoalSnapshot
  roundsStarted : ℕ
  createdAt : ℤ
  updatedAt : ℤ
  deriving DecidableEq

/-- Strict checkpoint state. -/
structure GoalProjectionState where
  current : Option GoalProjection
  seenGoalIds : List String
  failure : Option String
  deriving DecidableEq

def GoalProjectionState.init : GoalProjectionState := ⟨none, [], none⟩

/-- Build strict fold state from one checkpoint-safe projection state. -/
def goalFoldState (state : GoalProjectionState) : GoalFoldState where
  goal := state.current.map (·.goal)
  roundsStarted := (state.current.map (·.roundsStarted)).getD 0
  createdAt := state.current.map (·.createdAt)
  updatedAt := state.current.map (·.updatedAt)
  lastRef := none
  seenGoalIds := state.seenGoalIds

/-- Convert strict fold state into checkpoint-safe projection state. -/
def goalProjectionState (state : GoalFoldState) : Except String GoalProjectionState :=
  match state.goal with
  | none => pure ⟨none, state.seenGoalIds, none⟩
  | some goal =>
    match state.createdAt, state.updatedAt with
    | some createdAt, some updatedAt =>
      pure ⟨some ⟨goal, state.roundsStarted, createdAt, updatedAt⟩, state.seenGoalIds, none⟩
    | _, _ => throw "current goal fold lacks timestamps"

/-- Whether the projection passes the event over. -/
def isUnrelated : EventBody → Bool
  | .goalChange _ => false
  | .userMessage source => source.isNone
  | .other => true

/-- Fold one event without throwing; the first invalid one is retained in `failure`. -/
def applyGoalProjection (state : GoalProjectionState) (event : GoalEvent) : GoalProjectionState :=
  if state.failure.isSome then state
  else if isUnrelated event.body then state
  else
    match applyGoalEvent (goalFoldState state) event >>= goalProjectionState with
    | .ok next => next
    | .error message =>
      let seq := event.seq
      { state with failure := some s!"goal replay failed at session event {seq}: {message}" }

/-- The projection of a whole log. -/
def projectGoal (events : List GoalEvent) : GoalProjectionState :=
  events.foldl applyGoalProjection .init

end Goal

end TianmaCoder
