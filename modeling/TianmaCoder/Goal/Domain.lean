import TianmaCoder.Lib.Checked
import TianmaCoder.Lib.Json
import TianmaCoder.Lib.Text
import TianmaCoder.Session.Invariant

/-!
# The durable vocabulary of a goal

Every mutation of a goal is one `goal/change` event: the whole snapshot after it, or the
tombstone of a clear. The decoder is strict: a change has exactly its keys, every counter is a
safe integer and every text is normalised.

## Main definitions

* `GoalSnapshot`, `GoalChange` — the payloads.
* `GoalChange.toJson` — a change as the service writes it.
* `decodeGoalChange` — the strict reader.
-/

namespace TianmaCoder

namespace Goal

open Checked

/-- A positive safe integer. -/
def IsPositive (n : ℕ) : Prop := 1 ≤ n ∧ n ≤ Json.maxSafeInteger

inductive GoalPhase where
  | active
  | paused
  | blocked
  | complete
  deriving DecidableEq

def GoalPhase.name : GoalPhase → String
  | .active => "active"
  | .paused => "paused"
  | .blocked => "blocked"
  | .complete => "complete"

/-- The members of `PHASES`. -/
def GoalPhase.ofName? : String → Option GoalPhase
  | "active" => some .active
  | "paused" => some .paused
  | "blocked" => some .blocked
  | "complete" => some .complete
  | _ => none

/-- The operations that write a whole snapshot. -/
inductive SnapshotOperation where
  | create
  | edit
  | pause
  | resume
  | complete
  | block
  deriving DecidableEq

def SnapshotOperation.name : SnapshotOperation → String
  | .create => "create"
  | .edit => "edit"
  | .pause => "pause"
  | .resume => "resume"
  | .complete => "complete"
  | .block => "block"

/-- The members of `SNAPSHOT_OPERATIONS`. -/
def SnapshotOperation.ofName? : String → Option SnapshotOperation
  | "create" => some .create
  | "edit" => some .edit
  | "pause" => some .pause
  | "resume" => some .resume
  | "complete" => some .complete
  | "block" => some .block
  | _ => none

structure GoalBlockReason where
  code : String
  message : String
  deriving DecidableEq

/-- One exact revision of a goal. -/
structure GoalRef where
  id : String
  revision : ℕ
  deriving DecidableEq

structure GoalSnapshot extends GoalRef where
  objective : String
  phase : GoalPhase
  blockedReason : Option GoalBlockReason
  maxGoalRounds : ℕ
  deriving DecidableEq

structure GoalSnapshotChange where
  operation : SnapshotOperation
  goal : GoalSnapshot
  roundsStarted : ℕ
  createdAt : ℤ
  updatedAt : ℤ
  deriving DecidableEq

inductive GoalChange where
  | snapshot (change : GoalSnapshotChange)
  | clear (cleared : GoalRef) (clearedAt : ℤ)
  deriving DecidableEq

/-- The revision identity carried by a snapshot or tombstone. -/
def goalChangeRef : GoalChange → GoalRef
  | .snapshot change => change.goal.toGoalRef
  | .clear cleared _ => cleared

/-! ## Writing -/

def GOAL_CHANGE_VERSION : ℕ := 1

def GoalBlockReason.toJson (reason : GoalBlockReason) : Json :=
  .obj [("code", .str reason.code), ("message", .str reason.message)]

def GoalRef.toJson (ref : GoalRef) : Json :=
  .obj [("id", .str ref.id), ("revision", .nat ref.revision)]

def GoalSnapshot.toJson (goal : GoalSnapshot) : Json :=
  .obj ([("id", .str goal.id), ("revision", .nat goal.revision), ("objective", .str goal.objective),
    ("phase", .str goal.phase.name), ("maxGoalRounds", .nat goal.maxGoalRounds)] ++
    goal.blockedReason.toList.map fun reason => ("blockedReason", reason.toJson))

/-- The data of the event that commits a change. -/
def GoalChange.toJson : GoalChange → Json
  | .snapshot change => .obj [("kind", .str "goal/change"), ("version", .nat GOAL_CHANGE_VERSION),
      ("operation", .str change.operation.name), ("goal", change.goal.toJson),
      ("roundsStarted", .nat change.roundsStarted), ("createdAt", .int change.createdAt),
      ("updatedAt", .int change.updatedAt)]
  | .clear cleared clearedAt => .obj [("kind", .str "goal/change"),
      ("version", .nat GOAL_CHANGE_VERSION), ("operation", .str "clear"),
      ("cleared", cleared.toJson), ("clearedAt", .int clearedAt)]

/-! ## Reading -/

/-- `Object.keys(value).sort().join(',')`, for a record. -/
def keysOf : Json → String
  | .obj members => Text.joinedKeys (members.map Prod.fst)
  | _ => ""

/-- Require one positive safe integer. -/
def positiveInteger (value : Option Json) (field : String) : Except String ℕ :=
  match Json.safeInt? value with
  | some n =>
    if n < 1 then throw s!"goal change {field} must be a positive safe integer" else pure n.toNat
  | none => throw s!"goal change {field} must be a positive safe integer"

/-- Require one non-negative safe integer. -/
def nonNegativeInteger (value : Option Json) (field : String) : Except String ℕ :=
  match Json.safeInt? value with
  | some n =>
    if n < 0 then throw s!"goal change {field} must be a non-negative safe integer"
    else pure n.toNat
  | none => throw s!"goal change {field} must be a non-negative safe integer"

/-- A string that passes a check. -/
def checkedStr (value : Option Json) (check : String → Bool) (error : String) :
    Except String String :=
  match value with
  | some (.str s) => if check s then pure s else throw error
  | _ => throw error

/-- Decode one canonical blocker explanation. -/
def decodeBlockReason (value : Option Json) : Except String GoalBlockReason := do
  let record := value.getD .null
  if ¬(record.isObject ∧ keysOf record = "code,message") then
    throw "goal change goal.blockedReason must have exactly code and message fields"
  else do
    let code ← checkedStr (record.get? "code") Text.isLowerKebab
      "goal change goal.blockedReason.code must be lower-kebab-case"
    let message ← checkedStr (record.get? "message") Text.isNormalized
      "goal change goal.blockedReason.message must be non-empty and normalized"
    pure ⟨code, message⟩

/-- The blocker explanation that only a blocked snapshot has. -/
def decodeBlockedReason (phase : GoalPhase) (value : Json) :
    Except String (Option GoalBlockReason) :=
  if phase = .blocked then some <$> decodeBlockReason (value.get? "blockedReason") else pure none

/-- Decode and validate one snapshot. -/
def decodeSnapshot (value : Option Json) : Except String GoalSnapshot := do
  let record := value.getD .null
  if ¬record.isObject then throw "goal change goal must be a record"
  else do
    let id ← checkedStr (record.get? "id") (· ≠ "") "goal change goal.id must be a non-empty string"
    let objective ← checkedStr (record.get? "objective") Text.isNormalized
      "goal change goal.objective must be non-empty and normalized"
    let name ← checkedStr (record.get? "phase") (fun s => (GoalPhase.ofName? s).isSome)
      "goal change goal.phase is invalid"
    let phase := (GoalPhase.ofName? name).getD .active
    let expectedKeys := if phase = .blocked then
      "blockedReason,id,maxGoalRounds,objective,phase,revision"
      else "id,maxGoalRounds,objective,phase,revision"
    if keysOf record ≠ expectedKeys then
      throw s!"goal change goal for phase {name} must have exactly {expectedKeys} fields"
    else do
      let revision ← positiveInteger (record.get? "revision") "goal.revision"
      let maxGoalRounds ← positiveInteger (record.get? "maxGoalRounds") "goal.maxGoalRounds"
      let blockedReason ← decodeBlockedReason phase record
      pure ⟨⟨id, revision⟩, objective, phase, blockedReason, maxGoalRounds⟩

/-- Decode and validate one ref. -/
def decodeRef (value : Option Json) : Except String GoalRef := do
  let record := value.getD .null
  if ¬(record.isObject ∧ keysOf record = "id,revision") then
    throw "goal clear tombstone must have exactly id and revision fields"
  else do
    let id ← checkedStr (record.get? "id") (· ≠ "")
      "goal clear tombstone id must be a non-empty string"
    let revision ← positiveInteger (record.get? "revision") "cleared.revision"
    pure ⟨id, revision⟩

/-- Decode the tombstone of a clear. -/
def decodeClear (value : Json) : Except String GoalChange :=
  if keysOf value ≠ "cleared,clearedAt,kind,operation,version" then
    throw "goal clear change must have exactly cleared,clearedAt,kind,operation,version fields"
  else do
    let cleared ← decodeRef (value.get? "cleared")
    let clearedAt ← nonNegativeInteger (value.get? "clearedAt") "clearedAt"
    pure (.clear cleared clearedAt)

/-- Decode a full-snapshot change. -/
def decodeSnapshotChange (value : Json) : Except String GoalChange := do
  let name ← checkedStr (value.get? "operation") (fun s => (SnapshotOperation.ofName? s).isSome)
    "goal change operation is invalid"
  let operation := (SnapshotOperation.ofName? name).getD .create
  if keysOf value ≠ "createdAt,goal,kind,operation,roundsStarted,updatedAt,version" then
    throw ("goal snapshot change must have exactly " ++
      "createdAt,goal,kind,operation,roundsStarted,updatedAt,version fields")
  else do
    let createdAt ← nonNegativeInteger (value.get? "createdAt") "createdAt"
    let updatedAt ← nonNegativeInteger (value.get? "updatedAt") "updatedAt"
    if updatedAt < createdAt then throw "goal change updatedAt cannot precede createdAt"
    else do
      let goal ← decodeSnapshot (value.get? "goal")
      let roundsStarted ← nonNegativeInteger (value.get? "roundsStarted") "roundsStarted"
      pure (.snapshot ⟨operation, goal, roundsStarted, createdAt, updatedAt⟩)

/-- Decode a value that declares itself as a goal change. -/
def decodeGoalChange (value : Json) : Except String (Option GoalChange) :=
  if ¬value.isObject ∨ value.get? "kind" ≠ some (.str "goal/change") then pure none
  else if value.get? "version" ≠ some (.nat GOAL_CHANGE_VERSION) then
    let version := shown (value.get? "version")
    throw s!"unsupported goal change version {version}"
  else if value.get? "operation" = some (.str "clear") then some <$> decodeClear value
  else some <$> decodeSnapshotChange value

end Goal

end TianmaCoder
