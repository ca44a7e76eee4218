import TianmaCoder.Schedule.Domain
import TianmaCoder.Session.Event

/-!
# Three readers of the reminder stream

One transition authority works on a map of active reminders and a set of used ids. The fold of
a log runs it over all own changes at once; the session projection opens it anew for every
event, and writes its arrays back into a state whose schema reads them through the decoder.

## Main definitions

* `applyScheduleChange`, `applyScheduleChanges` — the transition authority.
* `foldScheduleEvents` — the fold of a log behind its inherited prefix.
* `ScheduleProjectionState`, `applyProjection`, `parseState` — the projection and its schema.
-/

namespace TianmaCoder

namespace Schedule

open Checked

/-- Pure replay result, retaining active create order and every used id. -/
structure FoldedSchedules where
  active : List ScheduleRecord
  seenIds : List String
  deriving DecidableEq

/-- The map and the set that span one batch of changes. -/
structure Batch where
  active : OrderedMap String ScheduleRecord
  seen : List String
  deriving DecidableEq

/-- `seen.add(id)` -/
def addSeen (seen : List String) (id : String) : List String :=
  if id ∈ seen then seen else seen ++ [id]

namespace Batch

/-- `new Map(..)` and `new Set(..)` over a fold value. -/
def ofFolded (folded : FoldedSchedules) : Batch where
  active := folded.active.foldl (fun active record => OrderedMap.set record.id record active) []
  seen := folded.seenIds.foldl addSeen []

/-- The arrays materialized at the end. -/
def folded (batch : Batch) : FoldedSchedules where
  active := batch.active.map Prod.snd
  seenIds := batch.seen

end Batch

/-- One decoded mutation. -/
def applyScheduleChange (batch : Batch) : ScheduleChange → Except String Batch
  | .create schedule =>
    let id := Text.quoted schedule.id
    if schedule.id ∈ batch.seen then throw s!"schedule id {id} was reused"
    else pure ⟨OrderedMap.set schedule.id schedule batch.active, addSeen batch.seen schedule.id⟩
  | .delete id =>
    let name := Text.quoted id
    if (batch.active.lookup id).isNone then throw s!"schedule delete targets inactive id {name}"
    else pure { batch with active := OrderedMap.delete id batch.active }
  | .dispatch id acceptedAt =>
    let name := Text.quoted id
    match batch.active.lookup id with
    | none => throw s!"schedule dispatch targets inactive id {name}"
    | some record => do
      match ← dispatchedRecord record acceptedAt with
      | none => pure { batch with active := OrderedMap.delete id batch.active }
      | some next => pure { batch with active := OrderedMap.set id next batch.active }

/-- Apply already-decoded changes to one complete fold value. -/
def applyScheduleChanges (folded : FoldedSchedules) (changes : List ScheduleChange) :
    Except String FoldedSchedules := do
  let batch ← changes.foldlM applyScheduleChange (Batch.ofFolded folded)
  pure batch.folded

/-- Decode the change of an event when the loop reaches it, and apply it. -/
def applyScheduleEvent (batch : Batch) (event : SessionEvent) : Except String Batch :=
  if event.type = .scheduleChange then do
    let change ← decodeScheduleChange event.data
    applyScheduleChange batch change
  else pure batch

/-- Fold the package-owned stream after the durable fork seed boundary. -/
def foldScheduleEvents (events : List SessionEvent) (inheritedEventCount : ℕ) :
    Except String FoldedSchedules :=
  if ¬Json.isSafeInteger inheritedEventCount ∨ events.length < inheritedEventCount then
    throw "schedule inheritedEventCount must be within the supplied event log"
  else do
    let batch ← (events.drop inheritedEventCount).foldlM applyScheduleEvent
      (Batch.ofFolded ⟨[], []⟩)
    pure batch.folded

/-! ## The projection -/

/-- Persisted projection state: the immutable inherited cut plus the complete fold. -/
structure ScheduleProjectionState extends FoldedSchedules where
  inheritedEventCount : ℕ
  deriving DecidableEq

namespace ScheduleProjectionState

def init (inheritedEventCount : ℕ) : ScheduleProjectionState := ⟨⟨[], []⟩, inheritedEventCount⟩

/-- The projection step. -/
def apply (state : ScheduleProjectionState) (event : SessionEvent) :
    Except String ScheduleProjectionState :=
  if event.seq < state.inheritedEventCount ∨ event.type ≠ .scheduleChange then pure state
  else do
    let change ← decodeScheduleChange event.data
    let folded ← applyScheduleChanges state.toFoldedSchedules [change]
    pure ⟨folded, state.inheritedEventCount⟩

def toJson (state : ScheduleProjectionState) : Json :=
  .obj [("inheritedEventCount", .nat state.inheritedEventCount),
    ("active", .arr (state.active.map ScheduleRecord.toJson)),
    ("seenIds", .arr (state.seenIds.map Json.str))]

end ScheduleProjectionState

/-- The `scheduleId` schema: the id of a delete that holds the value. -/
def scheduleId (value : Json) : Except String String :=
  match decodeScheduleChange (.obj [("version", .int SCHEDULE_CHANGE_VERSION),
      ("operation", .str "delete"), ("id", value)]) with
  | .ok (.delete id) => pure id
  | _ => throw "invalid Schedule id"

/-- The `scheduleRecord` schema: the record of a create that holds the value. -/
def scheduleRecord (value : Json) : Except String ScheduleRecord :=
  match decodeScheduleChange (.obj [("version", .int SCHEDULE_CHANGE_VERSION),
      ("operation", .str "create"), ("schedule", value)]) with
  | .ok (.create schedule) => pure schedule
  | _ => throw "invalid Schedule record"

/-- The refinement of the state schema. -/
def refineState (state : ScheduleProjectionState) : Except String ScheduleProjectionState :=
  if ¬state.seenIds.Nodup then throw "seen Schedule ids must be unique"
  else if ¬∀ record ∈ state.active, record.id ∈ state.seenIds then
    throw "every active Schedule id must have been seen"
  else if ¬(state.active.map ScheduleRecord.id).Nodup then
    throw "active Schedule ids must be unique"
  else pure state

/-- The state schema: exactly its three members, each read by its schema. -/
def parseState (value : Json) : Except String ScheduleProjectionState :=
  if ¬hasExactKeys value ["inheritedEventCount", "active", "seenIds"] then
    throw "invalid Schedule projection state"
  else
    match Json.count? (value.get? "inheritedEventCount"), Json.arr? (value.get? "active"),
        Json.arr? (value.get? "seenIds") with
    | some inheritedEventCount, some active, some seenIds => do
      let active ← active.mapM scheduleRecord
      let seenIds ← seenIds.mapM scheduleId
      refineState ⟨⟨active, seenIds⟩, inheritedEventCount⟩
    | _, _, _ => throw "invalid Schedule projection state"

end Schedule

end TianmaCoder
