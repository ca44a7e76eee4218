import TianmaCoder.Lib.Checked
import TianmaCoder.Session.Event

/-!
# Projection units and the cold restore

A unit is a fold over the events of a session with an optional client view. A checkpoint row
stores the state of a unit together with the seq of the last event it covers, and a restore
resumes every unit from its row over the stored events past the restore floor.

States, headers and views are JSON values. The functions of a unit are pure, so they are
functions here; a schema accepts a value by returning it.

## Main definitions

* `ProjectionDefinition`, `ProjectionUnit` — a unit, and one that keeps its contract.
* `restoreFloor`, `restore` — the cold read.
* `ProjectionUnit.fold`, `fullRead` — folding the whole log.
-/

namespace TianmaCoder

namespace Projection

open Checked

/-- The inclusive cursor immediately before a log offset, `-1` before the first event. -/
def cursorBefore (offset : ℕ) : ℤ := (offset : ℤ) - 1

/-- The client view of a unit. -/
structure Wire where
  viewSchema : Json → Except String Json
  view : Json → Json

/-- One domain's fold over the session events. -/
structure ProjectionDefinition where
  key : String
  stateSchema : Json → Except String Json
  /-- From the session header and the inherited event count. -/
  init : Json → ℕ → Json
  apply : Json → SessionEvent → Json
  wire : Option Wire
  stateVersion : ℕ

/-- The immutable session metadata a unit is initialised with. -/
structure SessionMetadata where
  header : Json
  inheritedEventCount : ℕ

/-- Schema-validated view of a state, for a unit that has one. -/
def ProjectionDefinition.served (d : ProjectionDefinition) (state : Json) :
    Except String (Option Json) :=
  match d.wire with
  | none => pure none
  | some wire => do
    let value ← wire.viewSchema (wire.view state)
    pure (some value)

/-- Fold a unit from its initial state. -/
def ProjectionDefinition.fold (d : ProjectionDefinition) (session : SessionMetadata)
    (log : List SessionEvent) : Json :=
  log.foldl d.apply (d.init session.header session.inheritedEventCount)

/-- A unit whose schemas accept, unchanged, what its own functions produce. -/
structure ProjectionUnit extends ProjectionDefinition where
  stateSchema_fold : ∀ (session : SessionMetadata) (log : List SessionEvent),
    stateSchema (toProjectionDefinition.fold session log) = .ok (toProjectionDefinition.fold session log)
  served_fold : ∀ (session : SessionMetadata) (log : List SessionEvent),
    ∃ value, toProjectionDefinition.served (toProjectionDefinition.fold session log) = .ok value

/-- One unit's checkpoint. -/
structure ProjectionCheckpointRow where
  ver : ℕ
  seq : ℤ
  val : Json
  deriving DecidableEq

abbrev ProjectionCheckpoint := OrderedMap String ProjectionCheckpointRow

structure ProjectionSnapshot where
  asOfSeq : ℤ
  values : OrderedMap String Json
  deriving DecidableEq

/-- The row of a unit that the live version may resume from. -/
def matchingRow (d : ProjectionDefinition) (checkpoint : ProjectionCheckpoint) :
    Option ProjectionCheckpointRow :=
  (checkpoint.lookup d.key).filter fun row => row.ver = d.stateVersion

/-- Fold events from `expected` on, in contiguous seq order. -/
def applyFrom (d : ProjectionDefinition) : ℕ → List SessionEvent → Json → Except String Json
  | _, [], state => pure state
  | expected, event :: events, state =>
    if event.seq = expected then applyFrom d (expected + 1) events (d.apply state event)
    else throw s!"session projection {d.key} cannot restore across missing seq {expected}"

/-- The seq of the last supplied event, or the cursor before the base. -/
def endSeq (events : List SessionEvent) (baseSeq : ℕ) : ℤ :=
  match events.getLast? with
  | some event => event.seq
  | none => cursorBefore baseSeq

/-- A matching row that neither predates the base nor claims events past the supplied end. -/
def usableRow (checkpoint : ProjectionCheckpoint) (events : List SessionEvent) (baseSeq : ℕ)
    (d : ProjectionDefinition) : Option ProjectionCheckpointRow :=
  (matchingRow d checkpoint).filter fun row =>
    cursorBefore baseSeq ≤ row.seq ∧ row.seq ≤ endSeq events baseSeq

/-- Restore one unit: its key, its view and its refreshed row. -/
def restoreUnit (checkpoint : ProjectionCheckpoint) (events : List SessionEvent) (baseSeq : ℕ)
    (session : SessionMetadata) (d : ProjectionDefinition) :
    Except String (String × Option Json × ProjectionCheckpointRow) := do
  let usable := usableRow checkpoint events baseSeq d
  if usable = none ∧ 0 < baseSeq then
    throw s!"session projection {d.key} cannot restore from seq {baseSeq}"
  let seed ← match usable with
    | some row => d.stateSchema row.val
    | none => pure (d.init session.header session.inheritedEventCount)
  let start : ℤ := match usable with
    | some row => row.seq
    | none => cursorBefore baseSeq
  let startIndex := (start - baseSeq + 1).toNat
  let state ← applyFrom d (baseSeq + startIndex) (events.drop startIndex) seed
  let value ← d.served state
  pure (d.key, value, ⟨d.stateVersion, endSeq events baseSeq, state⟩)

/-- Cold read: fold every unit over a stored suffix, from its row when it is usable. -/
def restore (registrations : List ProjectionDefinition) (checkpoint : ProjectionCheckpoint)
    (events : List SessionEvent) (baseSeq : ℕ) (session : SessionMetadata) :
    Except String (ProjectionSnapshot × ProjectionCheckpoint) := do
  let restored ← registrations.mapM (restoreUnit checkpoint events baseSeq session)
  pure (⟨endSeq events baseSeq, restored.filterMap fun (key, value, _) => value.map (key, ·)⟩,
    restored.map fun (key, _, row) => (key, row))

/-! ## Folding the whole log -/

/-- The served value of the fold over a log. -/
def ProjectionDefinition.valueOf (d : ProjectionDefinition) (session : SessionMetadata)
    (log : List SessionEvent) : Option Json :=
  match d.served (d.fold session log) with
  | .ok value => value
  | .error _ => none

/-- The row of the fold over a log. -/
def ProjectionDefinition.rowOf (d : ProjectionDefinition) (session : SessionMetadata)
    (log : List SessionEvent) : ProjectionCheckpointRow :=
  ⟨d.stateVersion, cursorBefore log.length, d.fold session log⟩

/-- Every event stands at the position its seq names. -/
def Contiguous (log : List SessionEvent) : Prop := log.map (·.seq) = List.range log.length

end Projection

end TianmaCoder
