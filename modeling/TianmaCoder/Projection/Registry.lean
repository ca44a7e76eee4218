import Mathlib.Logic.Function.Basic
import TianmaCoder.Lib.Transition
import TianmaCoder.Projection.Definition

/-!
# The live projection registry

The registry keeps one cell per unit and session and drives every unit over every committed
event. A walk is the drive of one event over the units, in registration order. Other calls may
come between two steps of a walk: the observers of the event that run before the registry, and
what the listeners do when they are notified. A deleted key keeps its slot, so that a walk keeps
its place.

`Object.is` compares references. Values here are contents, so an identity decides whether two
references to equal contents are the same one; references to different contents never are.

## Main definitions

* `UnitCell`, `Registration`, `Registry` — the state.
* `materializeCells`, `snapshot`, `checkpoint`, `hydrate`, `drive` — the operations.
* `Call`, `Registry.step` — one call, and the next step of a walk.
-/

namespace TianmaCoder

namespace Projection

open Checked

/-- Whether two references are the same one, when their contents agree. -/
def objectIs {α : Type} [DecidableEq α] (same : Bool) (a b : α) : Bool := same && decide (a = b)

/-- Which applies return their own state reference: by unit key and event seq. -/
abbrev Identity := String → ℕ → Bool

/-- Per-session per-unit watermark, and the two latest raw views. -/
structure UnitCell where
  state : Json
  observedSeq : ℤ
  views : Option Json × Option Json
  deriving DecidableEq

/-- A unit and its cells. Without a registrant left, the key is deleted. -/
structure Registration (σ : Type) where
  unit : ProjectionUnit
  cells : σ → Option UnitCell
  refs : ℕ

/-- The drive of one event, up to the unit at `cursor`. -/
structure Walk (σ : Type) where
  session : σ
  event : SessionEvent
  cursor : ℕ

/-- A listener that holds a snapshot and overwrites a key with each notification. `since` is
the number of slots when the snapshot was taken. -/
structure Consumer (σ : Type) where
  session : σ
  since : ℕ
  values : String → Option Json

structure Registry (σ : Type) where
  logs : σ → List SessionEvent
  registrations : List (Registration σ)
  /-- The drives in progress, innermost first. -/
  walks : List (Walk σ)
  /-- Listeners that keep no value. -/
  observers : ℕ
  consumers : List (Consumer σ)

/-! ## Cells -/

def buildCell (d : ProjectionDefinition) (session : SessionMetadata) (events : List SessionEvent) :
    UnitCell where
  state := d.fold session events
  observedSeq := match events.getLast? with
    | some event => event.seq
    | none => -1
  views := (none, none)

/-- Pass one event through a cell that nobody is notified of. -/
def passEvent (d : ProjectionDefinition) (same : Bool) (cell : UnitCell) (event : SessionEvent) :
    UnitCell :=
  let next := d.apply cell.state event
  ⟨next, event.seq, if objectIs same next cell.state then cell.views else (cell.views.2, none)⟩

/-- Advance a cell through a contiguous prefix of the log. -/
def advanceCell (d : ProjectionDefinition) (same : Identity) (log : List SessionEvent)
    (throughSeq : ℤ) (cell : UnitCell) : Except String UnitCell :=
  (List.range' (cell.observedSeq + 1).toNat (throughSeq - cell.observedSeq).toNat).foldlM
    (fun cell seq => match log[seq]? with
      | some event =>
        if event.seq = seq then pure (passEvent d (same d.key seq) cell event)
        else throw s!"session projection {d.key} cannot advance across missing seq {seq}"
      | none => throw s!"session projection {d.key} cannot advance across missing seq {seq}") cell

/-- Read, or lazily build, a cell at the end of the log. -/
def cellFor (d : ProjectionDefinition) (same : Identity) (session : SessionMetadata)
    (log : List SessionEvent) : Option UnitCell → Except String UnitCell
  | none => pure (buildCell d session log)
  | some cell => advanceCell d same log (cursorBefore log.length) cell

section

variable {σ : Type} [DecidableEq σ] (metadata : σ → SessionMetadata)

namespace Registration

def isLive (r : Registration σ) : Bool := 0 < r.refs

def setCell (r : Registration σ) (s : σ) (cell : UnitCell) : Registration σ :=
  ⟨r.unit, Function.update r.cells s (some cell), r.refs⟩

/-- Materialize the cell of a registered unit. -/
def materialize (same : Identity) (s : σ) (log : List SessionEvent) (r : Registration σ) :
    Except String (Registration σ) :=
  if r.isLive then do
    let cell ← cellFor r.unit.toProjectionDefinition same (metadata s) log (r.cells s)
    pure (r.setCell s cell)
  else pure r

/-- The cell already covers the event. -/
def hasSeen (r : Registration σ) (s : σ) (event : SessionEvent) : Bool :=
  match r.cells s with
  | some cell => (event.seq : ℤ) ≤ cell.observedSeq
  | none => false

/-- The served value of a registered unit with a view. -/
def servedEntry (s : σ) (r : Registration σ) : Except String (Option (String × Json)) :=
  match r.isLive, r.cells s with
  | true, some cell => do
    let value ← r.unit.served cell.state
    pure (value.map (r.unit.key, ·))
  | _, _ => pure none

end Registration

namespace Registry

/-- The registered units. -/
def units (st : Registry σ) : List ProjectionUnit :=
  (st.registrations.filter (·.isLive)).map (·.unit)

def listenerCount (st : Registry σ) : ℕ := st.observers + st.consumers.length

/-- The slot of a registered key. -/
def find? (st : Registry σ) (key : String) : Option ℕ :=
  st.registrations.findIdx? fun r => r.isLive && r.unit.key == key

/-! ## Reads -/

def materializeCells (st : Registry σ) (same : Identity) (s : σ) : Except String (Registry σ) := do
  let registrations ← st.registrations.mapM (Registration.materialize metadata same s (st.logs s))
  pure ⟨st.logs, registrations, st.walks, st.observers, st.consumers⟩

/-- One consistent cut over every registered unit with a view. -/
def snapshot (st : Registry σ) (same : Identity) (s : σ) :
    Except String (ProjectionSnapshot × Registry σ) := do
  let st ← st.materializeCells metadata same s
  let entries ← st.registrations.mapM (Registration.servedEntry s)
  pure (⟨cursorBefore (st.logs s).length, entries.filterMap id⟩, st)

/-- The state of one unit, with every unit materialized. -/
def stateOf (st : Registry σ) (same : Identity) (s : σ) (key : String) :
    Except String (Option Json × Registry σ) :=
  match st.find? key with
  | none => pure (none, st)
  | some slot => do
    let st ← st.materializeCells metadata same s
    let state := (st.registrations[slot]?.bind (·.cells s)).map (·.state)
    pure (state, st)

/-- One row per registered unit. -/
def checkpoint (st : Registry σ) (same : Identity) (s : σ) :
    Except String (ProjectionCheckpoint × Registry σ) := do
  let st ← st.materializeCells metadata same s
  let rows := (st.registrations.filter (·.isLive)).filterMap fun r =>
    (r.cells s).map fun cell => (r.unit.key, ⟨r.unit.stateVersion, cell.observedSeq, cell.state⟩)
  pure (rows, st)

/-! ## Hydration -/

/-- Install a restored row, unless the cell is already past it. -/
def installRow (s : σ) (rows : ProjectionCheckpoint) (r : Registration σ) : Registration σ :=
  if r.isLive then
    match rows.lookup r.unit.key, r.cells s with
    | none, _ => r
    | some row, some cell =>
      if row.seq < cell.observedSeq then r else r.setCell s ⟨row.val, row.seq, (none, none)⟩
    | some row, none => r.setCell s ⟨row.val, row.seq, (none, none)⟩
  else r

/-- Restore a cut of the log and install its states; nothing to install when every cell is
already at the cut. -/
def hydrate (st : Registry σ) (s : σ) (rows : ProjectionCheckpoint) (events : List SessionEvent)
    (baseSeq : ℕ) : Except String (ProjectionSnapshot × Registry σ) :=
  let complete := (st.registrations.filter (·.isLive)).all fun r =>
    (r.cells s).map (·.observedSeq) == some (endSeq events baseSeq)
  if complete then do
    let entries ← st.registrations.mapM (Registration.servedEntry s)
    pure (⟨endSeq events baseSeq, entries.filterMap id⟩, st)
  else do
    let restored ← restore (st.units.map (·.toProjectionDefinition)) rows events baseSeq (metadata s)
    pure (restored.1, ⟨st.logs, st.registrations.map (installRow s restored.2), st.walks,
      st.observers, st.consumers⟩)

/-! ## The drive -/

/-- Overwrite the key at every consumer of the session. -/
def notify (s : σ) (key : String) (value : Json) (consumers : List (Consumer σ)) :
    List (Consumer σ) :=
  consumers.map fun c =>
    if c.session = s then ⟨c.session, c.since, Function.update c.values key (some value)⟩ else c

/-- The cell of a unit right before an event. -/
def cellBefore (d : ProjectionDefinition) (same : Identity) (session : SessionMetadata)
    (log : List SessionEvent) (event : SessionEvent) :
    Option UnitCell → Except String UnitCell
  | none => pure (buildCell d session (log.take event.seq))
  | some cell => advanceCell d same log (cursorBefore event.seq) cell

/-- What one unit makes of a driven event: its cell, and the value to publish. -/
def driveCell (d : ProjectionDefinition) (same sameView listening : Bool) (cell : UnitCell)
    (event : SessionEvent) : Except String (UnitCell × Option Json) :=
  let next := d.apply cell.state event
  match objectIs same next cell.state, d.wire with
  | false, some wire =>
    if listening then
      let view := wire.view next
      let after : UnitCell := ⟨next, event.seq, (cell.views.2, some view)⟩
      -- `Object.is` of an absent view and a present one is false
      if objectIs sameView cell.views.2 (some view) then pure (after, none)
      else do
        let value ← wire.viewSchema view
        pure (after, some value)
    else pure (⟨next, event.seq, (cell.views.2, none)⟩, none)
  | _, _ => pure (⟨next, event.seq, cell.views⟩, none)

/-- The drive of one unit. -/
def driveUnit (st : Registry σ) (same : Identity) (sameView : Bool) (s : σ) (event : SessionEvent)
    (slot : ℕ) (r : Registration σ) : Except String (Registry σ) := do
  let cell ← cellBefore r.unit.toProjectionDefinition same (metadata s) (st.logs s) event (r.cells s)
  let (after, value) ← driveCell r.unit.toProjectionDefinition (same r.unit.key event.seq) sameView
    (0 < st.listenerCount) cell event
  let consumers := match value with
    | some value => notify s r.unit.key value st.consumers
    | none => st.consumers
  pure ⟨st.logs, st.registrations.set slot (r.setCell s after), st.walks, st.observers, consumers⟩

/-- The next step of the innermost walk. -/
def drive (st : Registry σ) (same : Identity) (sameView : Bool) : Except String (Registry σ) :=
  match st.walks with
  | [] => pure st
  | walk :: walks =>
    let next : Registry σ := ⟨st.logs, st.registrations,
      ⟨walk.session, walk.event, walk.cursor + 1⟩ :: walks, st.observers, st.consumers⟩
    match st.registrations[walk.cursor]? with
    | none => pure ⟨st.logs, st.registrations, walks, st.observers, st.consumers⟩
    | some r =>
      if r.isLive && !r.hasSeen walk.session walk.event then
        next.driveUnit metadata same sameView walk.session walk.event walk.cursor r
      else pure next

/-! ## Calls -/

/-- The empty cells of a new session. -/
def created (st : Registry σ) (s : σ) : Registry σ :=
  if st.logs s = [] then
    ⟨st.logs, st.registrations.map fun r =>
      if r.isLive && (r.cells s).isNone then
        r.setCell s ⟨r.unit.fold (metadata s) [], -1, (none, none)⟩
      else r, st.walks, st.observers, st.consumers⟩
  else st

/-- Commit an event and begin its walk. An append is refused while one is being published. -/
def append (st : Registry σ) (s : σ) (event : SessionEvent) : Except String (Registry σ) :=
  if st.walks.any (·.session = s) then
    throw "session append cannot reenter while another append is being published"
  else
    let event : SessionEvent := { event with seq := (st.logs s).length }
    pure ⟨Function.update st.logs s (st.logs s ++ [event]), st.registrations,
      ⟨s, event, 0⟩ :: st.walks, st.observers, st.consumers⟩

/-- Count one more registrant, of the unit that is already there under the key. -/
def register (st : Registry σ) (unit : ProjectionUnit) : Except String (Registry σ) :=
  match st.find? unit.key with
  | none =>
    pure ⟨st.logs, st.registrations ++ [⟨unit, fun _ => none, 1⟩], st.walks, st.observers, st.consumers⟩
  | some slot =>
    match st.registrations[slot]? with
    | some r =>
      if r.unit.stateVersion ≠ unit.stateVersion then
        throw s!"session projection key {unit.key} is already registered at another stateVersion"
      else
        pure ⟨st.logs, st.registrations.set slot ⟨r.unit, r.cells, r.refs + 1⟩, st.walks,
          st.observers, st.consumers⟩
    | none => pure st

/-- Release one registrant; the last one out deletes the key. -/
def release (st : Registry σ) (key : String) : Registry σ :=
  match st.find? key with
  | none => st
  | some slot =>
    match st.registrations[slot]? with
    | some r =>
      ⟨st.logs, st.registrations.set slot ⟨r.unit, r.cells, r.refs - 1⟩, st.walks, st.observers,
        st.consumers⟩
    | none => st

/-- Subscribe a consumer with a fresh snapshot. -/
def subscribe (st : Registry σ) (same : Identity) (s : σ) : Except String (Registry σ) := do
  let (fresh, st) ← st.snapshot metadata same s
  let consumer : Consumer σ := ⟨s, st.registrations.length, fun key => fresh.values.lookup key⟩
  pure ⟨st.logs, st.registrations, st.walks, st.observers, st.consumers ++ [consumer]⟩

end Registry

/-- A call on the registry or its sessions, or the next step of a walk. -/
inductive Call (σ : Type) where
  | created (s : σ)
  | append (s : σ) (event : SessionEvent)
  | drive (same : Identity) (sameView : Bool)
  | stateOf (same : Identity) (s : σ) (key : String)
  | snapshot (same : Identity) (s : σ)
  | checkpoint (same : Identity) (s : σ)
  /-- With the events of the first `count` from `baseSeq` on. -/
  | hydrate (s : σ) (rows : ProjectionCheckpoint) (count baseSeq : ℕ)
  | register (unit : ProjectionUnit)
  | release (key : String)
  | listen
  | unlisten
  | subscribe (same : Identity) (s : σ)
  | unsubscribe (index : ℕ)

namespace Registry

/-- The registry after a call, or nothing when the call throws. -/
def step (st : Registry σ) : Call σ → Option (Registry σ)
  | .created s => some (st.created metadata s)
  | .append s event => (st.append s event).toOption
  | .drive same sameView => (st.drive metadata same sameView).toOption
  | .stateOf same s key => ((st.stateOf metadata same s key).map (·.2)).toOption
  | .snapshot same s => ((st.snapshot metadata same s).map (·.2)).toOption
  | .checkpoint same s => ((st.checkpoint metadata same s).map (·.2)).toOption
  | .hydrate s rows count baseSeq =>
    ((st.hydrate metadata s rows (((st.logs s).take count).drop baseSeq) baseSeq).map
      (·.2)).toOption
  | .register unit => (st.register unit).toOption
  | .release key => some (st.release key)
  | .listen => some ⟨st.logs, st.registrations, st.walks, st.observers + 1, st.consumers⟩
  | .unlisten => some ⟨st.logs, st.registrations, st.walks, st.observers - 1, st.consumers⟩
  | .subscribe same s => (st.subscribe metadata same s).toOption
  | .unsubscribe index =>
    some ⟨st.logs, st.registrations, st.walks, st.observers, st.consumers.eraseIdx index⟩

end Registry

end

end Projection

end TianmaCoder
