import TianmaCoder.Lib.Transition
import TianmaCoder.Team.Commands

/-!
# The serialised journal of a team

All commands of a team change one log, the log of its lead, through one queue: an operation
reads the projected state, checks, appends at most one event, and holds the queue until the
event is durable or its flush has failed. Any member may call at any time, the flushes settle
in any way, and the recoveries and acknowledgements come from outside.

## Main definitions

* `World`, `World.step` — the journal and what can happen to it.
-/

namespace TianmaCoder

namespace Team

/-- The journal of one lead. -/
structure World where
  rootId : String
  projection : TeamProjectionState
  /-- The team events appended to the log of the lead. -/
  log : List TeamEvent
  /-- The operations whose predecessors have not settled. -/
  waiting : List Command
  /-- The operation whose event is being made durable. -/
  flushing : Option Command
  settled : List (Command × Except CommandFailure Unit)
  /-- The random identifiers drawn so far. -/
  issued : List String
  /-- The rows whose creators still have to settle them. -/
  spawning : List TeamMemberSnapshot

/-- The journal of a lead without a team. -/
def World.init (rootId : String) : World where
  rootId
  projection := emptyTeamState rootId
  log := []
  waiting := []
  flushing := none
  settled := []
  issued := []
  spawning := []

/-- What can happen to a journal. -/
inductive Action where
  | createTask (callerId : String) (request : CreateTeamTaskRequest)
  | updateTask (callerId : String) (request : UpdateTeamTaskRequest)
  | spawnTeammate (callerId : String) (request : SpawnTeammateRequest) (uuid : String)
  | sendMessage (callerId target : String) (content : List Json)
  /-- The continuation of a new teammate started, or failed. -/
  | started (member : TeamMemberSnapshot) (failure : Option String)
  | reconcile (memberId : String) (failure : Option String)
  | acknowledge (messageId targetId : String)
  /-- The first waiting operation runs up to its append. -/
  | run (aborted : Bool) (uuid : String)
  /-- The flush of the appended event settles. -/
  | flushed (ok : Bool)
  deriving DecidableEq

namespace World

/-- Queue an operation. -/
def enqueue (w : World) (command : Command) : World := { w with waiting := w.waiting ++ [command] }

/-- Settle an operation. -/
def settle (w : World) (command : Command) (result : Except CommandFailure Unit) : World :=
  { w with settled := w.settled ++ [(command, result)] }

/-- An identifier that was not drawn before. -/
def Fresh (w : World) (uuid : String) : Prop := uuid ≠ "" ∧ uuid ∉ w.issued

instance (w : World) (uuid : String) : Decidable (w.Fresh uuid) := inferInstanceAs (Decidable (_ ∧ _))

/-- Append one event to the log; the projection follows it. -/
def append (w : World) (data : TeamEventData) : World :=
  let event : TeamEvent := { version := 2, teamId := w.rootId, data }
  { w with log := w.log ++ [event], projection := applyProjectionEvent w.projection event }

/-- Run the first operation up to its append. -/
def runFirst [NumberText] (config : Config) (w : World) (aborted : Bool) (uuid : String)
    (command : Command) (rest : List Command) : World :=
  let w := { w with waiting := rest, issued := w.issued ++ [uuid] }
  match command.execute config w.rootId uuid aborted w.projection with
  | .error failure => w.settle command (.error failure)
  | .ok none => w.settle command (.ok ())
  | .ok (some data) => { w.append data with flushing := some command }

/-- A provisioned row is settled by its creator once its event is durable. -/
def finishFlush (w : World) (command : Command) (ok : Bool) : World :=
  let w := { w with flushing := none }
  if ok then
    let w := w.settle command (.ok ())
    match command with
    | .provision member => { w with spawning := w.spawning ++ [member] }
    | _ => w
  else w.settle command (.error .flush)

/-- One action, where it is enabled. A call by a stranger, and a creation with invalid arguments,
is rejected at once. -/
def step [NumberText] (config : Config) (w : World) : Action → Option World
  | .createTask callerId request =>
    match tryMembership w.rootId w.projection callerId with
    | none => some w
    | some _ => some (w.enqueue (.createTask request))
  | .updateTask callerId request =>
    match tryMembership w.rootId w.projection callerId with
    | none => some w
    | some membership => some (w.enqueue (.updateTask callerId membership request))
  | .spawnTeammate callerId request uuid =>
    if w.Fresh uuid then
      match tryMembership w.rootId w.projection callerId with
      | none => some w
      | some membership =>
        match spawnMember membership request uuid with
        | .error _ => some w
        | .ok member => some ({ w with issued := w.issued ++ [uuid] }.enqueue (.provision member))
    else none
  | .sendMessage callerId target content =>
    match tryMembership w.rootId w.projection callerId with
    | none => some w
    | some membership => some (w.enqueue (.sendMessage callerId membership target content))
  | .started member failure =>
    if member ∈ w.spawning then
      some ({ w with spawning := w.spawning.erase member }.enqueue (.settleProvisioning member failure))
    else none
  | .reconcile memberId failure => some (w.enqueue (.reconcileProvisioning memberId failure))
  | .acknowledge messageId targetId => some (w.enqueue (.markDelivered messageId targetId))
  | .run aborted uuid =>
    match w.flushing, w.waiting with
    | none, command :: rest => if w.Fresh uuid then some (w.runFirst config aborted uuid command rest) else none
    | _, _ => none
  | .flushed ok =>
    match w.flushing with
    | none => none
    | some command => some (w.finishFlush command ok)

/-- The first waiting operation settles without an append, or it appends its event. -/
theorem run_cases [NumberText] {config : Config} {w w' : World} {aborted : Bool} {uuid : String}
    (h : w.step config (.run aborted uuid) = some w') :
    ∃ command rest, w.flushing = none ∧ w.waiting = command :: rest ∧ w.Fresh uuid ∧
      ((∃ result, (∀ data, command.execute config w.rootId uuid aborted w.projection ≠ .ok (some data)) ∧
        result = (command.execute config w.rootId uuid aborted w.projection).map (fun _ => ()) ∧
        w' = ({ w with waiting := rest, issued := w.issued ++ [uuid] } : World).settle command result) ∨
      ∃ data, command.execute config w.rootId uuid aborted w.projection = .ok (some data) ∧
        w' = { ({ w with waiting := rest, issued := w.issued ++ [uuid] } : World).append data with
          flushing := some command }) := by
  rw [step] at h
  by_cases hflushing : w.flushing = none
  · cases hwaiting : w.waiting with
    | nil => simp [hflushing, hwaiting] at h
    | cons command rest =>
      simp only [hflushing, hwaiting] at h
      by_cases hfresh : w.Fresh uuid
      · rw [if_pos hfresh, Option.some.injEq, runFirst] at h
        refine ⟨command, rest, hflushing, rfl, hfresh, ?_⟩
        cases hexecute : command.execute config w.rootId uuid aborted w.projection with
        | error failure =>
          simp only [hexecute] at h
          exact .inl ⟨_, by simp, rfl, h.symm⟩
        | ok data =>
          cases data with
          | none =>
            simp only [hexecute] at h
            exact .inl ⟨_, by simp, rfl, h.symm⟩
          | some data =>
            simp only [hexecute] at h
            exact .inr ⟨data, rfl, h.symm⟩
      · rw [if_neg hfresh] at h
        cases h
  · obtain ⟨command, hcommand⟩ := Option.ne_none_iff_exists'.mp hflushing
    simp [hcommand] at h

end World

end Team

end TianmaCoder
