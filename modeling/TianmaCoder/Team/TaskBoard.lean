import TianmaCoder.Team.Projection

/-!
# Task board commands

The read-check part of the two task commands: the snapshot that a create or an update appends
to the lead's log, or the failure it rejects with.

## Main definitions

* `createTask`, `updateTask` — the snapshot a command appends.

## Main results

* `createTask_ok`, `updateTask_ok` — what an appended snapshot satisfies.
* `updateTask_claim` — when a claim is accepted.
-/

namespace TianmaCoder

namespace Team

/-! ### Requests -/

/-- The role of a caller inside its team. -/
inductive TeamRole where
  | lead
  | teammate
  deriving DecidableEq, Repr

/-- Caller identity inside one team. -/
structure TeamMembership where
  role : TeamRole
  name : String
  deriving DecidableEq, Repr

/-- Input for creating one shared task. -/
structure CreateTeamTaskRequest where
  subject : String
  description : String
  blockedBy : Option (List String)
  writeScopes : Option (List String)
  deriving DecidableEq, Repr

/-- Supported task mutation actions. -/
inductive TeamTaskAction where
  | claim
  | release
  | edit
  | setDependencies
  | complete
  | reopen
  | reassign
  | delete
  deriving DecidableEq, Repr

/-- Compare-and-set mutation of one shared task. -/
structure UpdateTeamTaskRequest where
  taskId : String
  expectedRevision : ℕ
  action : TeamTaskAction
  subject : Option String
  description : Option String
  blockedBy : Option (List String)
  writeScopes : Option (List String)
  owner : Option String
  deriving DecidableEq, Repr

/-! ### Parts of the commands -/

/-- The current snapshot of a task. -/
def findTask (tasks : List TeamTaskSnapshot) (id : String) : Option TeamTaskSnapshot :=
  tasks.find? fun task => task.id = id

/-- The tasks that are not deleted. -/
def activeTasks (tasks : List TeamTaskSnapshot) : List TeamTaskSnapshot :=
  tasks.filter fun task => task.status ≠ .deleted

/-- Resolve one active team member by model-facing name, including the lead. -/
def resolveActiveMember (rootId : String) (state : TeamState) (rawName : String) :
    Except CommandFailure (String × String) :=
  let name := Text.trim rawName
  if name = "lead" then .ok (rootId, name)
  else
    match state.members.find? fun candidate => candidate.name = name with
    | none => reject s!"active teammate \"{name}\" not found" .memberNotFound
    | some member =>
      if member.phase ≠ .active then reject s!"active teammate \"{name}\" not found" .memberNotFound
      else .ok (member.id, name)

/-- Check one dependency id, given those checked before it. -/
def dependency (state : TeamState) (self : Option String) (result : List String) (id : String) :
    Except CommandFailure (List String) :=
  if some id = self then reject "a team task cannot block itself" .taskDependencyCycle
  else if id ∈ result then reject s!"duplicate blocker \"{id}\"" .invalidArgument
  else
    match findTask state.tasks id with
    | none => reject s!"blocker task \"{id}\" not found" .taskNotFound
    | some task =>
      if task.status = .deleted then reject s!"blocker task \"{id}\" not found" .taskNotFound
      else .ok (result ++ [id])

/-- Validate dependency ids against the current task graph. -/
def dependencies (values : List String) (state : TeamState) (self : Option String) :
    Except CommandFailure (List String) :=
  values.foldlM (dependency state self) []

/-- Normalise and de-duplicate task write scopes. -/
def writeScopes (values : List String) : Except CommandFailure (List String) := do
  return (← values.mapM writeScope).eraseDups

/-- The command code of a task graph failure. -/
def TASK_GRAPH_ERROR_CODES : TeamTaskGraphViolation → TeamErrorCode
  | .missing => .taskNotFound
  | .duplicate => .invalidArgument
  | .cycle => .taskDependencyCycle

/-- Map shared task-graph validation onto stable command error codes. -/
def assertTaskGraph (state : TeamState) (candidate : TeamTaskSnapshot) : Except CommandFailure Unit :=
  (assertTaskGraphCandidate state.tasks candidate).mapError fun error =>
    .team { message := error.message, code := TASK_GRAPH_ERROR_CODES error.violation }

/-- Whether all current blockers completed. -/
def taskReady (state : TeamState) (task : TeamTaskSnapshot) : Bool :=
  task.blockedBy.all fun id => (findTask state.tasks id).map TeamTaskSnapshot.status = some .completed

/-- Remove the owner of a task. -/
def withoutOwner (task : TeamTaskSnapshot) : TeamTaskSnapshot := { task with ownerId := none }

/-- A field that an edit may leave out. -/
def given {α β : Type} (value : Option α) (current : β) (normalize : α → Except CommandFailure β) :
    Except CommandFailure β :=
  match value with
  | none => .ok current
  | some value => normalize value

/-! ### Commands -/

/-- The first snapshot of a new task. -/
def createTask (maxTasks : ℕ) (request : CreateTeamTaskRequest) (state : TeamState) :
    Except CommandFailure TeamTaskSnapshot := do
  if maxTasks ≤ (activeTasks state.tasks).length then
    reject s!"Team task limit {maxTasks} reached" .taskLimit
  let id := s!"task-{state.nextTaskNumber}"
  if state.tasks.any fun task => task.id = id then
    reject "Team task id space exhausted" .taskLimit
  let task : TeamTaskSnapshot := {
    id
    revision := 1
    subject := ← requiredText request.subject "subject" 200
    description := ← requiredText request.description "description" 16384
    status := .pending
    ownerId := none
    blockedBy := ← dependencies (request.blockedBy.getD []) state none
    writeScopes := ← writeScopes (request.writeScopes.getD []) }
  assertTaskGraph state task
  return task

/-- A mutation reserved to the owner of a task and the lead. -/
def authorizeOwner (callerId : String) (membership : TeamMembership) (current : TeamTaskSnapshot) :
    Except CommandFailure Unit :=
  if membership.role ≠ .lead ∧ current.ownerId ≠ some callerId then
    reject "task mutation requires its owner or Team Lead" .taskUnauthorized
  else .ok ()

/-- The snapshot an action leads to, before its revision is counted. -/
def nextSnapshot (rootId callerId : String) (membership : TeamMembership) (state : TeamState)
    (current : TeamTaskSnapshot) (request : UpdateTeamTaskRequest) :
    Except CommandFailure TeamTaskSnapshot :=
  match request.action with
  | .claim => do
    if current.ownerId ≠ none ∧ current.ownerId ≠ some callerId then
      reject s!"team task \"{current.id}\" is owned by another member" .taskAlreadyClaimed
    if current.status ≠ .pending ∨ taskReady state current = false then
      reject s!"team task \"{current.id}\" is not ready to claim" .taskBlocked
    return { current with status := .inProgress, ownerId := some callerId }
  | .release => do
    authorizeOwner callerId membership current
    if current.status ≠ .inProgress then
      reject "only an in-progress task can be released" .taskInvalidTransition
    return withoutOwner { current with status := .pending }
  | .edit => do
    authorizeOwner callerId membership current
    if request.subject = none ∧ request.description = none ∧ request.writeScopes = none then
      reject "task edit requires subject, description, or write_scopes" .invalidArgument
    return { current with
      subject := ← given request.subject current.subject (requiredText · "subject" 200)
      description := ← given request.description current.description (requiredText · "description" 16384)
      writeScopes := ← given request.writeScopes current.writeScopes writeScopes }
  | .setDependencies => do
    authorizeOwner callerId membership current
    match request.blockedBy with
    | none => reject "set_dependencies requires blocked_by" .invalidArgument
    | some blockedBy =>
      return { current with blockedBy := ← dependencies blockedBy state (some current.id) }
  | .complete => do
    authorizeOwner callerId membership current
    if current.status ≠ .inProgress then
      reject "only an in-progress task can complete" .taskInvalidTransition
    return { current with status := .completed }
  | .reopen => do
    authorizeOwner callerId membership current
    if current.status ≠ .completed then
      reject "only a completed task can reopen" .taskInvalidTransition
    return withoutOwner { current with status := .pending }
  | .reassign => do
    if membership.role ≠ .lead then
      reject "only the Team Lead can reassign tasks" .leadRequired
    if current.status ≠ .pending ∧ current.status ≠ .inProgress then
      reject "only a pending or in-progress task can be reassigned" .taskInvalidTransition
    if Text.trim (request.owner.getD "") = "" then
      return withoutOwner { current with status := .pending }
    else
      if taskReady state current = false then
        reject s!"team task \"{current.id}\" is blocked" .taskBlocked
      let assignee ← resolveActiveMember rootId state (request.owner.getD "")
      return { current with status := .inProgress, ownerId := some assignee.1 }
  | .delete => do
    authorizeOwner callerId membership current
    match state.tasks.find? fun task =>
        task.status ≠ .deleted && task.id ≠ current.id && current.id ∈ task.blockedBy with
    | some dependent =>
      reject s!"team task \"{current.id}\" still blocks \"{dependent.id}\"" .taskHasDependents
    | none => return { current with status := .deleted }

/-- The next snapshot of a task. -/
def updateTask (rootId callerId : String) (membership : TeamMembership)
    (request : UpdateTeamTaskRequest) (state : TeamState) :
    Except CommandFailure TeamTaskSnapshot := do
  match findTask state.tasks request.taskId with
  | none => reject s!"team task \"{request.taskId}\" not found" .taskNotFound
  | some current =>
    if current.revision ≠ request.expectedRevision then
      reject s!"stale team task \"{current.id}\" revision {request.expectedRevision}; current revision is {current.revision}" .taskStaleRevision
    if current.status = .deleted then
      reject s!"team task \"{current.id}\" is deleted" .taskDeleted
    let next ← nextSnapshot rootId callerId membership state current request
    let task := { next with revision := current.revision + 1 }
    assertTaskGraph state task
    return task

/-! ### What a command appends -/

open Checked

variable {task : TeamTaskSnapshot}

theorem findTask_eq_some {tasks : List TeamTaskSnapshot} {id : String}
    (h : findTask tasks id = some task) : task ∈ tasks ∧ task.id = id := by
  rw [findTask] at h
  have hid := List.find?_some h
  exact ⟨List.mem_of_find?_eq_some h, by simpa using hid⟩

/-- A task that is not deleted has the id. -/
def Known (tasks : List TeamTaskSnapshot) (id : String) : Prop :=
  ∃ task ∈ tasks, task.id = id ∧ task.status ≠ .deleted

variable {state : TeamState}

theorem dependency_ok {self : Option String} {result result' : List String} {id : String}
    (h : dependency state self result id = .ok result') :
    Known state.tasks id ∧ result' = result ++ [id] := by
  rw [dependency, reject_eq, guard_ok_iff, reject_eq, guard_ok_iff] at h
  obtain ⟨-, -, h⟩ := h
  cases hfind : findTask state.tasks id with
  | none =>
    rw [hfind] at h
    cases h
  | some task =>
    simp only [hfind, reject_eq, guard_ok_iff, Except.ok.injEq] at h
    obtain ⟨hmem, hid⟩ := findTask_eq_some hfind
    exact ⟨⟨task, hmem, hid, h.1⟩, h.2.symm⟩

/-- Accepted dependencies are tasks that are not deleted. -/
theorem dependencies_known {values ids : List String} {self : Option String}
    (h : dependencies values state self = .ok ids) : ∀ id ∈ ids, Known state.tasks id := by
  refine foldlM_induction (motive := fun _ ids => ∀ id ∈ ids, Known state.tasks id) h (by simp) ?_
  intro _ id result result' _ hresult hstep
  obtain ⟨hknown, rfl⟩ := dependency_ok hstep
  intro x hx
  rcases List.mem_append.mp hx with hx | hx
  · exact hresult x hx
  · exact List.mem_singleton.mp hx ▸ hknown

theorem assertTaskGraph_ok_iff {u : Unit} :
    assertTaskGraph state task = .ok u ↔ assertTaskGraphCandidate state.tasks task = .ok () := by
  rw [assertTaskGraph, mapError_ok_iff]

/-- What a created task is. -/
structure Created (maxTasks : ℕ) (state : TeamState) (task : TeamTaskSnapshot) : Prop where
  room : (activeTasks state.tasks).length < maxTasks
  id : task.id = s!"task-{state.nextTaskNumber}"
  fresh : ∀ other ∈ state.tasks, other.id ≠ task.id
  revision : task.revision = 1
  status : task.status = .pending
  owner : task.ownerId = none
  known : ∀ id ∈ task.blockedBy, Known state.tasks id
  graph : assertTaskGraphCandidate state.tasks task = .ok ()

theorem createTask_ok {maxTasks : ℕ} {request : CreateTeamTaskRequest}
    (h : createTask maxTasks request state = .ok task) : Created maxTasks state task := by
  rw [createTask] at h
  simp only [reject_eq, error_bind, guard_ok_iff, bind_ok_iff, assertTaskGraph_ok_iff, pure_eq,
    Except.ok.injEq] at h
  obtain ⟨hroom, hfresh, subject, -, description, -, ids, hids, scopes, -, -, hgraph, rfl⟩ := h
  constructor
  · omega
  · rfl
  · simpa using hfresh
  · rfl
  · rfl
  · rfl
  · exact dependencies_known hids
  · exact hgraph

/-- The owners an update may give a task. -/
inductive Owner (rootId callerId : String) (state : TeamState) (current : TeamTaskSnapshot) :
    Option String → Prop where
  | kept : Owner rootId callerId state current current.ownerId
  | none : Owner rootId callerId state current none
  | caller : Owner rootId callerId state current (some callerId)
  | lead : Owner rootId callerId state current (some rootId)
  | member {member : TeamMemberSnapshot} (h : member ∈ state.members) :
      Owner rootId callerId state current (some member.id)

/-- What an action makes of a task. -/
structure Advanced (rootId callerId : String) (state : TeamState)
    (current next : TeamTaskSnapshot) : Prop where
  id : next.id = current.id
  status : (next.status = current.status ∧ next.ownerId = current.ownerId) ∨
    (next.status = .inProgress ∧ next.ownerId.isSome = true) ∨
    (next.status = .pending ∧ next.ownerId = none) ∨
    next.status = .completed ∨ next.status = .deleted
  owner : Owner rootId callerId state current next.ownerId
  known : next.blockedBy = current.blockedBy ∨ ∀ id ∈ next.blockedBy, Known state.tasks id

theorem resolveActiveMember_ok {rootId rawName : String} {assignee : String × String}
    (h : resolveActiveMember rootId state rawName = .ok assignee) :
    assignee.1 = rootId ∨ ∃ member ∈ state.members, member.id = assignee.1 := by
  rw [resolveActiveMember] at h
  by_cases hlead : Text.trim rawName = "lead"
  · rw [if_pos hlead, Except.ok.injEq] at h
    exact .inl (h ▸ rfl)
  · rw [if_neg hlead] at h
    cases hfind : state.members.find? fun candidate => candidate.name = Text.trim rawName with
    | none =>
      rw [hfind] at h
      cases h
    | some member =>
      simp only [hfind, reject_eq, guard_ok_iff, Except.ok.injEq] at h
      exact .inr ⟨member, List.mem_of_find?_eq_some hfind, by rw [← h.2]⟩

theorem nextSnapshot_ok {rootId callerId : String} {membership : TeamMembership}
    {current next : TeamTaskSnapshot} {request : UpdateTeamTaskRequest}
    (h : nextSnapshot rootId callerId membership state current request = .ok next) :
    Advanced rootId callerId state current next := by
  rw [nextSnapshot] at h
  cases haction : request.action with
  | claim =>
    simp only [haction, reject_eq, error_bind, guard_ok_iff, pure_eq, Except.ok.injEq] at h
    obtain ⟨-, -, rfl⟩ := h
    exact ⟨rfl, .inr (.inl ⟨rfl, rfl⟩), .caller, .inl rfl⟩
  | release =>
    simp only [haction, reject_eq, error_bind, guard_ok_iff, bind_ok_iff, pure_eq,
      Except.ok.injEq] at h
    obtain ⟨-, -, -, rfl⟩ := h
    exact ⟨rfl, .inr (.inr (.inl ⟨rfl, rfl⟩)), .none, .inl rfl⟩
  | edit =>
    simp only [haction, reject_eq, error_bind, guard_ok_iff, bind_ok_iff, pure_eq,
      Except.ok.injEq] at h
    obtain ⟨-, -, -, subject, -, description, -, scopes, -, rfl⟩ := h
    exact ⟨rfl, .inl ⟨rfl, rfl⟩, .kept, .inl rfl⟩
  | setDependencies =>
    simp only [haction, bind_ok_iff] at h
    obtain ⟨-, -, h⟩ := h
    cases hblocked : request.blockedBy with
    | none =>
      rw [hblocked] at h
      cases h
    | some blockedBy =>
      simp only [hblocked, bind_ok_iff, pure_eq, Except.ok.injEq] at h
      obtain ⟨ids, hids, rfl⟩ := h
      exact ⟨rfl, .inl ⟨rfl, rfl⟩, .kept, .inr (dependencies_known hids)⟩
  | complete =>
    simp only [haction, reject_eq, error_bind, guard_ok_iff, bind_ok_iff, pure_eq,
      Except.ok.injEq] at h
    obtain ⟨-, -, -, rfl⟩ := h
    exact ⟨rfl, .inr (.inr (.inr (.inl rfl))), .kept, .inl rfl⟩
  | reopen =>
    simp only [haction, reject_eq, error_bind, guard_ok_iff, bind_ok_iff, pure_eq,
      Except.ok.injEq] at h
    obtain ⟨-, -, -, rfl⟩ := h
    exact ⟨rfl, .inr (.inr (.inl ⟨rfl, rfl⟩)), .none, .inl rfl⟩
  | reassign =>
    simp only [haction, reject_eq, error_bind, guard_ok_iff] at h
    obtain ⟨-, -, h⟩ := h
    by_cases hblank : Text.trim (request.owner.getD "") = ""
    · rw [if_pos hblank, pure_eq, Except.ok.injEq] at h
      subst h
      exact ⟨rfl, .inr (.inr (.inl ⟨rfl, rfl⟩)), .none, .inl rfl⟩
    · simp only [hblank, if_false, guard_ok_iff, bind_ok_iff, pure_eq, Except.ok.injEq] at h
      obtain ⟨-, assignee, hassignee, rfl⟩ := h
      refine ⟨rfl, .inr (.inl ⟨rfl, rfl⟩), ?_, .inl rfl⟩
      rcases resolveActiveMember_ok hassignee with hroot | ⟨member, hmember, hid⟩
      · exact hroot ▸ .lead
      · exact hid ▸ .member hmember
  | delete =>
    simp only [haction, bind_ok_iff] at h
    obtain ⟨-, -, h⟩ := h
    split at h
    · cases h
    · cases h
      exact ⟨rfl, .inr (.inr (.inr (.inr rfl))), .kept, .inl rfl⟩

/-- What an update appends for a task that is not deleted. -/
structure Updated (rootId callerId : String) (state : TeamState) (request : UpdateTeamTaskRequest)
    (current task : TeamTaskSnapshot) : Prop where
  found : findTask state.tasks request.taskId = some current
  expected : current.revision = request.expectedRevision
  live : current.status ≠ .deleted
  advanced : Advanced rootId callerId state current task
  revision : task.revision = current.revision + 1
  graph : assertTaskGraphCandidate state.tasks task = .ok ()

variable {rootId callerId : String} {membership : TeamMembership} {state : TeamState}
  {task : TeamTaskSnapshot} {request : UpdateTeamTaskRequest}

theorem updateTask_eq_ok (h : updateTask rootId callerId membership request state = .ok task) :
    ∃ current next, Updated rootId callerId state request current task ∧
      nextSnapshot rootId callerId membership state current request = .ok next := by
  rw [updateTask] at h
  cases hfind : findTask state.tasks request.taskId with
  | none =>
    rw [hfind] at h
    cases h
  | some current =>
    simp only [hfind, reject_eq, error_bind, guard_ok_iff, bind_ok_iff, assertTaskGraph_ok_iff,
      pure_eq, Except.ok.injEq] at h
    obtain ⟨hrevision, hlive, next, hnext, -, hgraph, rfl⟩ := h
    have hadvanced := nextSnapshot_ok hnext
    refine ⟨current, next, ?_, hnext⟩
    constructor
    · exact hfind
    · simpa using hrevision
    · exact hlive
    · exact ⟨hadvanced.id, hadvanced.status, hadvanced.owner, hadvanced.known⟩
    · rfl
    · exact hgraph

theorem updateTask_ok (h : updateTask rootId callerId membership request state = .ok task) :
    ∃ current, Updated rootId callerId state request current task := by
  obtain ⟨current, _, hupdated, -⟩ := updateTask_eq_ok h
  exact ⟨current, hupdated⟩

/-- The moment at which a claim is accepted: the task is pending, nobody else's, and its blockers
are completed. -/
structure Claimable (state : TeamState) (taskId callerId : String) (current : TeamTaskSnapshot) :
    Prop where
  found : findTask state.tasks taskId = some current
  pending : current.status = .pending
  owner : current.ownerId = none ∨ current.ownerId = some callerId
  ready : ∀ id ∈ current.blockedBy, ∃ blocker, findTask state.tasks id = some blocker ∧
    blocker.status = .completed

theorem updateTask_claim (haction : request.action = .claim)
    (h : updateTask rootId callerId membership request state = .ok task) :
    ∃ current, Claimable state request.taskId callerId current := by
  obtain ⟨current, next, hupdated, hnext⟩ := updateTask_eq_ok h
  rw [nextSnapshot, haction] at hnext
  simp only [reject_eq, error_bind, guard_ok_iff] at hnext
  obtain ⟨howner, hready, -⟩ := hnext
  rw [not_or, not_not, Bool.not_eq_false, taskReady, List.all_eq_true] at hready
  refine ⟨current, hupdated.found, hready.1, ?_, ?_⟩
  · by_cases hnone : current.ownerId = none
    · exact .inl hnone
    · right
      by_contra hother
      exact howner ⟨hnone, hother⟩
  · intro id hid
    have hcompleted := hready.2 id hid
    rw [decide_eq_true_eq, Option.map_eq_some_iff] at hcompleted
    exact hcompleted

end Team

end TianmaCoder
