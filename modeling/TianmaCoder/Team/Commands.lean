import TianmaCoder.Lib.JsonText
import TianmaCoder.Team.TaskBoard

/-!
# Roster and mailbox commands

The read-check part of the commands that change the roster and the mailbox, and every command
of a team as one datatype: what it appends to the log of the lead, or why it rejects.

## Main definitions

* `spawnMember` — the checks of a creation before it enters the queue.
* `Command`, `Command.execute` — one transaction.
-/

namespace TianmaCoder

namespace Team

/-- Validated deployment limits. -/
structure Config where
  maxMembers : ℕ
  maxTasks : ℕ
  maxPendingMessagesPerMember : ℕ
  maxMessageBytes : ℕ
  deriving DecidableEq, Repr

/-- Input for creating one durable teammate; its prompt does not enter the log of the lead. -/
structure SpawnTeammateRequest where
  name : String
  description : String
  context : TeamMemberContext
  provider : String
  deriving DecidableEq, Repr

/-! ### Roster -/

/-- Resolve the role of a caller; `none` for callers outside the team. -/
def tryMembership (rootId : String) (projection : TeamProjectionState) (callerId : String) :
    Option TeamMembership :=
  if callerId = rootId then some { role := .lead, name := "lead" }
  else if projection.failure.isSome then none
  else
    match projection.members.find? fun candidate => candidate.id = callerId with
    | none => none
    | some member =>
      if member.phase = .failed then none else some { role := .teammate, name := member.name }

/-- Validate a never-reused model-facing teammate name. -/
def memberName (value : String) : Except CommandFailure String :=
  if Text.kebabRest false value.toList = false ∨ 64 < utf16Length value ∨ value = "lead" then
    reject "teammate name must be lower-kebab-case, at most 64 characters, and not \"lead\""
      .invalidMemberName
  else .ok value

/-- The provisioning row of a new teammate. -/
def spawnMember (membership : TeamMembership) (request : SpawnTeammateRequest) (childId : String) :
    Except CommandFailure TeamMemberSnapshot := do
  if membership.role ≠ .lead then
    reject "only the Team Lead can create teammates" .leadRequired
  return {
    id := childId
    name := ← memberName request.name
    description := ← requiredText request.description "description" 200
    provider := ← requiredText request.provider "provider" 200
    context := request.context
    phase := .provisioning
    error := none }

/-- Append the provisioning row unless its name is taken or the roster is full. -/
def provision (maxMembers : ℕ) (member : TeamMemberSnapshot) (state : TeamState) :
    Except CommandFailure (Option TeamEventData) :=
  if state.members.any fun other => other.name = member.name then
    reject s!"teammate name \"{member.name}\" was already used in this Team" .memberNameTaken
  else if maxMembers ≤ state.members.length then
    reject s!"Team member limit {maxMembers} reached" .memberLimit
  else .ok (some (.member member))

/-- The terminal row of a creation: `none` when it succeeded, else its failure. -/
def terminal (member : TeamMemberSnapshot) : Option String → TeamMemberSnapshot
  | none => { member with phase := .active }
  | some failure => { member with phase := .failed, error := some failure }

/-- Append one terminal provisioning edge unless recovery already settled it. -/
def settleProvisioning (terminal : TeamMemberSnapshot) (state : TeamState) :
    Except CommandFailure (Option TeamEventData) :=
  match state.members.find? fun member => member.id = terminal.id with
  | none => reject s!"provisioned teammate \"{terminal.id}\" disappeared" .provisioningConflict
  | some current =>
    if current.phase ≠ .provisioning then .ok none else .ok (some (.member terminal))

/-- Settle a member that is still provisioning from its stored child session. -/
def reconcileProvisioning (memberId : String) (failure : Option String) (state : TeamState) :
    Except CommandFailure (Option TeamEventData) :=
  match state.members.find? fun candidate => candidate.id = memberId with
  | none => .ok none
  | some current =>
    if current.phase ≠ .provisioning then .ok none else .ok (some (.member (terminal current failure)))

/-! ### Mailbox -/

/-- The bytes of one character inside a JSON string literal. -/
def escapedBytes (c : Char) : ℕ :=
  if c = '"' ∨ c = '\\' ∨ c.val < 0x20 then escapedLength c else c.utf8Size

/-- The bytes of one token of a JSON text. -/
def tokenBytes [NumberText] : JsonToken → ℕ
  | .null => 4
  | .bool b => if b then 4 else 5
  | .int n => integerLength n
  | .float bits => NumberText.fraction bits
  | .str s => (s.toList.map escapedBytes).sum + 2
  | _ => 1

/-- `Buffer.byteLength(JSON.stringify(value), 'utf8')`. -/
def byteLength [NumberText] (value : Json) : ℕ := (value.stringify.map tokenBytes).sum

/-- Frame peer content with stable sender and message identity. -/
def deliveryContent (message : TeamMessageSnapshot) : List Json :=
  .obj [("type", .str "text"), ("text", .str s!"Team message {message.id} from {message.senderName}:")]
    :: message.content

/-- The queued messages of one target that are not delivered. -/
def pendingFor (state : TeamState) (targetId : String) : List TeamMessageSnapshot :=
  state.messages.filter fun candidate => candidate.targetId = targetId && candidate.id ∉ state.delivered

/-- Queue one mailbox item. -/
def queueMessage [NumberText] (config : Config) (rootId callerId : String)
    (membership : TeamMembership) (target : String) (content : List Json) (uuid : String)
    (state : TeamState) : Except CommandFailure (Option TeamEventData) := do
  let target ← resolveActiveMember rootId state target
  if target.1 = callerId then
    reject "a Team member cannot message itself" .selfMessage
  if config.maxPendingMessagesPerMember ≤ (pendingFor state target.1).length then
    reject s!"teammate \"{target.2}\" has {(pendingFor state target.1).length} pending messages" .mailboxFull
  let queued : TeamMessageSnapshot := {
    id := "team-message-" ++ uuid
    senderId := callerId
    senderName := membership.name
    targetId := target.1
    content }
  if config.maxMessageBytes < byteLength (.arr (deliveryContent queued)) then
    reject s!"team message exceeds {config.maxMessageBytes} bytes" .messageTooLarge
  return some (.queued queued)

/-- Record delivery unless the acknowledgement already exists. -/
def markDelivered (messageId targetId : String) (state : TeamState) : Option TeamEventData :=
  if messageId ∈ state.delivered then none
  else
    match state.messages.find? fun message => message.id = messageId with
    | none => none
    | some queued => if queued.targetId ≠ targetId then none else some (.delivered messageId targetId)

/-! ### Transactions -/

/-- One operation on the queue of a lead. -/
inductive Command where
  | createTask (request : CreateTeamTaskRequest)
  | updateTask (callerId : String) (membership : TeamMembership) (request : UpdateTeamTaskRequest)
  | provision (member : TeamMemberSnapshot)
  | settleProvisioning (member : TeamMemberSnapshot) (failure : Option String)
  | reconcileProvisioning (memberId : String) (failure : Option String)
  | sendMessage (callerId : String) (membership : TeamMembership) (target : String)
      (content : List Json)
  | markDelivered (messageId targetId : String)
  deriving DecidableEq

/-- Whether the operation observes the cancellation of its caller. -/
def Command.cancellable : Command → Bool
  | .reconcileProvisioning _ _ => true
  | .sendMessage _ _ _ _ => true
  | _ => false

/-- The state of the journal. -/
def journalState (projection : TeamProjectionState) : Except CommandFailure TeamState :=
  match projection.failure with
  | some failure => .error (.projection failure)
  | none => .ok projection.toTeamState

/-- The event an operation appends, if any, in the state it reads. The identifier is the random
one that a message takes. -/
def Command.body [NumberText] (config : Config) (rootId uuid : String) (state : TeamState) :
    Command → Except CommandFailure (Option TeamEventData)
  | .createTask request => do return some (.task (← Team.createTask config.maxTasks request state))
  | .updateTask callerId membership request => do
    return some (.task (← Team.updateTask rootId callerId membership request state))
  | .provision member => Team.provision config.maxMembers member state
  | .settleProvisioning member failure => Team.settleProvisioning (terminal member failure) state
  | .reconcileProvisioning memberId failure => Team.reconcileProvisioning memberId failure state
  | .sendMessage callerId membership target content =>
    queueMessage config rootId callerId membership target content uuid state
  | .markDelivered messageId targetId => .ok (Team.markDelivered messageId targetId state)

/-- One operation, up to its append. -/
def Command.execute [NumberText] (config : Config) (rootId uuid : String) (aborted : Bool)
    (command : Command) (projection : TeamProjectionState) :
    Except CommandFailure (Option TeamEventData) := do
  if command.cancellable && aborted then throw .aborted
  command.body config rootId uuid (← journalState projection)

/-- An operation reads a state that has not failed. -/
theorem execute_ok [NumberText] {config : Config} {rootId uuid : String} {aborted : Bool}
    {command : Command} {projection : TeamProjectionState} {data : Option TeamEventData}
    (h : command.execute config rootId uuid aborted projection = .ok data) :
    projection.failure = none ∧
      command.body config rootId uuid projection.toTeamState = .ok data := by
  rw [Command.execute] at h
  simp only [Checked.throw_eq, Checked.error_bind, Checked.guard_ok_iff, Checked.bind_ok_iff] at h
  obtain ⟨-, state, hstate, hbody⟩ := h
  rw [journalState] at hstate
  split at hstate
  · cases hstate
  · next hfailure =>
      cases hstate
      exact ⟨hfailure, hbody⟩

/-- The operations that append a task. -/
theorem body_task [NumberText] {config : Config} {rootId uuid : String} {state : TeamState}
    {command : Command} {task : TeamTaskSnapshot}
    (h : command.body config rootId uuid state = .ok (some (.task task))) :
    (∃ request, command = .createTask request ∧
      Team.createTask config.maxTasks request state = .ok task) ∨
    ∃ callerId membership request, command = .updateTask callerId membership request ∧
      Team.updateTask rootId callerId membership request state = .ok task := by
  cases command with
  | createTask request =>
    simp only [Command.body, Checked.bind_ok_iff, Checked.pure_eq, Except.ok.injEq,
      Option.some.injEq, TeamEventData.task.injEq] at h
    obtain ⟨_, hcreate, rfl⟩ := h
    exact .inl ⟨request, rfl, hcreate⟩
  | updateTask callerId membership request =>
    simp only [Command.body, Checked.bind_ok_iff, Checked.pure_eq, Except.ok.injEq,
      Option.some.injEq, TeamEventData.task.injEq] at h
    obtain ⟨_, hupdate, rfl⟩ := h
    exact .inr ⟨callerId, membership, request, rfl, hupdate⟩
  | provision member =>
    rw [Command.body, Team.provision] at h
    split at h
    · cases h
    · split at h <;> cases h
  | settleProvisioning member failure =>
    rw [Command.body, Team.settleProvisioning] at h
    split at h
    · cases h
    · split at h <;> cases h
  | reconcileProvisioning memberId failure =>
    rw [Command.body, Team.reconcileProvisioning] at h
    split at h
    · cases h
    · split at h <;> cases h
  | sendMessage callerId membership target content =>
    simp only [Command.body, queueMessage, Checked.bind_ok_iff, reject_eq, Checked.error_bind,
      Checked.guard_ok_iff, Checked.pure_eq, Except.ok.injEq, Option.some.injEq] at h
    obtain ⟨_, -, -, -, -, h⟩ := h
    cases h
  | markDelivered messageId targetId =>
    rw [Command.body, Except.ok.injEq, Team.markDelivered] at h
    split at h
    · cases h
    · split at h
      · cases h
      · split at h <;> cases h

end Team

end TianmaCoder
