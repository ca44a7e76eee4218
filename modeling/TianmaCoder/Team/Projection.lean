import TianmaCoder.Lib.Schema
import TianmaCoder.Team.TaskGraph

/-!
# The team projection

Team state as the log of the lead gives it: the strict schemas of the durable records, the
transition of each event, and the failure that an event refused by either leaves in the state.

## Main definitions

* `contentBlockSchema` — the content of a stored message.
* `applyProjectionEvent` — one event.
* `acceptsState` — the schema of a stored state.

## Main results

* `stable_contentBlockSchema` — stored content is read back.
* `transition_ok_iff` and the rules for each event — when an event is accepted.
-/

namespace TianmaCoder

namespace Team

open Schema

/-! ### Schemas -/

/-- A required member. -/
def required (name : String) (schema : Schema) : Field := { name, required := true, schema }

/-- An optional member. -/
def optional (name : String) (schema : Schema) : Field := { name, required := false, schema }

/-- The block types with a schema of their own, and the retired one. -/
def coreContentBlockTypes : List String := ["text", "reasoning", "image", "tool-call", "tool-result"]

def imageAttachmentSchema : Schema :=
  strict [required "attachmentId" nonEmptyString,
    required "mediaType" (oneOf ["image/png", "image/jpeg", "image/webp", "image/gif"]),
    required "bytes" (safeInteger 0), required "width" (safeInteger 1),
    required "height" (safeInteger 1), optional "name" string]

def textBlockSchema : Schema := strict [required "type" (literal "text"), required "text" string]

def reasoningBlockSchema : Schema :=
  strict [required "type" (literal "reasoning"), required "text" string]

def imageBlockSchema : Schema :=
  strict [required "type" (literal "image"), required "attachment" imageAttachmentSchema]

def toolCallBlockSchema : Schema :=
  strict [required "type" (literal "tool-call"), required "id" nonEmptyString,
    required "name" string, required "arguments" string]

/-- A block of a type that a plugin adds. -/
def isPluginBlock (value : Json) : Bool :=
  match value.get? "type" with
  | some (.str type) => type ≠ "" && type ∉ coreContentBlockTypes
  | _ => false

def contentBlockSchema : Schema :=
  union [textBlockSchema, reasoningBlockSchema, imageBlockSchema, toolCallBlockSchema,
    custom isPluginBlock]

/-- `/^task-(\d+)$/u`, and the number of its digits. -/
def taskNumber? (id : String) : Option ℕ :=
  match id.toList with
  | 't' :: 'a' :: 's' :: 'k' :: '-' :: digits =>
    if digits ≠ [] ∧ digits.all Char.isDigit then some (Nat.ofDigitChars 10 digits 0) else none
  | _ => none

/-- A task id whose numeric suffix, if it has one, is a safe integer. -/
def isTaskId (id : String) : Bool :=
  id ≠ "" && match taskNumber? id with
    | none => true
    | some number => number ≤ Json.maxSafeInteger

/-- A positive safe integer. -/
def isPositiveSafe (n : ℕ) : Bool := 1 ≤ n && n ≤ Json.maxSafeInteger

def acceptsMember (member : TeamMemberSnapshot) : Bool := member.id ≠ ""

def acceptsTask (task : TeamTaskSnapshot) : Bool :=
  isTaskId task.id && isPositiveSafe task.revision && task.ownerId ≠ some "" &&
    task.blockedBy.all isTaskId

/-- Read a message, with its content rebuilt. -/
def readMessage (message : TeamMessageSnapshot) : Option TeamMessageSnapshot :=
  if message.id ≠ "" ∧ message.senderId ≠ "" ∧ message.targetId ≠ "" then
    (message.content.mapM contentBlockSchema).map fun content => { message with content }
  else none

/-! ### Events -/

/-- The payload of a team event. -/
inductive TeamEventData where
  | member (member : TeamMemberSnapshot)
  | task (task : TeamTaskSnapshot)
  | queued (message : TeamMessageSnapshot)
  | delivered (messageId targetId : String)
  deriving DecidableEq

/-- The type of a team event. -/
def TeamEventData.type : TeamEventData → String
  | .member _ => "team/member"
  | .task _ => "team/task"
  | .queued _ => "team/message/queued"
  | .delivered _ _ => "team/message/delivered"

/-- One event owned by the team domain. -/
structure TeamEvent where
  version : ℕ
  teamId : String
  data : TeamEventData
  deriving DecidableEq

/-- State for the team owned by the projected session. -/
structure TeamProjectionState extends TeamState where
  failure : Option String
  deriving DecidableEq

/-- Empty state for one team identity. -/
def emptyTeamState (rootId : String) : TeamProjectionState where
  id := rootId
  members := []
  tasks := []
  messages := []
  delivered := []
  nextTaskNumber := 1
  failure := none

/-- Decode the payload of one current event. -/
def parseCurrentTeamEvent (event : TeamEvent) : Except String TeamEventData :=
  let invalid := .error s!"persisted Agent Teams {event.data.type} payload is invalid"
  match event.data with
  | .member member => if acceptsMember member then .ok (.member member) else invalid
  | .task task => if acceptsTask task then .ok (.task task) else invalid
  | .queued message =>
    match readMessage message with
    | some rebuilt => .ok (.queued rebuilt)
    | none => invalid
  | .delivered messageId targetId =>
    if messageId ≠ "" ∧ targetId ≠ "" then .ok (.delivered messageId targetId) else invalid

/-- Replace the first item that `p` admits, or append. -/
def putFirst {α : Type} (p : α → Bool) (item : α) : List α → List α
  | [] => [item]
  | x :: xs => if p x then item :: xs else x :: putFirst p item xs

/-- The text of a phase. -/
def TeamMemberPhase.text : TeamMemberPhase → String
  | .provisioning => "provisioning"
  | .active => "active"
  | .failed => "failed"

/-- A new teammate, or the next phase of a provisioning one. -/
def applyMember (state : TeamState) (member : TeamMemberSnapshot) : Except String TeamState := do
  match state.members.find? fun candidate => candidate.name = member.name with
  | some named =>
    if named.id ≠ member.id then
      throw s!"teammate name \"{member.name}\" is reused by another member"
  | none => pure ()
  match state.members.find? fun candidate => candidate.id = member.id with
  | none =>
    if member.phase ≠ .provisioning then throw s!"teammate \"{member.name}\" must begin provisioning"
  | some prior =>
    if prior.name ≠ member.name ∨ prior.provider ≠ member.provider ∨ prior.context ≠ member.context then
      throw s!"teammate \"{member.id}\" changed immutable identity fields"
    if prior.phase ≠ .provisioning ∨ member.phase = .provisioning then
      throw s!"teammate \"{member.name}\" has an invalid {prior.phase.text} -> {member.phase.text} transition"
  return { state with members := putFirst (fun candidate => candidate.id = member.id) member state.members }

/-- The next number for a task id, after one of its ids was seen. -/
def nextNumber (nextTaskNumber : ℕ) (id : String) : ℕ :=
  match taskNumber? id with
  | none => nextTaskNumber
  | some number => max nextTaskNumber (if number = Json.maxSafeInteger then number else number + 1)

/-- A new task, or the next revision of one. -/
def applyTask (state : TeamState) (task : TeamTaskSnapshot) : Except String TeamState := do
  match state.tasks.find? fun candidate => candidate.id = task.id with
  | none => if task.revision ≠ 1 then throw s!"team task \"{task.id}\" must begin at revision 1"
  | some prior =>
    if task.revision ≠ prior.revision + 1 then throw s!"team task \"{task.id}\" revision is not contiguous"
  (assertTaskGraphCandidate state.tasks task).mapError TeamTaskGraphError.message
  return { state with
    nextTaskNumber := nextNumber state.nextTaskNumber task.id
    tasks := putFirst (fun candidate => candidate.id = task.id) task state.tasks }

/-- A new message. -/
def applyQueued (state : TeamState) (message : TeamMessageSnapshot) : Except String TeamState := do
  if state.messages.any fun candidate => candidate.id = message.id then
    throw s!"team message \"{message.id}\" was queued twice"
  return { state with messages := state.messages ++ [message] }

/-- The acknowledgement of a message. -/
def applyDelivered (state : TeamState) (messageId targetId : String) : Except String TeamState := do
  match state.messages.find? fun message => message.id = messageId with
  | none => throw s!"team message \"{messageId}\" was delivered before queueing"
  | some queued =>
    if queued.targetId ≠ targetId then throw s!"team message \"{messageId}\" target changed"
    if messageId ∈ state.delivered then throw s!"team message \"{messageId}\" was delivered twice"
    return { state with delivered := state.delivered ++ [messageId] }

def applyCurrentTeamEvent (state : TeamState) : TeamEventData → Except String TeamState
  | .member member => applyMember state member
  | .task task => applyTask state task
  | .queued message => applyQueued state message
  | .delivered messageId targetId => applyDelivered state messageId targetId

/-- The checked transition of one event. -/
def transition (state : TeamState) (event : TeamEvent) : Except String TeamState := do
  if event.teamId = "" ∨ Json.maxSafeInteger < event.version then
    throw s!"persisted Agent Teams {event.data.type} payload is invalid"
  if event.teamId ≠ state.id then return state
  if event.version ≠ 2 then
    throw s!"unsupported Agent Teams event version {event.version}"
  applyCurrentTeamEvent state (← parseCurrentTeamEvent event)

/-- One event; a failure is kept and nothing is applied after it. -/
def applyProjectionEvent (state : TeamProjectionState) (event : TeamEvent) : TeamProjectionState :=
  if state.failure.isSome then state
  else
    match transition state.toTeamState event with
    | .ok next => { toTeamState := next, failure := none }
    | .error failure => { state with failure := some failure }

/-- The schema of a stored state. -/
def acceptsState (state : TeamProjectionState) : Bool :=
  state.id ≠ "" && state.members.all acceptsMember && state.tasks.all acceptsTask &&
    state.messages.all (fun message => (readMessage message).isSome) &&
    state.delivered.all (· ≠ "") && isPositiveSafe state.nextTaskNumber

/-! ### When an event is accepted -/

section Accepted

open Checked

variable {state next : TeamState} {event : TeamEvent}

theorem applyMember_ok_iff {member : TeamMemberSnapshot} :
    applyMember state member = .ok next ↔
      (∀ named, (state.members.find? fun candidate => candidate.name = member.name) = some named →
        named.id = member.id) ∧
      (match state.members.find? fun candidate => candidate.id = member.id with
        | none => member.phase = .provisioning
        | some prior => prior.name = member.name ∧ prior.provider = member.provider ∧
            prior.context = member.context ∧ prior.phase = .provisioning ∧
            member.phase ≠ .provisioning) ∧
      { state with members := putFirst (fun candidate => candidate.id = member.id) member state.members }
        = next := by
  rw [applyMember]
  cases state.members.find? fun candidate => candidate.name = member.name <;>
    cases state.members.find? fun candidate => candidate.id = member.id <;>
    simp only [throw_eq, error_bind, pure_eq, guard_ok_iff, Except.ok.injEq] <;>
    simp [not_or, and_assoc]

theorem applyTask_ok_iff {task : TeamTaskSnapshot} :
    applyTask state task = .ok next ↔
      (match state.tasks.find? fun candidate => candidate.id = task.id with
        | none => task.revision = 1
        | some prior => task.revision = prior.revision + 1) ∧
      assertTaskGraphCandidate state.tasks task = .ok () ∧
      { state with
        nextTaskNumber := nextNumber state.nextTaskNumber task.id
        tasks := putFirst (fun candidate => candidate.id = task.id) task state.tasks } = next := by
  rw [applyTask]
  cases state.tasks.find? fun candidate => candidate.id = task.id <;>
    simp only [throw_eq, error_bind, pure_eq, guard_ok_iff, bind_ok_iff, mapError_ok_iff,
      Except.ok.injEq, Unique.exists_iff] <;>
    simp

theorem applyQueued_ok_iff {message : TeamMessageSnapshot} :
    applyQueued state message = .ok next ↔
      (∀ candidate ∈ state.messages, candidate.id ≠ message.id) ∧
      { state with messages := state.messages ++ [message] } = next := by
  rw [applyQueued]
  simp only [throw_eq, error_bind, pure_eq, guard_ok_iff, Except.ok.injEq]
  simp

theorem applyDelivered_ok_iff {messageId targetId : String} :
    applyDelivered state messageId targetId = .ok next ↔
      (∃ queued, (state.messages.find? fun message => message.id = messageId) = some queued ∧
        queued.targetId = targetId) ∧
      messageId ∉ state.delivered ∧
      { state with delivered := state.delivered ++ [messageId] } = next := by
  rw [applyDelivered]
  cases state.messages.find? fun message => message.id = messageId <;>
    simp only [throw_eq, error_bind, pure_eq, guard_ok_iff, Except.ok.injEq] <;>
    simp

theorem parseCurrentTeamEvent_ok_iff {data : TeamEventData} :
    parseCurrentTeamEvent event = .ok data ↔
      match event.data with
      | .member member => acceptsMember member = true ∧ data = .member member
      | .task task => acceptsTask task = true ∧ data = .task task
      | .queued message => ∃ rebuilt, readMessage message = some rebuilt ∧ data = .queued rebuilt
      | .delivered messageId targetId =>
        messageId ≠ "" ∧ targetId ≠ "" ∧ data = .delivered messageId targetId := by
  rw [parseCurrentTeamEvent]
  cases hdata : event.data with
  | member member => by_cases h : acceptsMember member <;> simp [h, eq_comm]
  | task task => by_cases h : acceptsTask task <;> simp [h, eq_comm]
  | queued message => cases h : readMessage message <;> simp [h, eq_comm]
  | delivered messageId targetId =>
    by_cases h : messageId ≠ "" ∧ targetId ≠ ""
    · simp [h, eq_comm]
    · simp only [h, if_false]
      simp only [not_and] at h
      constructor
      · intro herror
        cases herror
      · rintro ⟨hm, ht, -⟩
        exact absurd ht (h hm)

/-- A current event of the team itself. -/
theorem transition_ok_iff (hteam : event.teamId = state.id) (hversion : event.version = 2) :
    transition state event = .ok next ↔ state.id ≠ "" ∧
      ∃ data, parseCurrentTeamEvent event = .ok data ∧ applyCurrentTeamEvent state data = .ok next := by
  have hsafe : ¬Json.maxSafeInteger < 2 := by decide
  rw [transition]
  simp only [throw_eq, error_bind, guard_ok_iff, bind_ok_iff, hteam, hversion, hsafe, or_false,
    not_true_eq_false, ne_eq, if_false]

end Accepted

/-! ### Replacing an item -/

section PutFirst

variable {α : Type} {p : α → Bool} {item x : α} {xs before after : List α}

theorem putFirst_of_forall (h : ∀ x ∈ xs, p x = false) : putFirst p item xs = xs ++ [item] := by
  induction xs with
  | nil => rfl
  | cons x xs ih =>
    rw [List.forall_mem_cons] at h
    simp [putFirst, h.1, ih h.2]

theorem putFirst_of_split (hbefore : ∀ y ∈ before, p y = false) (hx : p x = true) :
    putFirst p item (before ++ x :: after) = before ++ item :: after := by
  induction before with
  | nil => simp [putFirst, hx]
  | cons y before ih =>
    rw [List.forall_mem_cons] at hbefore
    simp [putFirst, hbefore.1, ih hbefore.2]

theorem split_of_find? (h : xs.find? p = some x) :
    p x = true ∧ ∃ before after, xs = before ++ x :: after ∧ ∀ y ∈ before, p y = false := by
  obtain ⟨hx, before, after, rfl, hbefore⟩ := List.find?_eq_some_iff_append.mp h
  exact ⟨hx, before, after, rfl, by simpa using hbefore⟩

theorem mem_putFirst {y : α} (h : y ∈ putFirst p item xs) : y = item ∨ y ∈ xs := by
  induction xs with
  | nil => exact .inl (List.mem_singleton.mp h)
  | cons x xs ih =>
    rw [putFirst] at h
    split at h
    · rcases List.mem_cons.mp h with h | h
      · exact .inl h
      · exact .inr (List.mem_cons_of_mem _ h)
    · rcases List.mem_cons.mp h with h | h
      · exact .inr (h ▸ List.mem_cons_self)
      · exact (ih h).imp_right (List.mem_cons_of_mem _)

theorem self_mem_putFirst : item ∈ putFirst p item xs := by
  induction xs with
  | nil => simp [putFirst]
  | cons x xs ih =>
    rw [putFirst]
    split
    · simp
    · exact List.mem_cons_of_mem _ ih

end PutFirst

/-- Where the ids are distinct, validation sees the tasks as the projection stores them. -/
theorem taskValues_withCandidate {tasks : List TeamTaskSnapshot}
    (h : (tasks.map TeamTaskSnapshot.id).Nodup) (candidate : TeamTaskSnapshot) :
    taskValues (withCandidate tasks candidate)
      = putFirst (fun task => task.id = candidate.id) candidate tasks := by
  have hmap : taskMap tasks = tasks.map fun task => (task.id, task) := by
    have hentries : ∀ e ∈ tasks.map fun task => (task.id, task), e.2.id = e.1 := by simp
    have hfold := OrderedMap.foldl_set TeamTaskSnapshot.id hentries
      (show (OrderedMap.keys ([] ++ tasks.map fun task => (task.id, task))).Nodup by simpa [OrderedMap.keys, Function.comp_def] using h)
    simpa [taskMap, Function.comp_def] using hfold
  rw [withCandidate, hmap, taskValues]
  clear h hmap
  induction tasks with
  | nil => rfl
  | cons task tasks ih =>
    rw [List.map_cons, OrderedMap.set, putFirst]
    by_cases hid : task.id = candidate.id
    · simp [hid, Function.comp_def]
    · simp [hid, ih]

end Team

end TianmaCoder
