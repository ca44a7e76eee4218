import TianmaCoder.Team.Journal

/-!
# The laws of the task board

What holds of the tasks in every state of a journal, whatever its members call and whenever the
flushes settle: the graph of the tasks, their number, their owners, and that a revision is
followed once.

## Main definitions

* `BoardLaw` — the laws of one board.
* `Evolves` — how a board changes in one step.

## Main results

* `board_laws_hold`.
-/

namespace TianmaCoder

namespace Team

/-- The laws of a board with room for `maxTasks` tasks. -/
structure BoardLaw (maxTasks : ℕ) (tasks : List TeamTaskSnapshot) : Prop where
  graph : GraphLaw tasks
  ids : (tasks.map TeamTaskSnapshot.id).Nodup
  limit : (activeTasks tasks).length ≤ maxTasks
  unowned : ∀ task ∈ tasks, task.status = .pending → task.ownerId = none
  owned : ∀ task ∈ tasks, task.status = .inProgress → task.ownerId.isSome = true

/-- How a board changes: a task stays where it is and keeps its id, its revision stays or grows
by one, and a new task stands behind the others at its first revision. -/
structure Evolves (old new : List TeamTaskSnapshot) : Prop where
  kept : ∀ (i : ℕ) (task : TeamTaskSnapshot), old[i]? = some task →
    ∃ next : TeamTaskSnapshot, new[i]? = some next ∧ next.id = task.id ∧
      (next = task ∨ next.revision = task.revision + 1)
  added : ∀ (i : ℕ) (next : TeamTaskSnapshot), new[i]? = some next → old.length ≤ i →
    next.revision = 1

theorem Evolves.refl (tasks : List TeamTaskSnapshot) : Evolves tasks tasks where
  kept i task h := ⟨task, h, rfl, .inl rfl⟩
  added i next h hi := by
    rw [List.getElem?_eq_none hi] at h
    cases h

variable {task : TeamTaskSnapshot}

theorem Evolves.create (tasks : List TeamTaskSnapshot) (h : task.revision = 1) :
    Evolves tasks (tasks ++ [task]) where
  kept i old hold := by
    refine ⟨old, ?_, rfl, .inl rfl⟩
    rw [List.getElem?_append_left (List.getElem?_eq_some_iff.mp hold).1]
    exact hold
  added i next hnext hi := by
    rw [List.getElem?_append_right hi] at hnext
    have hmem := List.mem_of_getElem? hnext
    rw [List.mem_singleton.mp hmem]
    exact h

variable {current : TeamTaskSnapshot}

theorem Evolves.update {before after : List TeamTaskSnapshot} (hid : task.id = current.id)
    (hrevision : task.revision = current.revision + 1) :
    Evolves (before ++ current :: after) (before ++ task :: after) where
  kept i old hold := by
    by_cases hi : i = before.length
    · subst hi
      simp only [List.getElem?_append_right (Nat.le_refl _), Nat.sub_self, List.getElem?_cons_zero,
        Option.some.injEq] at hold
      subst hold
      exact ⟨task, by simp, hid, .inr hrevision⟩
    · refine ⟨old, ?_, rfl, .inl rfl⟩
      rw [← hold]
      rcases Nat.lt_or_gt_of_ne hi with hlt | hgt
      · rw [List.getElem?_append_left hlt, List.getElem?_append_left hlt]
      · obtain ⟨k, rfl⟩ := Nat.exists_eq_add_of_lt hgt
        simp [List.getElem?_append_right, Nat.add_assoc]
  added i next hnext hi := by
    rw [List.getElem?_eq_none (by simpa using hi)] at hnext
    cases hnext

variable {maxTasks : ℕ} {rootId callerId : String} {state : TeamState} {task : TeamTaskSnapshot}

theorem BoardLaw.nil (maxTasks : ℕ) : BoardLaw maxTasks [] where
  graph := by
    constructor
    · simp
    · simp
    · intro id hcycle
      obtain ⟨_, ⟨task, htask, -⟩, -⟩ := Relation.TransGen.head'_iff.mp hcycle
      cases htask
  ids := List.nodup_nil
  limit := Nat.zero_le _
  unowned := by simp
  owned := by simp

/-- The validation of a command looks at the board that the projection stores. -/
theorem BoardLaw.graph_putFirst (h : BoardLaw maxTasks state.tasks)
    (hgraph : assertTaskGraphCandidate state.tasks task = .ok ()) :
    GraphLaw (putFirst (fun other => other.id = task.id) task state.tasks) := by
  rw [← taskValues_withCandidate h.ids]
  exact (assertTaskGraphCandidate_ok_iff _ _).mp hgraph

theorem BoardLaw.create (h : BoardLaw maxTasks state.tasks) (hc : Created maxTasks state task) :
    BoardLaw maxTasks (putFirst (fun other => other.id = task.id) task state.tasks) ∧
      Evolves state.tasks (putFirst (fun other => other.id = task.id) task state.tasks) := by
  have hgraph := h.graph_putFirst hc.graph
  have happend : putFirst (fun other => other.id = task.id) task state.tasks
      = state.tasks ++ [task] := by
    refine putFirst_of_forall ?_
    intro other hother
    simpa using hc.fresh other hother
  rw [happend] at hgraph ⊢
  refine ⟨?_, Evolves.create _ hc.revision⟩
  constructor
  · exact hgraph
  · rw [List.map_append, List.map_singleton]
    refine List.Nodup.append h.ids (List.nodup_singleton _) ?_
    intro id hid hmem
    obtain ⟨other, hother, rfl⟩ := List.mem_map.mp hid
    exact hc.fresh other hother (List.mem_singleton.mp hmem)
  · have hroom := hc.room
    simp only [activeTasks, List.filter_append, List.length_append] at hroom ⊢
    have hone := List.length_filter_le (fun task : TeamTaskSnapshot => task.status ≠ .deleted) [task]
    rw [List.length_singleton] at hone
    omega
  · intro other hother hpending
    rcases List.mem_append.mp hother with hother | hother
    · exact h.unowned other hother hpending
    · rw [List.mem_singleton.mp hother]
      exact hc.owner
  · intro other hother hprogress
    rcases List.mem_append.mp hother with hother | hother
    · exact h.owned other hother hprogress
    · rw [List.mem_singleton.mp hother, hc.status] at hprogress
      cases hprogress

theorem BoardLaw.update (h : BoardLaw maxTasks state.tasks) {request : UpdateTeamTaskRequest}
    (hu : Updated rootId callerId state request current task) :
    BoardLaw maxTasks (putFirst (fun other => other.id = task.id) task state.tasks) ∧
      Evolves state.tasks (putFirst (fun other => other.id = task.id) task state.tasks) := by
  have hgraph := h.graph_putFirst hu.graph
  obtain ⟨hmatch, before, after, hsplit, hbefore⟩ := split_of_find? hu.found
  have hid : task.id = current.id := hu.advanced.id
  have hrequest : current.id = request.taskId := by simpa using hmatch
  have hput : putFirst (fun other => other.id = task.id) task state.tasks
      = before ++ task :: after := by
    rw [hsplit]
    refine putFirst_of_split ?_ (by simp [hid])
    intro other hother
    simpa [hid, hrequest] using hbefore other hother
  have hids := h.ids
  have hlimit := h.limit
  have hcurrent : current ∈ state.tasks := by simp [hsplit]
  have hold : ∀ other ∈ before ++ task :: after, other = task ∨ other ∈ state.tasks := by
    intro other hother
    rw [hsplit]
    simp only [List.mem_append, List.mem_cons] at hother ⊢
    tauto
  rw [hput] at hgraph ⊢
  rw [hsplit] at hids hlimit
  refine ⟨?_, hsplit ▸ Evolves.update hid hu.revision⟩
  constructor
  · exact hgraph
  · simpa [hid] using hids
  · have hlive := hu.live
    simp only [activeTasks, List.filter_append, List.length_append, List.filter_cons, ne_eq, hlive,
      not_false_eq_true, decide_true, if_true, List.length_cons] at hlimit ⊢
    split
    · rw [List.length_cons]
      exact hlimit
    · omega
  · intro other hother hpending
    rcases hold other hother with rfl | hother
    · rcases hu.advanced.status with ⟨hstatus, howner⟩ | ⟨hstatus, -⟩ | ⟨-, howner⟩ | hstatus | hstatus
      · rw [howner]
        exact h.unowned current hcurrent (hstatus ▸ hpending)
      · rw [hstatus] at hpending
        cases hpending
      · exact howner
      · rw [hstatus] at hpending
        cases hpending
      · rw [hstatus] at hpending
        cases hpending
    · exact h.unowned other hother hpending
  · intro other hother hprogress
    rcases hold other hother with rfl | hother
    · rcases hu.advanced.status with ⟨hstatus, howner⟩ | ⟨-, howner⟩ | ⟨hstatus, -⟩ | hstatus | hstatus
      · rw [howner]
        exact h.owned current hcurrent (hstatus ▸ hprogress)
      · exact howner
      · rw [hstatus] at hprogress
        cases hprogress
      · rw [hstatus] at hprogress
        cases hprogress
      · rw [hstatus] at hprogress
        cases hprogress
    · exact h.owned other hother hprogress

/-! ### Events -/

open Checked

theorem tasks_of_applyCurrentTeamEvent {next : TeamState} {data : TeamEventData}
    (h : applyCurrentTeamEvent state data = .ok next) :
    next.tasks = state.tasks ∨ ∃ task, data = .task task ∧
      next.tasks = putFirst (fun other => other.id = task.id) task state.tasks := by
  cases data with
  | member member =>
    obtain ⟨-, -, rfl⟩ := applyMember_ok_iff.mp h
    exact .inl rfl
  | task task =>
    obtain ⟨-, -, rfl⟩ := applyTask_ok_iff.mp h
    exact .inr ⟨task, rfl, rfl⟩
  | queued message =>
    obtain ⟨-, rfl⟩ := applyQueued_ok_iff.mp h
    exact .inl rfl
  | delivered messageId targetId =>
    obtain ⟨-, -, rfl⟩ := applyDelivered_ok_iff.mp h
    exact .inl rfl

theorem task_of_parseCurrentTeamEvent {event : TeamEvent}
    (h : parseCurrentTeamEvent event = .ok (.task task)) : event.data = .task task := by
  rw [parseCurrentTeamEvent_ok_iff] at h
  cases hdata : event.data with
  | member member => simp [hdata] at h
  | task other =>
    simp only [hdata, TeamEventData.task.injEq] at h
    rw [h.2]
  | queued message => simp [hdata] at h
  | delivered messageId targetId => simp [hdata] at h

theorem tasks_of_applyProjectionEvent (projection : TeamProjectionState) (data : TeamEventData) :
    ((applyProjectionEvent projection ⟨2, projection.id, data⟩).tasks = projection.tasks ∧
      ((applyProjectionEvent projection ⟨2, projection.id, data⟩).failure.isSome = true ∨
        ∀ task, data ≠ .task task)) ∨
      ∃ task, data = .task task ∧ (applyProjectionEvent projection ⟨2, projection.id, data⟩).tasks
        = putFirst (fun other => other.id = task.id) task projection.tasks := by
  rw [applyProjectionEvent]
  split
  · next hfailed => exact .inl ⟨rfl, .inl hfailed⟩
  · cases htransition : transition projection.toTeamState ⟨2, projection.id, data⟩ with
    | error failure => exact .inl ⟨rfl, .inl rfl⟩
    | ok next =>
      rw [transition_ok_iff rfl rfl] at htransition
      obtain ⟨-, decoded, hdecoded, happly⟩ := htransition
      rcases tasks_of_applyCurrentTeamEvent happly with htasks | ⟨task, rfl, htasks⟩
      · by_cases htask : ∃ task, data = .task task
        · obtain ⟨task, rfl⟩ := htask
          obtain ⟨-, rfl⟩ := parseCurrentTeamEvent_ok_iff.mp hdecoded
          obtain ⟨-, -, rfl⟩ := applyTask_ok_iff.mp happly
          exact .inr ⟨task, rfl, rfl⟩
        · exact .inl ⟨htasks, .inr fun task hdata => htask ⟨task, hdata⟩⟩
      · exact .inr ⟨task, task_of_parseCurrentTeamEvent hdecoded, htasks⟩

theorem id_of_applyProjectionEvent (projection : TeamProjectionState) (event : TeamEvent) :
    (applyProjectionEvent projection event).id = projection.id := by
  rw [applyProjectionEvent]
  split
  · rfl
  · cases htransition : transition projection.toTeamState event with
    | error failure => rfl
    | ok next =>
      rw [transition] at htransition
      simp only [throw_eq, error_bind, pure_eq, guard_ok_iff] at htransition
      obtain ⟨-, htransition⟩ := htransition
      by_cases hother : event.teamId ≠ projection.id
      · rw [if_pos hother, Except.ok.injEq] at htransition
        exact htransition ▸ rfl
      · rw [if_neg hother, guard_ok_iff, bind_ok_iff] at htransition
        obtain ⟨-, data, -, happly⟩ := htransition
        cases data with
        | member member =>
          obtain ⟨-, -, rfl⟩ := applyMember_ok_iff.mp happly
          rfl
        | task task =>
          obtain ⟨-, -, rfl⟩ := applyTask_ok_iff.mp happly
          rfl
        | queued message =>
          obtain ⟨-, rfl⟩ := applyQueued_ok_iff.mp happly
          rfl
        | delivered messageId targetId =>
          obtain ⟨-, -, rfl⟩ := applyDelivered_ok_iff.mp happly
          rfl

/-! ### Runs -/

/-- The task and the expected revision of an update. -/
def updateKey : Command → Option (String × ℕ)
  | .updateTask _ _ request => some (request.taskId, request.expectedRevision)
  | _ => none

/-- The task and the expected revision of an update that has succeeded. -/
def successKey : Command × Except CommandFailure Unit → Option (String × ℕ)
  | (command, .ok _) => updateKey command
  | (_, .error _) => none

/-- The updates that have succeeded, by task and expected revision. -/
def World.succeeded (w : World) : List (String × ℕ) := w.settled.filterMap successKey

/-- The updates that have succeeded, and the one that is being made durable. -/
def World.committed (w : World) : List (String × ℕ) :=
  w.succeeded ++ (w.flushing.bind updateKey).toList

section Runs

variable [NumberText] {config : Config} {w w' : World} {action : Action}

variable {command : Command}

/-- An update appends a task event or rejects. -/
theorem body_of_updateKey {uuid : String} {data : Option TeamEventData} {key : String × ℕ}
    (hkey : updateKey command = some key) (h : command.body config rootId uuid state = .ok data) :
    ∃ callerId membership request task, command = .updateTask callerId membership request ∧
      key = (request.taskId, request.expectedRevision) ∧ data = some (.task task) ∧
      updateTask rootId callerId membership request state = .ok task := by
  cases command with
  | updateTask callerId membership request =>
    simp only [Command.body, bind_ok_iff, pure_eq, Except.ok.injEq] at h
    obtain ⟨task, htask, rfl⟩ := h
    cases hkey
    exact ⟨callerId, membership, request, task, rfl, rfl, rfl, htask⟩
  | _ => cases hkey

theorem updateKey_of_body_none {uuid : String}
    (h : command.body config rootId uuid state = .ok none) : updateKey command = none := by
  by_contra hsome
  obtain ⟨key, hkey⟩ := Option.ne_none_iff_exists'.mp hsome
  obtain ⟨_, _, _, _, -, -, hdata, -⟩ := body_of_updateKey hkey h
  cases hdata

/-- The two kinds of steps: the projection stays and no update is committed, or the first waiting
operation appends its event. -/
theorem World.step_cases (h : w.step config action = some w') :
    (w'.projection = w.projection ∧ w'.rootId = w.rootId ∧ w'.log = w.log ∧
      w'.committed.Sublist w.committed ∧
      ∀ aborted uuid, action = .run aborted uuid → w'.flushing = none) ∨
    ∃ aborted uuid command rest data, action = .run aborted uuid ∧ w.waiting = command :: rest ∧
      w.flushing = none ∧ w.Fresh uuid ∧
      command.execute config w.rootId uuid aborted w.projection = .ok (some data) ∧
      w' = { ({ w with waiting := rest, issued := w.issued ++ [uuid] } : World).append data with
        flushing := some command } := by
  cases action with
  | run aborted uuid =>
    obtain ⟨command, rest, hflushing, hwaiting, hfresh, h⟩ := World.run_cases h
    rcases h with ⟨result, hnone, hresult, rfl⟩ | ⟨data, hexecute, rfl⟩
    · left
      refine ⟨rfl, rfl, rfl, ?_, fun _ _ _ => hflushing⟩
      have hkey : successKey (command, result) = none := by
        rw [hresult]
        cases hexecute : command.execute config w.rootId uuid aborted w.projection with
        | error failure => rfl
        | ok data =>
          cases data with
          | none => exact updateKey_of_body_none (execute_ok hexecute).2
          | some data => exact absurd hexecute (hnone data)
      simp [World.committed, World.succeeded, World.settle, hkey, hflushing]
    · exact .inr ⟨aborted, uuid, command, rest, data, rfl, hwaiting, hflushing, hfresh, hexecute, rfl⟩
  | flushed ok =>
    left
    rw [World.step] at h
    cases hflushing : w.flushing with
    | none => simp [hflushing] at h
    | some command =>
      simp only [hflushing, Option.some.injEq] at h
      subst h
      cases ok with
      | true =>
        cases command <;>
          simp [World.finishFlush, World.committed, World.succeeded, World.settle, successKey,
            updateKey, hflushing]
      | false =>
        simp [World.finishFlush, World.committed, World.succeeded, World.settle, successKey,
          hflushing]
  | createTask callerId request =>
    left
    rw [World.step] at h
    split at h <;> cases h <;> exact ⟨rfl, rfl, rfl, List.Sublist.refl _, by simp⟩
  | updateTask callerId request =>
    left
    rw [World.step] at h
    split at h <;> cases h <;> exact ⟨rfl, rfl, rfl, List.Sublist.refl _, by simp⟩
  | spawnTeammate callerId request uuid =>
    left
    rw [World.step] at h
    split at h
    · split at h
      · cases h
        exact ⟨rfl, rfl, rfl, List.Sublist.refl _, by simp⟩
      · split at h <;> cases h <;> exact ⟨rfl, rfl, rfl, List.Sublist.refl _, by simp⟩
    · cases h
  | sendMessage callerId target content =>
    left
    rw [World.step] at h
    split at h <;> cases h <;> exact ⟨rfl, rfl, rfl, List.Sublist.refl _, by simp⟩
  | started member failure =>
    left
    rw [World.step] at h
    split at h <;> cases h
    exact ⟨rfl, rfl, rfl, List.Sublist.refl _, by simp⟩
  | reconcile memberId failure =>
    cases h
    exact .inl ⟨rfl, rfl, rfl, List.Sublist.refl _, by simp⟩
  | acknowledge messageId targetId =>
    cases h
    exact .inl ⟨rfl, rfl, rfl, List.Sublist.refl _, by simp⟩

/-- What holds in every reached journal: the laws of the board, and that every committed update
was of an earlier revision. -/
structure Kept (config : Config) (w : World) : Prop where
  team : w.projection.id = w.rootId
  board : BoardLaw config.maxTasks w.projection.tasks
  once : w.committed.Nodup
  passed : w.projection.failure = none → ∀ key ∈ w.committed,
    ∃ task ∈ w.projection.tasks, task.id = key.1 ∧ key.2 < task.revision

omit [NumberText] in
theorem Kept.init (config : Config) (rootId : String) : Kept config (World.init rootId) where
  team := rfl
  board := BoardLaw.nil _
  once := List.nodup_nil
  passed _ := by simp [World.committed, World.succeeded, World.init]

omit [NumberText] in
/-- A task passes its revisions upwards. -/
theorem Evolves.passed {old new : List TeamTaskSnapshot} (h : Evolves old new) {key : String × ℕ}
    (hkey : ∃ task ∈ old, task.id = key.1 ∧ key.2 < task.revision) :
    ∃ task ∈ new, task.id = key.1 ∧ key.2 < task.revision := by
  obtain ⟨task, htask, hid, hlt⟩ := hkey
  obtain ⟨i, hi, hget⟩ := List.mem_iff_getElem.mp htask
  obtain ⟨next, hnext, hnextId, hrevision⟩ := h.kept i task (List.getElem?_eq_some_iff.mpr ⟨hi, hget⟩)
  refine ⟨next, List.mem_of_getElem? hnext, hnextId.trans hid, ?_⟩
  rcases hrevision with rfl | hrevision
  · exact hlt
  · omega

omit [NumberText] in
theorem Kept.fresh (h : Kept config w) (hfailure : w.projection.failure = none)
    {request : UpdateTeamTaskRequest}
    (hu : Updated rootId callerId w.projection.toTeamState request current task) :
    (request.taskId, request.expectedRevision) ∉ w.committed := by
  intro hmem
  obtain ⟨other, hother, hid, hlt⟩ := h.passed hfailure _ hmem
  obtain ⟨hcurrent, hcurrentId⟩ := findTask_eq_some hu.found
  have hsame : other = current :=
    List.inj_on_of_nodup_map h.board.ids hother hcurrent (hid.trans hcurrentId.symm)
  have hexpected := hu.expected
  rw [hsame] at hlt
  omega

/-- What one append does to the board and to the committed updates. -/
theorem Kept.append (h : Kept config w) (hflushing : w.flushing = none) {rest : List Command}
    {uuid : String} {data : TeamEventData} (hfailure : w.projection.failure = none)
    (hbody : command.body config w.rootId uuid w.projection.toTeamState = .ok (some data))
    {t : World}
    (ht : t = { ({ w with waiting := rest, issued := w.issued ++ [uuid] } : World).append data with
      flushing := some command }) :
    Kept config t ∧ Evolves w.projection.tasks t.projection.tasks := by
  have hprojection : t.projection = applyProjectionEvent w.projection ⟨2, w.projection.id, data⟩ := by
    rw [ht, h.team]
    rfl
  have hold : w.committed = w.succeeded := by simp [World.committed, hflushing]
  have hcommitted : t.committed = w.committed ++ (updateKey command).toList := by
    rw [hold, ht]
    rfl
  have hteam : t.projection.id = t.rootId := by
    rw [hprojection, id_of_applyProjectionEvent, h.team, ht]
    rfl
  -- an update is committed after those of the revisions before
  have honce : t.committed.Nodup := by
    rw [hcommitted]
    cases hkey : updateKey command with
    | none => simpa using h.once
    | some key =>
      obtain ⟨callerId, membership, request, task, -, rfl, -, hupdate⟩ := body_of_updateKey hkey hbody
      obtain ⟨current, hu⟩ := updateTask_ok hupdate
      refine List.Nodup.append h.once (List.nodup_singleton _) ?_
      simpa using h.fresh hfailure hu
  rcases tasks_of_applyProjectionEvent w.projection data with ⟨htasks, hkind⟩ | ⟨task, rfl, htasks⟩
  · rw [← hprojection] at htasks hkind
    refine ⟨?_, htasks ▸ Evolves.refl _⟩
    constructor
    · exact hteam
    · exact htasks ▸ h.board
    · exact honce
    · intro hnone key hmem
      rcases hkind with hfailed | hother
      · rw [hnone] at hfailed
        cases hfailed
      · have hkey : updateKey command = none := by
          by_contra hsome
          obtain ⟨key', hkey'⟩ := Option.ne_none_iff_exists'.mp hsome
          obtain ⟨_, _, _, task, -, -, hdata, -⟩ := body_of_updateKey hkey' hbody
          exact hother task (Option.some.inj hdata)
        rw [hcommitted, hkey, Option.toList_none, List.append_nil] at hmem
        rw [htasks]
        exact h.passed hfailure key hmem
  · rw [← hprojection] at htasks
    rcases body_task hbody with ⟨request, rfl, hcreate⟩ | ⟨callerId, membership, request, rfl, hupdate⟩
    · obtain ⟨hboard, hevolves⟩ := h.board.create (createTask_ok hcreate)
      rw [← htasks] at hboard hevolves
      refine ⟨⟨hteam, hboard, honce, ?_⟩, hevolves⟩
      intro _ key hmem
      rw [hcommitted] at hmem
      exact hevolves.passed (h.passed hfailure key (by simpa [updateKey] using hmem))
    · obtain ⟨current, hu⟩ := updateTask_ok hupdate
      obtain ⟨hboard, hevolves⟩ := h.board.update hu
      have hmemTask : task ∈ putFirst (fun other => other.id = task.id) task w.projection.tasks :=
        self_mem_putFirst
      rw [← htasks] at hboard hevolves hmemTask
      refine ⟨⟨hteam, hboard, honce, ?_⟩, hevolves⟩
      intro _ key hmem
      rw [hcommitted] at hmem
      rcases List.mem_append.mp hmem with hmem | hmem
      · exact hevolves.passed (h.passed hfailure key hmem)
      · simp only [updateKey, Option.toList_some, List.mem_singleton] at hmem
        subst hmem
        refine ⟨task, hmemTask, ?_, ?_⟩
        · exact hu.advanced.id.trans (findTask_eq_some hu.found).2
        · have hexpected := hu.expected
          have hrevision := hu.revision
          dsimp only
          omega

/-- One step keeps the laws, and the board evolves. -/
theorem Kept.step (h : Kept config w) (hstep : w.step config action = some w') :
    Kept config w' ∧ Evolves w.projection.tasks w'.projection.tasks := by
  rcases World.step_cases hstep with ⟨hprojection, hroot, -, hsub, -⟩ |
    ⟨aborted, uuid, command, rest, data, -, -, hflushing, -, hexecute, ht⟩
  · refine ⟨?_, hprojection ▸ Evolves.refl _⟩
    constructor
    · rw [hprojection, hroot, h.team]
    · exact hprojection ▸ h.board
    · exact hsub.nodup h.once
    · rw [hprojection]
      intro hfailure key hkey
      exact h.passed hfailure key (hsub.subset hkey)
  · obtain ⟨hfailure, hbody⟩ := execute_ok hexecute
    exact h.append hflushing hfailure hbody ht

theorem Kept.run {actions : List Action}
    (hrun : Transition.run (World.step config) (World.init rootId) actions = some w) :
    Kept config w :=
  Transition.run_induction (fun _ _ _ hs hstep => (hs.step hstep).1) (Kept.init config rootId) hrun

/-- The laws of the task board, in every state reached by any interleaving of the calls of the
members: the board obeys its laws, of the updates with one expected revision at most one has
succeeded, a task keeps its place and its id while its revision grows by one, a claim is accepted
only at a moment at which the task is claimable, and the validation rejects a candidate exactly
when the graph with it would break the law. -/
theorem board_laws_hold {rootId : String} {actions : List Action}
    (hrun : Transition.run (World.step config) (World.init rootId) actions = some w) :
    BoardLaw config.maxTasks w.projection.tasks ∧ w.succeeded.Nodup ∧
    (∀ action w', w.step config action = some w' →
      Evolves w.projection.tasks w'.projection.tasks ∧
      ∀ aborted uuid callerId membership request rest, action = .run aborted uuid →
        w.waiting = .updateTask callerId membership request :: rest → request.action = .claim →
        w'.flushing.isSome = true →
        ∃ current, Claimable w.projection.toTeamState request.taskId callerId current) ∧
    ∀ current candidate, (∃ error, assertTaskGraphCandidate current candidate = .error error) ↔
      ¬GraphLaw (taskValues (withCandidate current candidate)) := by
  have hkept := Kept.run hrun
  refine ⟨hkept.board, ?_, ?_, ?_⟩
  · exact (List.nodup_append.mp hkept.once).1
  · intro action w' hstep
    refine ⟨(hkept.step hstep).2, ?_⟩
    rintro aborted uuid callerId membership request rest rfl hwaiting hclaim hflushing
    rcases World.step_cases hstep with ⟨-, -, -, -, hidle⟩ |
      ⟨_, _, command, _, data, hrun', hwaiting', -, -, hexecute, -⟩
    · rw [hidle aborted uuid rfl] at hflushing
      cases hflushing
    · rw [hwaiting] at hwaiting'
      cases hwaiting'
      cases hrun'
      obtain ⟨-, hbody⟩ := execute_ok hexecute
      obtain ⟨_, _, _, task, hcommand, -, -, hupdate⟩ := body_of_updateKey rfl hbody
      cases hcommand
      exact updateTask_claim hclaim hupdate
  · intro current candidate
    rw [← assertTaskGraphCandidate_ok_iff]
    cases assertTaskGraphCandidate current candidate <;> simp

end Runs

/-- A lead that creates a task and claims it. -/
theorem board_laws_hold_claimed : let config : Config := ⟨4, 4, 4, 1000⟩
    let _ : NumberText := ⟨fun _ => 0, fun _ => 0⟩
    let actions : List Action := [.createTask "root" ⟨"map", "map the code", none, none⟩,
      .run false "u", .flushed true,
      .updateTask "root" ⟨"task-1", 1, .claim, none, none, none, none, none⟩, .run false "v",
      .flushed true]
    ∃ w, Transition.run (World.step config) (World.init "root") actions = some w ∧
      w.succeeded = [("task-1", 1)] ∧ BoardLaw config.maxTasks w.projection.tasks := by
  intro config _ actions
  have hrun : (Transition.run (World.step config) (World.init "root") actions).isSome = true := by
    decide
  obtain ⟨w, hw⟩ := Option.isSome_iff_exists.mp hrun
  have hsucceeded : (Transition.run (World.step config) (World.init "root") actions).map
      World.succeeded = some [("task-1", 1)] := by decide
  rw [hw, Option.map_some, Option.some.injEq] at hsucceeded
  exact ⟨w, hw, hsucceeded, (board_laws_hold hw).1⟩

end Team

end TianmaCoder
