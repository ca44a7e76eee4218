import TianmaCoder.Lib.DepthFirst
import TianmaCoder.Lib.OrderedMap
import TianmaCoder.Team.Domain

/-!
# Dependency validation of task snapshots

The complete validation of the dependency graph of the tasks that are not deleted, after one
candidate snapshot has replaced the task of its id or joined the others. It checks the blockers
of each task on its own and then walks the graph depth first.

## Main definitions

* `assertTaskGraphCandidate` — the validation.
* `GraphLaw` — what a graph of tasks has to satisfy.

## Main results

* `assertTaskGraphCandidate_ok_iff` — the validation accepts exactly the graphs with the law.
-/

namespace TianmaCoder

namespace Team

open Relation

/-- Task dependency relation rejected by the graph validator. -/
inductive TeamTaskGraphViolation where
  | missing
  | duplicate
  | cycle
  deriving DecidableEq, Repr

/-- Task dependency failure retained for command error mapping. -/
structure TeamTaskGraphError where
  message : String
  violation : TeamTaskGraphViolation
  deriving DecidableEq, Repr

/-- Tasks by id, in insertion order. -/
abbrev TaskMap := OrderedMap String TeamTaskSnapshot

/-- `new Map(current.map(task => [task.id, task]))`. -/
def taskMap (current : List TeamTaskSnapshot) : TaskMap :=
  current.foldl (fun tasks task => OrderedMap.set task.id task tasks) []

/-- The tasks after replacing one candidate snapshot. -/
def withCandidate (current : List TeamTaskSnapshot) (candidate : TeamTaskSnapshot) : TaskMap :=
  OrderedMap.set candidate.id candidate (taskMap current)

/-- Check one blocker of a task, given the blockers checked before it. -/
def checkBlocker (tasks : TaskMap) (task : TeamTaskSnapshot) (seen : List String)
    (blockerId : String) : Except TeamTaskGraphError (List String) :=
  if blockerId = task.id then
    .error ⟨s!"team task \"{task.id}\" cannot block itself", .cycle⟩
  else if blockerId ∈ seen then
    .error ⟨s!"team task \"{task.id}\" repeats blocker \"{blockerId}\"", .duplicate⟩
  else
    match tasks.lookup blockerId with
    | none => .error ⟨s!"blocker task \"{blockerId}\" for \"{task.id}\" is missing or deleted", .missing⟩
    | some blocker =>
      if blocker.status = .deleted then
        .error ⟨s!"blocker task \"{blockerId}\" for \"{task.id}\" is missing or deleted", .missing⟩
      else .ok (seen ++ [blockerId])

/-- Check the blockers of one task that is not deleted. -/
def checkBlockers (tasks : TaskMap) (task : TeamTaskSnapshot) : Except TeamTaskGraphError Unit :=
  if task.status = .deleted then .ok ()
  else do
    let _ ← task.blockedBy.foldlM (checkBlocker tasks task) []
    .ok ()

/-- The blockers the walk follows; a missing or a deleted task is skipped. -/
def blockersOf (tasks : TaskMap) (id : String) : Option (List String) :=
  match tasks.lookup id with
  | none => none
  | some task => if task.status = .deleted then none else some task.blockedBy

/-- The failure of the walk. The walk visits each task at most once on a path, so the depth
bound is never met. -/
def walkFailure : DepthFirst.Stop String → TeamTaskGraphError
  | .cycle id => ⟨s!"task dependency cycle includes \"{id}\"", .cycle⟩
  | .depth => ⟨"task dependency walk exceeded its depth", .cycle⟩

/-- Validate the complete active task graph after replacing one candidate snapshot. -/
def assertTaskGraphCandidate (current : List TeamTaskSnapshot) (candidate : TeamTaskSnapshot) :
    Except TeamTaskGraphError Unit := do
  let tasks := withCandidate current candidate
  tasks.foldlM (fun _ entry => checkBlockers tasks entry.2) ()
  match DepthFirst.walk (blockersOf tasks) (tasks.length + 1) (OrderedMap.keys tasks) with
  | .error stop => .error (walkFailure stop)
  | .ok _ => .ok ()

/-! ### The law of the graph -/

/-- A task that is not deleted waits for another. -/
def Blocks (tasks : List TeamTaskSnapshot) (id blocker : String) : Prop :=
  ∃ task ∈ tasks, task.status ≠ .deleted ∧ task.id = id ∧ blocker ∈ task.blockedBy

/-- The tasks that are not deleted form an acyclic graph whose blockers exist, are not deleted
and are listed once. -/
structure GraphLaw (tasks : List TeamTaskSnapshot) : Prop where
  known : ∀ task ∈ tasks, task.status ≠ .deleted → ∀ id ∈ task.blockedBy,
    ∃ blocker ∈ tasks, blocker.id = id ∧ blocker.status ≠ .deleted
  once : ∀ task ∈ tasks, task.status ≠ .deleted → task.blockedBy.Nodup
  acyclic : ∀ id, ¬TransGen (Blocks tasks) id id

/-- Each task of a map is stored under its id. -/
structure Keyed (tasks : TaskMap) : Prop where
  nodup : (OrderedMap.keys tasks).Nodup
  id : ∀ entry ∈ tasks, entry.2.id = entry.1

/-- The tasks of a map, in order. -/
def taskValues (tasks : TaskMap) : List TeamTaskSnapshot := tasks.map Prod.snd

theorem Keyed.nil : Keyed [] where
  nodup := List.nodup_nil
  id := by simp

theorem Keyed.set {tasks : TaskMap} (h : Keyed tasks) (task : TeamTaskSnapshot) :
    Keyed (OrderedMap.set task.id task tasks) where
  nodup := OrderedMap.nodup_keys_set h.nodup _ _
  id := by
    intro entry hentry
    rcases OrderedMap.mem_set hentry with rfl | hold
    · rfl
    · exact h.id entry hold

theorem keyed_foldl {tasks : TaskMap} (h : Keyed tasks) (current : List TeamTaskSnapshot) :
    Keyed (current.foldl (fun tasks task => OrderedMap.set task.id task tasks) tasks) := by
  induction current generalizing tasks with
  | nil => exact h
  | cons task current ih => exact ih (h.set task)

theorem keyed_withCandidate (current : List TeamTaskSnapshot) (candidate : TeamTaskSnapshot) :
    Keyed (withCandidate current candidate) :=
  (keyed_foldl Keyed.nil current).set candidate

namespace Keyed

variable {tasks : TaskMap} (h : Keyed tasks)

include h

theorem lookup_eq_some_iff {id : String} {task : TeamTaskSnapshot} :
    tasks.lookup id = some task ↔ task ∈ taskValues tasks ∧ task.id = id := by
  rw [← OrderedMap.mem_iff_lookup h.nodup, taskValues, List.mem_map]
  constructor
  · intro hmem
    exact ⟨⟨(id, task), hmem, rfl⟩, h.id _ hmem⟩
  · rintro ⟨⟨entry, hentry, rfl⟩, rfl⟩
    rwa [h.id entry hentry]

theorem blockersOf_eq_some_iff {id : String} {blockers : List String} :
    blockersOf tasks id = some blockers ↔
      ∃ task ∈ taskValues tasks, task.status ≠ .deleted ∧ task.id = id ∧ task.blockedBy = blockers := by
  rw [blockersOf]
  constructor
  · intro hblockers
    cases hlookup : tasks.lookup id with
    | none =>
      rw [hlookup] at hblockers
      cases hblockers
    | some task =>
      simp only [hlookup] at hblockers
      by_cases hdeleted : task.status = .deleted
      · rw [if_pos hdeleted] at hblockers
        cases hblockers
      · rw [if_neg hdeleted, Option.some.injEq] at hblockers
        obtain ⟨hmem, hid⟩ := h.lookup_eq_some_iff.mp hlookup
        exact ⟨task, hmem, hdeleted, hid, hblockers⟩
  · rintro ⟨task, hmem, hlive, hid, rfl⟩
    rw [h.lookup_eq_some_iff.mpr ⟨hmem, hid⟩]
    simp [hlive]

/-- The walk follows the dependencies of the tasks that are not deleted. -/
theorem edge_iff {id blocker : String} :
    DepthFirst.Edge (blockersOf tasks) id blocker ↔ Blocks (taskValues tasks) id blocker := by
  constructor
  · rintro ⟨blockers, hblockers, hmem⟩
    obtain ⟨task, htask, hlive, hid, rfl⟩ := h.blockersOf_eq_some_iff.mp hblockers
    exact ⟨task, htask, hlive, hid, hmem⟩
  · rintro ⟨task, htask, hlive, hid, hmem⟩
    exact ⟨task.blockedBy, h.blockersOf_eq_some_iff.mpr ⟨task, htask, hlive, hid, rfl⟩, hmem⟩

theorem acyclic_iff :
    DepthFirst.Acyclic (blockersOf tasks) ↔ ∀ id, ¬TransGen (Blocks (taskValues tasks)) id id := by
  have hedge : DepthFirst.Edge (blockersOf tasks) = Blocks (taskValues tasks) := by
    ext id blocker
    exact h.edge_iff
  rw [DepthFirst.Acyclic, hedge]

theorem mem_keys_of_blockersOf (id : String) (hid : (blockersOf tasks id).isSome = true) :
    id ∈ OrderedMap.keys tasks := by
  obtain ⟨blockers, hblockers⟩ := Option.isSome_iff_exists.mp hid
  obtain ⟨task, htask, _, rfl, _⟩ := h.blockersOf_eq_some_iff.mp hblockers
  rw [OrderedMap.mem_keys_iff, h.lookup_eq_some_iff.mpr ⟨htask, rfl⟩, Option.isSome_some]

theorem checkBlocker_ok_iff {task : TeamTaskSnapshot} {seen seen' : List String} {id : String} :
    checkBlocker tasks task seen id = .ok seen' ↔
      (id ≠ task.id ∧ id ∉ seen ∧
        ∃ blocker ∈ taskValues tasks, blocker.id = id ∧ blocker.status ≠ .deleted) ∧
      seen' = seen ++ [id] := by
  rw [checkBlocker, Checked.guard_ok_iff, Checked.guard_ok_iff, and_assoc, and_assoc]
  refine and_congr_right fun _ => and_congr_right fun _ => ?_
  cases hlookup : tasks.lookup id with
  | none =>
    constructor
    · intro herror
      cases herror
    · rintro ⟨⟨blocker, hblocker, hid, -⟩, -⟩
      rw [h.lookup_eq_some_iff.mpr ⟨hblocker, hid⟩] at hlookup
      cases hlookup
  | some found =>
    obtain ⟨hfound, hid⟩ := h.lookup_eq_some_iff.mp hlookup
    dsimp only
    rw [Checked.guard_ok_iff, Except.ok.injEq]
    constructor
    · rintro ⟨hlive, rfl⟩
      exact ⟨⟨found, hfound, hid, hlive⟩, rfl⟩
    · rintro ⟨⟨blocker, hblocker, hid', hlive⟩, rfl⟩
      have hsame := h.lookup_eq_some_iff.mpr ⟨hblocker, hid'⟩
      rw [hlookup, Option.some.injEq] at hsame
      exact ⟨hsame ▸ hlive, rfl⟩

theorem checkBlockers_foldlM_iff (task : TeamTaskSnapshot) (seen : List String) (ids : List String) :
    (∃ seen', ids.foldlM (checkBlocker tasks task) seen = .ok seen') ↔
      (∀ id ∈ ids, id ≠ task.id ∧ id ∉ seen ∧
        ∃ blocker ∈ taskValues tasks, blocker.id = id ∧ blocker.status ≠ .deleted) ∧ ids.Nodup := by
  induction ids generalizing seen with
  | nil => simp
  | cons id ids ih =>
    simp only [List.foldlM_cons, Checked.bind_ok_iff, h.checkBlocker_ok_iff, List.forall_mem_cons,
      List.nodup_cons]
    constructor
    · rintro ⟨seen', _, ⟨hid, rfl⟩, hrest⟩
      obtain ⟨hids, hnodup⟩ := (ih _).mp ⟨seen', hrest⟩
      refine ⟨⟨hid, fun x hx => ?_⟩, fun hmem => ?_, hnodup⟩
      · obtain ⟨hself, hseen, hknown⟩ := hids x hx
        exact ⟨hself, fun hmem => hseen (List.mem_append_left _ hmem), hknown⟩
      · exact (hids id hmem).2.1 (by simp)
    · rintro ⟨⟨hid, hids⟩, hfresh, hnodup⟩
      have hrest : ∀ x ∈ ids, x ≠ task.id ∧ x ∉ seen ++ [id] ∧
          ∃ blocker ∈ taskValues tasks, blocker.id = x ∧ blocker.status ≠ .deleted := by
        intro x hx
        obtain ⟨hself, hseen, hknown⟩ := hids x hx
        refine ⟨hself, ?_, hknown⟩
        intro hmem
        rcases List.mem_append.mp hmem with hmem | hmem
        · exact hseen hmem
        · exact hfresh (List.mem_singleton.mp hmem ▸ hx)
      obtain ⟨seen', hseen'⟩ := (ih _).mpr ⟨hrest, hnodup⟩
      exact ⟨seen', _, ⟨hid, rfl⟩, hseen'⟩

theorem checkBlockers_ok_iff {task : TeamTaskSnapshot} :
    checkBlockers tasks task = .ok () ↔ (task.status ≠ .deleted →
      (∀ id ∈ task.blockedBy, id ≠ task.id ∧
        ∃ blocker ∈ taskValues tasks, blocker.id = id ∧ blocker.status ≠ .deleted) ∧
      task.blockedBy.Nodup) := by
  rw [checkBlockers]
  by_cases hdeleted : task.status = .deleted
  · simp [hdeleted]
  · have hloop := h.checkBlockers_foldlM_iff task [] task.blockedBy
    simp only [List.not_mem_nil, not_false_eq_true, true_and] at hloop
    rw [if_neg hdeleted, ← hloop, Checked.bind_ok_iff]
    simp [hdeleted]

end Keyed

theorem foldlM_unit_ok_iff {ε α : Type} (check : α → Except ε Unit) (xs : List α) :
    xs.foldlM (fun _ x => check x) () = .ok () ↔ ∀ x ∈ xs, check x = .ok () := by
  induction xs with
  | nil => simp
  | cons x xs ih =>
    rw [List.foldlM_cons, Checked.bind_ok_iff, List.forall_mem_cons, ← ih]
    constructor
    · rintro ⟨⟨⟩, hx, hxs⟩
      exact ⟨hx, hxs⟩
    · rintro ⟨hx, hxs⟩
      exact ⟨(), hx, hxs⟩

theorem assertTaskGraphCandidate_ok_iff (current : List TeamTaskSnapshot)
    (candidate : TeamTaskSnapshot) :
    assertTaskGraphCandidate current candidate = .ok () ↔
      GraphLaw (taskValues (withCandidate current candidate)) := by
  have hkeyed := keyed_withCandidate current candidate
  have hwalk := DepthFirst.walk_ok_iff hkeyed.mem_keys_of_blockersOf
    (show (OrderedMap.keys (withCandidate current candidate)).length
      < (withCandidate current candidate).length + 1 by simp [OrderedMap.keys])
  have hassert : assertTaskGraphCandidate current candidate = .ok () ↔
      (∀ task ∈ taskValues (withCandidate current candidate),
        checkBlockers (withCandidate current candidate) task = .ok ()) ∧
      DepthFirst.Acyclic (blockersOf (withCandidate current candidate)) := by
    have hloop := foldlM_unit_ok_iff
      (fun entry : String × TeamTaskSnapshot => checkBlockers (withCandidate current candidate) entry.2)
      (withCandidate current candidate)
    rw [assertTaskGraphCandidate, Checked.bind_ok_iff, ← hwalk, taskValues, List.forall_mem_map,
      ← hloop]
    constructor
    · rintro ⟨⟨⟩, hchecks, hrest⟩
      refine ⟨hchecks, ?_⟩
      split at hrest
      · cases hrest
      · exact ⟨_, by assumption⟩
    · rintro ⟨hchecks, marks, hmarks⟩
      refine ⟨(), hchecks, ?_⟩
      rw [hmarks]
  simp only [hassert, hkeyed.checkBlockers_ok_iff, hkeyed.acyclic_iff]
  constructor
  · rintro ⟨hchecks, hacyclic⟩
    constructor
    · intro task htask hlive id hid
      exact ((hchecks task htask hlive).1 id hid).2
    · intro task htask hlive
      exact (hchecks task htask hlive).2
    · exact hacyclic
  · intro hlaw
    refine ⟨fun task htask hlive => ⟨fun id hid => ⟨?_, ?_⟩, ?_⟩, hlaw.acyclic⟩
    · rintro rfl
      exact hlaw.acyclic task.id (.single ⟨task, htask, hlive, rfl, hid⟩)
    · exact hlaw.known task htask hlive id hid
    · exact hlaw.once task htask hlive

end Team

end TianmaCoder
