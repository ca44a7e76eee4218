import TianmaCoder.Lib.Heap
import TianmaCoder.Lib.Json

/-!
# The walk over a script value

A value is validated as JSON, and copied if asked, by a loop over a stack of tasks: the objects on
the way down are kept aside, so that a cycle is met again and refused. A value is a scalar or a
reference to an object; the objects that are copied to are in a heap of their own, since nothing
but the copy refers to them. Whether the prototype of an object is an intrinsic one is a property of
the object here.

## Main definitions

* `JsonWalk.step`, `JsonWalk.run` — the loop.
* `JsonWalk.Reaches`, `JsonWalk.Refuses` — what a long enough run does.

## Main results

* `JsonWalk.run_forget` — the loop goes the same way whether it copies or not.
-/

namespace TianmaCoder

namespace JsonWalk

/-! ## Values -/

/-- A script value; `foreign` stands for functions, symbols and big integers. -/
inductive ScriptValue where
  | undefined
  | null
  | bool (b : Bool)
  | nan
  | posInfinity
  | negInfinity
  | negZero
  | int (n : ℤ)
  | float (bits : ℕ)
  | str (s : String)
  | foreign
  | ref (r : ℕ)
  deriving DecidableEq

/-- Own enumerable members under string keys. -/
structure OwnMembers where
  entries : OrderedMap String ScriptValue
  nodup : (OrderedMap.keys entries).Nodup

/-- An object: an array with its items, where `none` is a hole, or a record. `extraKeys` counts the
other own keys of an array but its length, `hidden` the own keys of a record that are symbols or not
enumerable; `plain` tells an intrinsic prototype. -/
inductive ScriptObject where
  | array (items : List (Option ScriptValue)) (extraKeys : ℕ) (plain : Bool)
  | record (members : OwnMembers) (hidden : ℕ) (plain : Bool)

/-- A value of the copy: a scalar or one of the new objects. -/
inductive TargetValue where
  | null
  | bool (b : Bool)
  | int (n : ℤ)
  | float (bits : ℕ)
  | str (s : String)
  | target (r : ℕ)
  deriving DecidableEq

/-- A new object. -/
inductive Target where
  | array (items : List (Option TargetValue))
  | record (members : OrderedMap String TargetValue)
  deriving DecidableEq

/-- A scalar that JSON keeps, as it is copied. -/
def ScriptValue.scalar? : ScriptValue → Option TargetValue
  | .null => some .null
  | .bool b => some (.bool b)
  | .int n => some (.int n)
  | .float bits => some (.float bits)
  | .str s => some (.str s)
  | _ => none

/-! ## The loop -/

inductive SnapshotDestination where
  | root
  | array (target index : ℕ)
  | object (target : ℕ) (key : String)

inductive JsonWalkTask where
  | visit (value : ScriptValue) (destination : Option SnapshotDestination)
  | arrayItem (source index : ℕ) (target : Option ℕ)
  | objectProperty (source : ℕ) (key : String) (target : Option ℕ)
  | leave (source : ℕ)

/-- What is copied so far. -/
structure Output where
  root : Option TargetValue
  targets : Heap Target

/-- The stack, top first, the objects on the way down, and the copy. -/
structure WalkState where
  tasks : List JsonWalkTask
  ancestors : List ℕ
  output : Output

/-- `items[index] = item`. -/
def setIndex (items : List (Option TargetValue)) (index : ℕ) (item : TargetValue) :
    List (Option TargetValue) :=
  if index < items.length then items.set index (some item)
  else items ++ List.replicate (index - items.length) none ++ [some item]

def assign (destination : Option SnapshotDestination) (item : TargetValue) (output : Output) :
    Output :=
  match destination with
  | none => output
  | some .root => { output with root := some item }
  | some (.array target index) =>
    match output.targets.read target with
    | some (.array items) =>
      { output with targets := output.targets.write target (.array (setIndex items index item)) }
    | _ => output
  | some (.object target key) =>
    match output.targets.read target with
    | some (.record members) =>
      { output with targets := output.targets.write target (.record (members.set key item)) }
    | _ => output

/-- A new object for a copy, assigned to its destination. -/
def createTarget (detach : Bool) (destination : Option SnapshotDestination) (target : Target)
    (output : Output) : Option ℕ × Output :=
  if detach then
    let new := output.targets.alloc target
    (some new.1, assign destination (.target new.1) { output with targets := new.2 })
  else (none, output)

/-- The tasks for the items of an array. -/
def itemTasks (source : ℕ) (target : Option ℕ) (index count : ℕ) : List JsonWalkTask :=
  (List.range' index count).map fun i => .arrayItem source i target

/-- The tasks for the members of a record. -/
def memberTasks (source : ℕ) (target : Option ℕ) (keys : List String) : List JsonWalkTask :=
  keys.map fun key => .objectProperty source key target

variable (source : Heap ScriptObject) (detach : Bool)

/-- Visit one object. -/
def visitObject (r : ℕ) (destination : Option SnapshotDestination) (tasks : List JsonWalkTask)
    (s : WalkState) : Option WalkState :=
  if r ∈ s.ancestors then none
  else
    match source.read r with
    | some (.array items extraKeys plain) =>
      if plain ∧ (items.filter Option.isSome).length + 1 + extraKeys = items.length + 1 then
        let created := createTarget detach destination (.array []) s.output
        some ⟨itemTasks r created.1 0 items.length ++ .leave r :: tasks, r :: s.ancestors, created.2⟩
      else none
    | some (.record members hidden plain) =>
      if plain ∧ hidden = 0 then
        let created := createTarget detach destination (.record []) s.output
        some ⟨memberTasks r created.1 (OrderedMap.keys members.entries) ++ .leave r :: tasks,
          r :: s.ancestors, created.2⟩
      else none
    | none => none

/-- One task; `none` where the walk returns `undefined`. -/
def step (s : WalkState) : Option WalkState :=
  match s.tasks with
  | [] => some s
  | .leave r :: tasks => some { s with tasks := tasks, ancestors := s.ancestors.erase r }
  | .arrayItem r index target :: tasks =>
    match source.read r with
    | some (.array items _ _) =>
      match items[index]? with
      | some (some value) =>
        some { s with tasks := .visit value (target.map (.array · index)) :: tasks }
      | _ => none
    | _ => none
  | .objectProperty r key target :: tasks =>
    match source.read r with
    | some (.record members _ _) =>
      some { s with
        tasks := .visit ((members.entries.lookup key).getD .undefined) (target.map (.object · key))
          :: tasks }
    | _ => none
  | .visit value destination :: tasks =>
    match value.scalar? with
    | some item => some { s with tasks := tasks, output := assign destination item s.output }
    | none =>
      match value with
      | .ref r => visitObject source detach r destination tasks s
      | _ => none

/-- How a bounded run of the loop ends. -/
inductive WalkResult where
  | unfinished
  | refused
  | finished (output : Output)

/-- At most `fuel` tasks. -/
def run : ℕ → WalkState → WalkResult
  | 0, s => if s.tasks.isEmpty then .finished s.output else .unfinished
  | fuel + 1, s =>
    if s.tasks.isEmpty then .finished s.output
    else
      match step source detach s with
      | some s' => run fuel s'
      | none => .refused

/-- The walk of a value. -/
def start (value : ScriptValue) : WalkState :=
  ⟨[.visit value (if detach then some .root else none)], [], ⟨none, Heap.empty⟩⟩

/-! ## Runs -/

/-- A long enough run passes through the second state. -/
def Reaches (s s' : WalkState) : Prop :=
  ∃ n, ∀ fuel, run source detach (fuel + n) s = run source detach fuel s'

/-- A long enough run is refused. -/
def Refuses (s : WalkState) : Prop := ∃ n, ∀ fuel, run source detach (fuel + n) s = .refused

variable {source detach} {s s' s'' : WalkState}

theorem Reaches.refl (s : WalkState) : Reaches source detach s s := ⟨0, fun _ => rfl⟩

theorem Reaches.trans (h : Reaches source detach s s') (h' : Reaches source detach s' s'') :
    Reaches source detach s s'' := by
  obtain ⟨n, hn⟩ := h
  obtain ⟨n', hn'⟩ := h'
  refine ⟨n' + n, fun fuel => ?_⟩
  rw [← Nat.add_assoc, hn, hn']

theorem Reaches.refuses (h : Reaches source detach s s') (h' : Refuses source detach s') :
    Refuses source detach s := by
  obtain ⟨n, hn⟩ := h
  obtain ⟨n', hn'⟩ := h'
  refine ⟨n' + n, fun fuel => ?_⟩
  rw [← Nat.add_assoc, hn, hn']

theorem run_succ (fuel : ℕ) {task : JsonWalkTask} {tasks : List JsonWalkTask} {ancestors : List ℕ}
    {output : Output} :
    run source detach (fuel + 1) ⟨task :: tasks, ancestors, output⟩ =
      match step source detach ⟨task :: tasks, ancestors, output⟩ with
      | some s' => run source detach fuel s'
      | none => .refused := rfl

/-- A run that starts with a task takes it. -/
theorem reaches_of_step {task : JsonWalkTask} {tasks : List JsonWalkTask} {ancestors : List ℕ}
    {output : Output} (h : step source detach ⟨task :: tasks, ancestors, output⟩ = some s') :
    Reaches source detach ⟨task :: tasks, ancestors, output⟩ s' :=
  ⟨1, fun fuel => by rw [run_succ, h]⟩

theorem refuses_of_step {task : JsonWalkTask} {tasks : List JsonWalkTask} {ancestors : List ℕ}
    {output : Output} (h : step source detach ⟨task :: tasks, ancestors, output⟩ = none) :
    Refuses source detach ⟨task :: tasks, ancestors, output⟩ :=
  ⟨1, fun fuel => by rw [run_succ, h]⟩

theorem run_nil (fuel : ℕ) (ancestors : List ℕ) (output : Output) :
    run source detach fuel ⟨[], ancestors, output⟩ = .finished output := by
  cases fuel <;> rfl

/-! ## The walk without a copy -/

/-- The task, without the place its value goes to. -/
def JsonWalkTask.forget : JsonWalkTask → JsonWalkTask
  | .visit value _ => .visit value none
  | .arrayItem r index _ => .arrayItem r index none
  | .objectProperty r key _ => .objectProperty r key none
  | .leave r => .leave r

/-- The state of the same walk without a copy. -/
def WalkState.forget (s : WalkState) : WalkState :=
  ⟨s.tasks.map JsonWalkTask.forget, s.ancestors, ⟨none, Heap.empty⟩⟩

def WalkResult.forget : WalkResult → WalkResult
  | .unfinished => .unfinished
  | .refused => .refused
  | .finished _ => .finished ⟨none, Heap.empty⟩

theorem itemTasks_forget (r : ℕ) (target : Option ℕ) (index count : ℕ) :
    (itemTasks r target index count).map JsonWalkTask.forget = itemTasks r none index count := by
  simp [itemTasks, Function.comp_def, JsonWalkTask.forget]

theorem memberTasks_forget (r : ℕ) (target : Option ℕ) (keys : List String) :
    (memberTasks r target keys).map JsonWalkTask.forget = memberTasks r none keys := by
  simp [memberTasks, Function.comp_def, JsonWalkTask.forget]

theorem visitObject_forget (r : ℕ) (destination : Option SnapshotDestination)
    (tasks : List JsonWalkTask) (s : WalkState) :
    visitObject source false r none (tasks.map JsonWalkTask.forget) s.forget =
      (visitObject source true r destination tasks s).map WalkState.forget := by
  unfold visitObject
  by_cases hmem : r ∈ s.ancestors
  · simp [WalkState.forget, hmem]
  · rw [if_neg hmem, if_neg (show r ∉ s.forget.ancestors from hmem)]
    cases source.read r with
    | none => rfl
    | some object =>
      cases object with
      | array items extraKeys plain =>
        dsimp only
        split_ifs with hplain
        · simp [WalkState.forget, createTarget, itemTasks_forget, JsonWalkTask.forget]
        · rfl
      | record members hidden plain =>
        dsimp only
        split_ifs with hplain
        · simp [WalkState.forget, createTarget, memberTasks_forget, JsonWalkTask.forget]
        · rfl

theorem step_forget (s : WalkState) :
    step source false s.forget = (step source true s).map WalkState.forget := by
  obtain ⟨tasks, ancestors, output⟩ := s
  cases tasks with
  | nil => rfl
  | cons task tasks =>
    cases task with
    | leave r => rfl
    | arrayItem r index target =>
      simp only [step, WalkState.forget, List.map_cons, JsonWalkTask.forget]
      cases source.read r with
      | none => rfl
      | some object =>
        cases object with
        | record members hidden plain => rfl
        | array items extraKeys plain =>
          dsimp only
          cases items[index]? with
          | none => rfl
          | some item => cases item <;> rfl
    | objectProperty r key target =>
      simp only [step, WalkState.forget, List.map_cons, JsonWalkTask.forget]
      cases source.read r with
      | none => rfl
      | some object => cases object <;> rfl
    | visit value destination =>
      simp only [step, WalkState.forget, List.map_cons, JsonWalkTask.forget]
      cases value.scalar? with
      | some item => rfl
      | none =>
        cases value with
        | ref r => exact visitObject_forget r destination tasks ⟨_ :: tasks, ancestors, output⟩
        | _ => rfl

/-- The loop goes the same way whether it copies or not. -/
theorem run_forget (fuel : ℕ) (s : WalkState) :
    run source false fuel s.forget = (run source true fuel s).forget := by
  induction fuel generalizing s with
  | zero =>
    simp only [run, WalkState.forget, List.isEmpty_map]
    split_ifs <;> rfl
  | succ fuel ih =>
    simp only [run, step_forget]
    rw [show s.forget.tasks.isEmpty = s.tasks.isEmpty from List.isEmpty_map]
    split_ifs
    · rfl
    · cases step source true s with
      | none => rfl
      | some s' => exact ih s'

end JsonWalk

end TianmaCoder
