import Mathlib.Data.Rat.Defs
import Mathlib.Algebra.Order.Field.Rat
import TianmaCoder.Goal.Agreement
import TianmaCoder.Lib.Schema

/-!
# Checkpoints of the goal projection

A checkpoint is read back through a schema with laws across its fields: the current goal is among
the seen ones, it is not updated before it is created, and its rounds are within its limit. The
strict fold keeps the first two. It admits an edit that lowers the limit below the rounds that were
started, and so leaves a state that the schema refuses.

## Main definitions

* `goalProjectionSchema`, `goalProjectionStateSchema` — the schemas.
* `Checkpointable` — a state is accepted unchanged, and the fold resumes from it.

## Main results

* `checkpointable_iff` — the accepted logs after each event of which the state is checkpointable.
-/

namespace TianmaCoder

namespace Goal

open Checked

/-! ## Writing -/

def GoalProjection.toJson (current : GoalProjection) : Json :=
  .obj [("goal", current.goal.toJson), ("roundsStarted", .nat current.roundsStarted),
    ("createdAt", .int current.createdAt), ("updatedAt", .int current.updatedAt)]

/-- The wire view: the current goal, or `null`. -/
def GoalProjectionState.view (state : GoalProjectionState) : Json :=
  (state.current.map GoalProjection.toJson).getD .null

def GoalProjectionState.toJson (state : GoalProjectionState) : Json :=
  .obj [("current", state.view), ("seenGoalIds", .arr (state.seenGoalIds.map .str)),
    ("failure", (state.failure.map .str).getD .null)]

/-! ## The schemas -/

def goalPhaseSchema : Schema :=
  Schema.union [Schema.literal "active", Schema.literal "paused", Schema.literal "blocked",
    Schema.literal "complete"]

def goalSnapshotSchema : Schema :=
  Schema.object [⟨"id", true, Schema.nonEmptyString⟩, ⟨"revision", true, Schema.safeInteger 1⟩,
    ⟨"objective", true, Schema.nonEmptyString⟩, ⟨"phase", true, goalPhaseSchema⟩,
    ⟨"blockedReason", false,
      Schema.object [⟨"code", true, Schema.string⟩, ⟨"message", true, Schema.string⟩]⟩,
    ⟨"maxGoalRounds", true, Schema.safeInteger 1⟩]

/-- Wire payload schema: the current goal, or `null` before a create and after a clear. -/
def goalProjectionSchema : Schema :=
  Schema.union [Schema.object [⟨"goal", true, goalSnapshotSchema⟩,
    ⟨"roundsStarted", true, Schema.safeInteger 0⟩, ⟨"createdAt", true, Schema.number⟩,
    ⟨"updatedAt", true, Schema.number⟩], Schema.null]

/-- The refinement of the seen ids: none of them twice. -/
def seenGoalIdsSchema : Schema := fun value =>
  match Schema.array Schema.nonEmptyString value with
  | some (.arr ids) => if ids.Nodup then some (.arr ids) else none
  | _ => none

/-- The value of a finite double. -/
def doubleValue (bits : ℕ) : ℚ :=
  let sign : ℚ := if bits / 2 ^ 63 % 2 = 1 then -1 else 1
  let exponent : ℕ := bits / 2 ^ 52 % 2 ^ 11
  let mantissa : ℕ := bits % 2 ^ 52
  if exponent = 0 then sign * mantissa / 2 ^ 1074
  else sign * (2 ^ 52 + mantissa : ℕ) * 2 ^ exponent / 2 ^ 1075

/-- The value of a number. -/
def numberValue : Option Json → ℚ
  | some (.int n) => n
  | some (.float bits) => doubleValue bits
  | _ => 0

/-- The issues that the refinement adds to a state that has the shape. -/
def stateIssues (state : Json) : List String :=
  if state.get? "current" = some .null then []
  else
    (if state.path ["current", "goal", "id"] ∈ ((Json.arr? (state.get? "seenGoalIds")).getD []).map
        some then []
      else ["current goal id must be retained among seen goal ids"]) ++
    (if numberValue (state.path ["current", "updatedAt"]) <
        numberValue (state.path ["current", "createdAt"]) then
      ["current goal update cannot precede its creation"] else []) ++
    (if numberValue (state.path ["current", "goal", "maxGoalRounds"]) <
        numberValue (state.path ["current", "roundsStarted"]) then
      ["current goal rounds cannot exceed its configured limit"] else [])

def goalProjectionStateSchema : Schema := fun value =>
  match Schema.strict [⟨"current", true, goalProjectionSchema⟩,
      ⟨"seenGoalIds", true, seenGoalIdsSchema⟩,
      ⟨"failure", true, Schema.union [Schema.nonEmptyString, Schema.null]⟩] value with
  | some state => if stateIssues state = [] then some state else none
  | none => none

/-! ## Reading -/

/-- A blocker explanation of a value that has the shape. -/
def GoalBlockReason.ofJson? (value : Json) : Option GoalBlockReason := do
  let code ← Json.str? (value.get? "code")
  let message ← Json.str? (value.get? "message")
  pure ⟨code, message⟩

def GoalSnapshot.ofJson? (value : Json) : Option GoalSnapshot := do
  let id ← Json.str? (value.get? "id")
  let revision ← Json.count? (value.get? "revision")
  let objective ← Json.str? (value.get? "objective")
  let name ← Json.str? (value.get? "phase")
  let phase ← GoalPhase.ofName? name
  let maxGoalRounds ← Json.count? (value.get? "maxGoalRounds")
  let blockedReason ← match value.get? "blockedReason" with
    | none => some none
    | some reason => (GoalBlockReason.ofJson? reason).map some
  pure ⟨⟨id, revision⟩, objective, phase, blockedReason, maxGoalRounds⟩

def GoalProjection.ofJson? (value : Json) : Option GoalProjection := do
  let goal ← (value.get? "goal").bind GoalSnapshot.ofJson?
  let roundsStarted ← Json.count? (value.get? "roundsStarted")
  let createdAt ← Json.safeInt? (value.get? "createdAt")
  let updatedAt ← Json.safeInt? (value.get? "updatedAt")
  pure ⟨goal, roundsStarted, createdAt, updatedAt⟩

/-- The state that a parsed checkpoint is used as. -/
def GoalProjectionState.ofJson? (value : Json) : Option GoalProjectionState := do
  let current ← match value.get? "current" with
    | some .null => some none
    | some current => (GoalProjection.ofJson? current).map some
    | none => none
  let ids ← Json.arr? (value.get? "seenGoalIds")
  let seenGoalIds ← ids.mapM fun id => Json.str? (some id)
  let failure ← match value.get? "failure" with
    | some .null => some none
    | failure => (Json.str? failure).map some
  pure ⟨current, seenGoalIds, failure⟩

/-! ## What the schemas accept -/

/-- What a schema makes of a value is that value, up to the order of its members. -/
def AcceptedUnchanged (schema : Schema) (value : Json) : Prop :=
  ∃ parsed, schema value = some parsed ∧ Json.deepEqual parsed value = true

/-- The goal, with its members in the order of the schema. -/
def GoalSnapshot.parsed (goal : GoalSnapshot) : Json :=
  .obj ([("id", .str goal.id), ("revision", .nat goal.revision), ("objective", .str goal.objective),
    ("phase", .str goal.phase.name)] ++
    (goal.blockedReason.toList.map fun reason => ("blockedReason", reason.toJson)) ++
    [("maxGoalRounds", .nat goal.maxGoalRounds)])

def GoalProjection.parsed (current : GoalProjection) : Json :=
  .obj [("goal", current.goal.parsed), ("roundsStarted", .nat current.roundsStarted),
    ("createdAt", .int current.createdAt), ("updatedAt", .int current.updatedAt)]

theorem safeInteger_nat {least n : ℕ} (hleast : least ≤ n) (hmax : n ≤ Json.maxSafeInteger) :
    Schema.safeInteger least (.nat n) = some (.nat n) := by
  simp [Schema.safeInteger, Json.nat, hleast, hmax]

theorem goalPhaseSchema_name (phase : GoalPhase) :
    goalPhaseSchema (.str phase.name) = some (.str phase.name) := by
  cases phase <;> decide

theorem ne_empty_of_isNormalized {s : String} (h : Text.isNormalized s = true) : s ≠ "" := by
  rintro rfl
  revert h
  decide

theorem goalSnapshotSchema_toJson {goal : GoalSnapshot} (h : goal.WellFormed) :
    goalSnapshotSchema goal.toJson = some goal.parsed := by
  have hid : goal.id ≠ "" := h.ref.id
  have hobjective := ne_empty_of_isNormalized h.objective
  have hrevision := safeInteger_nat h.ref.revision.1 h.ref.revision.2
  have hmax := safeInteger_nat h.maxGoalRounds.1 h.maxGoalRounds.2
  have hphase := goalPhaseSchema_name goal.phase
  cases hreason : goal.blockedReason with
  | none =>
    simp [goalSnapshotSchema, Schema.object, GoalSnapshot.toJson, GoalSnapshot.parsed,
      Schema.readFields, Schema.Field.read, hreason, Schema.nonEmptyString, hid, hobjective,
      hrevision, hmax, hphase]
  | some reason =>
    simp [goalSnapshotSchema, Schema.object, GoalSnapshot.toJson, GoalSnapshot.parsed,
      Schema.readFields, Schema.Field.read, hreason, Schema.nonEmptyString, hid, hobjective,
      hrevision, hmax, hphase, GoalBlockReason.toJson, Schema.string]

theorem goalSnapshot_parsed_read {goal : GoalSnapshot} (h : goal.WellFormed) :
    GoalSnapshot.ofJson? goal.parsed = some goal := by
  have hrevision : Json.count? (some (.nat goal.revision)) = some goal.revision := by
    rw [Json.count?_nat, if_pos h.ref.revision.2]
  have hmax : Json.count? (some (.nat goal.maxGoalRounds)) = some goal.maxGoalRounds := by
    rw [Json.count?_nat, if_pos h.maxGoalRounds.2]
  obtain ⟨⟨id, revision⟩, objective, phase, blockedReason, maxGoalRounds⟩ := goal
  cases blockedReason with
  | none =>
    simp_all [GoalSnapshot.ofJson?, GoalSnapshot.parsed, Json.str?, GoalPhase.ofName?_name]
  | some reason =>
    simp_all [GoalSnapshot.ofJson?, GoalSnapshot.parsed, Json.str?, GoalPhase.ofName?_name,
      GoalBlockReason.toJson, GoalBlockReason.ofJson?]

theorem deepEqual_goal_parsed (goal : GoalSnapshot) :
    Json.deepEqual goal.parsed goal.toJson = true := by
  unfold GoalSnapshot.parsed GoalSnapshot.toJson
  cases goal.blockedReason with
  | none => simp [Json.deepEqual, Json.deepEqualMembers, Json.nat]
  | some reason =>
    simp [Json.deepEqual, Json.deepEqualMembers, Json.nat, GoalBlockReason.toJson]

/-! ### The current goal -/

/-- What the schema asks of the current goal. -/
structure GoalProjection.Held (current : GoalProjection) : Prop where
  goal : current.goal.WellFormed
  roundsStarted : current.roundsStarted ≤ Json.maxSafeInteger
  createdAt : 0 ≤ current.createdAt
  updatedAt : current.createdAt ≤ current.updatedAt
  updatedAt_le : current.updatedAt ≤ Json.maxSafeInteger

theorem goalProjectionSchema_toJson {current : GoalProjection} (h : current.Held) :
    goalProjectionSchema current.toJson = some current.parsed := by
  have hgoal := goalSnapshotSchema_toJson h.goal
  have hrounds := safeInteger_nat (Nat.zero_le _) h.roundsStarted
  simp [goalProjectionSchema, Schema.union, Schema.object, GoalProjection.toJson,
    GoalProjection.parsed, Schema.readFields, Schema.Field.read, hgoal, hrounds, Schema.number]

theorem safeInt?_held {n : ℤ} (hlow : 0 ≤ n) (hhigh : n ≤ Json.maxSafeInteger) :
    Json.safeInt? (some (.int n)) = some n := safeInt?_int hlow hhigh

theorem goalProjection_parsed_read {current : GoalProjection} (h : current.Held) :
    GoalProjection.ofJson? current.parsed = some current := by
  have hgoal := goalSnapshot_parsed_read h.goal
  have hrounds : Json.count? (some (.nat current.roundsStarted)) = some current.roundsStarted := by
    rw [Json.count?_nat, if_pos h.roundsStarted]
  have hcreated := safeInt?_held h.createdAt (h.updatedAt.trans h.updatedAt_le)
  have hupdated := safeInt?_held (h.createdAt.trans h.updatedAt) h.updatedAt_le
  simp [GoalProjection.ofJson?, GoalProjection.parsed, hgoal, hrounds, hcreated, hupdated]

theorem deepEqual_projection_parsed (current : GoalProjection) :
    Json.deepEqual current.parsed current.toJson = true := by
  simp [GoalProjection.parsed, GoalProjection.toJson, Json.deepEqual, Json.deepEqualMembers,
    deepEqual_goal_parsed, Json.nat]

/-! ### The state -/

/-- The checkpoint of a state as the schema rebuilds it. -/
def GoalProjectionState.parsed (state : GoalProjectionState) : Json :=
  .obj [("current", (state.current.map GoalProjection.parsed).getD .null),
    ("seenGoalIds", .arr (state.seenGoalIds.map .str)), ("failure", .null)]

/-- What an accepted log leaves in the projection. -/
structure GoalProjectionState.Held (state : GoalProjectionState) : Prop where
  current : ∀ current ∈ state.current, current.Held ∧ current.goal.id ∈ state.seenGoalIds
  nodup : state.seenGoalIds.Nodup
  named : ∀ id ∈ state.seenGoalIds, id ≠ ""
  failure : state.failure = none

/-- The rounds of the current goal are within its limit. -/
def GoalProjectionState.Within (state : GoalProjectionState) : Prop :=
  ∀ current ∈ state.current, current.roundsStarted ≤ current.goal.maxGoalRounds

theorem mapM_nonEmptyString {ids : List String} (h : ∀ id ∈ ids, id ≠ "") :
    (ids.map Json.str).mapM Schema.nonEmptyString = some (ids.map .str) := by
  induction ids with
  | nil => rfl
  | cons id ids ih =>
    rw [List.forall_mem_cons] at h
    simp [List.mapM_cons, Schema.nonEmptyString, h.1, ih h.2]

theorem seenGoalIdsSchema_map {ids : List String} (hnodup : ids.Nodup)
    (hnamed : ∀ id ∈ ids, id ≠ "") :
    seenGoalIdsSchema (.arr (ids.map .str)) = some (.arr (ids.map .str)) := by
  have hinjective : Function.Injective Json.str := fun a b hab => Json.str.inj hab
  have hunique : (ids.map Json.str).Nodup := hnodup.map hinjective
  simp [seenGoalIdsSchema, Schema.array, mapM_nonEmptyString hnamed, hunique]

theorem mapM_str (ids : List String) :
    (ids.map Json.str).mapM (fun id => Json.str? (some id)) = some ids := by
  induction ids with
  | nil => rfl
  | cons id ids ih =>
    rw [List.map_cons, List.mapM_cons, ih]
    rfl

theorem deepEqualItems_str (ids : List String) :
    Json.deepEqualItems (ids.map .str) (ids.map .str) = true := by
  induction ids with
  | nil => rfl
  | cons id ids ih => simp [Json.deepEqualItems, Json.deepEqual, ih]

variable {state : GoalProjectionState}

/-- The view is accepted. -/
theorem view_accepted (h : state.Held) :
    goalProjectionSchema state.view =
      some ((state.current.map GoalProjection.parsed).getD .null) := by
  unfold GoalProjectionState.view
  cases hcurrent : state.current with
  | none => rfl
  | some current => exact goalProjectionSchema_toJson (h.current current hcurrent).1

theorem get?_goal_parsed (goal : GoalSnapshot) :
    goal.parsed.get? "id" = some (.str goal.id) ∧
      goal.parsed.get? "maxGoalRounds" = some (.nat goal.maxGoalRounds) := by
  unfold GoalSnapshot.parsed
  cases goal.blockedReason <;> simp

/-- The refinement of a state finds its rounds out of their limit, and nothing else. -/
theorem stateIssues_parsed_iff (h : state.Held) : stateIssues state.parsed = [] ↔ state.Within := by
  cases hcurrent : state.current with
  | none => simp [stateIssues, GoalProjectionState.parsed, hcurrent, GoalProjectionState.Within]
  | some current =>
    obtain ⟨hheld, hseen⟩ := h.current current hcurrent
    have hget : state.parsed.get? "current" = some current.parsed := by
      simp [GoalProjectionState.parsed, hcurrent]
    have hpresent : some current.parsed ≠ some Json.null := by simp [GoalProjection.parsed]
    have hids : Json.arr? (state.parsed.get? "seenGoalIds") =
        some (state.seenGoalIds.map .str) := rfl
    have hid : current.parsed.path ["goal", "id"] = some (.str current.goal.id) := by
      simp [GoalProjection.parsed, (get?_goal_parsed current.goal).1]
    have hmax : current.parsed.path ["goal", "maxGoalRounds"] =
        some (.nat current.goal.maxGoalRounds) := by
      simp [GoalProjection.parsed, (get?_goal_parsed current.goal).2]
    have hpath : ∀ keys, state.parsed.path ("current" :: keys) = current.parsed.path keys := by
      intro keys
      rw [Json.path_cons, hget, Option.bind_some]
    have hretained : some (Json.str current.goal.id) ∈
        (state.seenGoalIds.map Json.str).map some := by simp [hseen]
    have htimes : ¬numberValue (current.parsed.path ["updatedAt"]) <
        numberValue (current.parsed.path ["createdAt"]) := by
      have hupdated : current.parsed.path ["updatedAt"] = some (.int current.updatedAt) := rfl
      have hcreated : current.parsed.path ["createdAt"] = some (.int current.createdAt) := rfl
      rw [hupdated, hcreated, not_lt]
      show (current.createdAt : ℚ) ≤ current.updatedAt
      exact_mod_cast hheld.updatedAt
    have hrounds : numberValue (current.parsed.path ["goal", "maxGoalRounds"]) <
        numberValue (current.parsed.path ["roundsStarted"]) ↔
          current.goal.maxGoalRounds < current.roundsStarted := by
      have hstarted : current.parsed.path ["roundsStarted"] =
          some (.nat current.roundsStarted) := rfl
      rw [hmax, hstarted]
      simp [numberValue, Json.nat]
    have hwithin : state.Within ↔ ¬current.goal.maxGoalRounds < current.roundsStarted := by
      simp [GoalProjectionState.Within, hcurrent]
    rw [hwithin, ← hrounds]
    unfold stateIssues
    rw [hget, if_neg hpresent, hids, hpath, hpath, hpath, hpath, hpath, hid, Option.getD_some,
      if_pos hretained, if_neg htimes]
    split_ifs with hover
    · exact iff_of_false (by simp) (not_not_intro hover)
    · exact iff_of_true rfl hover

/-- The schema accepts the states whose rounds are within their limit. -/
theorem stateSchema_iff (h : state.Held) :
    goalProjectionStateSchema state.toJson = if stateIssues state.parsed = [] then
      some state.parsed else none := by
  have hcurrent := view_accepted h
  have hids := seenGoalIdsSchema_map h.nodup h.named
  have hfailure : Schema.union [Schema.nonEmptyString, Schema.null] .null = some .null := rfl
  have hstrict : Schema.strict [⟨"current", true, goalProjectionSchema⟩,
      ⟨"seenGoalIds", true, seenGoalIdsSchema⟩,
      ⟨"failure", true, Schema.union [Schema.nonEmptyString, Schema.null]⟩] state.toJson =
        some state.parsed := by
    simp [Schema.strict, GoalProjectionState.toJson, GoalProjectionState.parsed, h.failure,
      Schema.readFields, Schema.Field.read, hcurrent, hids, hfailure]
  simp only [goalProjectionStateSchema, hstrict]

theorem stateSchema_accepted_iff (h : state.Held) :
    (∃ parsed, goalProjectionStateSchema state.toJson = some parsed) ↔ state.Within := by
  rw [stateSchema_iff h, ← stateIssues_parsed_iff h]
  split_ifs with hissues <;> simp [hissues]

theorem state_parsed_read (h : state.Held) :
    GoalProjectionState.ofJson? state.parsed = some state := by
  obtain ⟨current, seenGoalIds, failure⟩ := state
  have hfailure : failure = none := h.failure
  subst hfailure
  have hids := mapM_str seenGoalIds
  cases current with
  | none =>
    simp [GoalProjectionState.ofJson?, GoalProjectionState.parsed, Json.arr?, hids]
  | some current =>
    have hread := goalProjection_parsed_read (h.current current rfl).1
    have hpresent : current.parsed ≠ .null := by simp [GoalProjection.parsed]
    simp [GoalProjectionState.ofJson?, GoalProjectionState.parsed, Json.arr?, hread, hids]

theorem deepEqual_state_parsed (h : state.Held) :
    Json.deepEqual state.parsed state.toJson = true := by
  have hids := deepEqualItems_str state.seenGoalIds
  cases hcurrent : state.current with
  | none =>
    simp [GoalProjectionState.parsed, GoalProjectionState.toJson, GoalProjectionState.view,
      hcurrent, h.failure, Json.deepEqual, Json.deepEqualMembers, hids]
  | some current =>
    simp [GoalProjectionState.parsed, GoalProjectionState.toJson, GoalProjectionState.view,
      hcurrent, h.failure, Json.deepEqual, Json.deepEqualMembers, hids,
      deepEqual_projection_parsed]

/-! ## Accepted logs -/

/-- The rounds of the current goal are within its limit. -/
def GoalFoldState.Within (state : GoalFoldState) : Prop :=
  ∀ goal, state.goal = some goal → state.roundsStarted ≤ goal.maxGoalRounds

/-- Every seen id is a name. -/
def GoalFoldState.Named (state : GoalFoldState) : Prop := ∀ id ∈ state.seenGoalIds, id ≠ ""

/-- An edit that lowers the limit below the rounds that were started. -/
def LowersBelowRounds (event : GoalEvent) : Prop :=
  ∃ change, changeOf event = some (.snapshot change) ∧ change.operation = .edit ∧
    change.goal.maxGoalRounds < change.roundsStarted

instance : DecidablePred LowersBelowRounds := fun event =>
  match h : changeOf event with
  | some (.snapshot change) =>
    decidable_of_iff (change.operation = .edit ∧ change.goal.maxGoalRounds < change.roundsStarted)
      ⟨fun hlowers => ⟨change, h, hlowers⟩, by
        rintro ⟨change', hchange, hlowers⟩
        rw [h] at hchange
        cases hchange
        exact hlowers⟩
  | some (.clear cleared clearedAt) => .isFalse (by
      rintro ⟨change', hchange, -⟩
      rw [h] at hchange
      cases hchange)
  | none => .isFalse (by
      rintro ⟨change', hchange, -⟩
      rw [h] at hchange
      cases hchange)

variable {state next : GoalFoldState} {event : GoalEvent}

theorem named_step (h : state.Named) (happly : applyGoalEvent state event = .ok next) :
    next.Named := by
  rcases applyGoalEvent_cases happly with
    ⟨change, -, hwf, hchanged⟩ | ⟨-, ⟨round, -, rfl⟩ | rfl⟩
  · cases applied_of_applyGoalChange hchanged with
    | created change =>
      intro id hid
      rcases List.mem_append.mp hid with hid | hid
      · exact h id hid
      · rw [List.mem_singleton.mp hid]
        exact hwf.goal.ref.id
    | advanced => exact h
    | cleared => exact h
  · exact h
  · exact h

variable {events : List GoalEvent}

theorem foldEvents_named (h : foldEvents events = .ok state) : state.Named := by
  induction events using List.reverseRecOn generalizing state with
  | nil =>
    cases h
    exact List.forall_mem_nil _
  | append_singleton events event ih =>
    have hsnoc : foldEvents (events ++ [event]) =
        foldEvents events >>= fun state => applyGoalEvent state event := foldlM_snoc _ _ _ _
    rw [hsnoc, bind_ok_iff] at h
    obtain ⟨before, hbefore, happly⟩ := h
    exact named_step (ih hbefore) happly

/-- Every accepted event but such an edit keeps the rounds within the limit. -/
theorem within_step (h : state.Within) (happly : applyGoalEvent state event = .ok next)
    (hlowers : ¬LowersBelowRounds event) : next.Within := by
  rcases applyGoalEvent_cases happly with
    ⟨change, hchange, -, hchanged⟩ | ⟨-, ⟨round, hround, rfl⟩ | rfl⟩
  · cases applied_of_applyGoalChange hchanged with
    | created change hop hrevision hrounds =>
      intro goal hgoal
      cases hgoal
      show change.roundsStarted ≤ change.goal.maxGoalRounds
      omega
    | advanced change current updatedAt hop hgoal hid hrevision hcreated hupdated hle hrounds
        hphase =>
        intro goal hnext
        cases hnext
        show change.roundsStarted ≤ change.goal.maxGoalRounds
        by_cases hedit : change.operation = .edit
        · by_contra hover
          exact hlowers ⟨change, hchange, hedit, by omega⟩
        · have hbefore := h current hgoal
          rw [hrounds, (validatePhase_ok hphase hedit).2]
          exact hbefore
    | cleared =>
      intro goal hgoal
      cases hgoal
  · intro goal hgoal
    simp only [isNextRound, show state.goal = some goal from hgoal, Option.any_some,
      Bool.and_eq_true, decide_eq_true_eq] at hround
    exact hround.2
  · exact h

/-- After such an edit they are not. -/
theorem not_within_of_lowers (happly : applyGoalEvent state event = .ok next)
    (hlowers : LowersBelowRounds event) : ¬next.Within := by
  obtain ⟨change, hchange, hedit, hover⟩ := hlowers
  rcases applyGoalEvent_cases happly with ⟨change', hchange', -, hchanged⟩ | ⟨hnone, -⟩
  · rw [hchange] at hchange'
    cases hchange'
    intro hwithin
    have hle : change.roundsStarted ≤ change.goal.maxGoalRounds := by
      cases applied_of_applyGoalChange hchanged with
      | created => exact hwithin change.goal rfl
      | advanced => exact hwithin change.goal rfl
    omega
  · rw [hchange] at hnone
    cases hnone

/-- The state of an accepted log is what the schema asks for, but for the limit. -/
theorem held_of_fold (h : foldEvents events = .ok state) :
    (projectGoal events).Held ∧ ((projectGoal events).Within ↔ state.Within) := by
  have hrooted := foldEvents_rooted h
  have hnamed := foldEvents_named h
  have hproject := (projectGoal_spec events).1 state h
  cases hgoal : state.goal with
  | none =>
    have heq : projectGoal events = ⟨none, state.seenGoalIds, none⟩ := by
      simpa [goalProjectionState, hgoal] using hproject.symm
    rw [heq]
    refine ⟨⟨by simp, hrooted.nodup, hnamed, rfl⟩, ?_⟩
    simp [GoalProjectionState.Within, GoalFoldState.Within, hgoal]
  | some goal =>
    have hcurrent := hrooted.current goal hgoal
    obtain ⟨createdAt, updatedAt, hcreated, hupdated, hlow, hle, hhigh⟩ := hcurrent.times
    have heq : projectGoal events =
        ⟨some ⟨goal, state.roundsStarted, createdAt, updatedAt⟩, state.seenGoalIds, none⟩ := by
      simpa [goalProjectionState, hgoal, hcreated, hupdated] using hproject.symm
    rw [heq]
    refine ⟨⟨?_, hrooted.nodup, hnamed, rfl⟩, ?_⟩
    · intro current hmem
      cases hmem
      exact ⟨⟨hcurrent.wellFormed, hcurrent.roundsStarted, hlow, hle, hhigh⟩, hcurrent.seen⟩
    · simp [GoalProjectionState.Within, GoalFoldState.Within, hgoal]

/-- The state after a log is accepted unchanged by its schema and so is its view; what follows is
folded from the checkpoint as it is folded from the whole log. -/
structure Checkpointable (events later : List GoalEvent) : Prop where
  state : ∃ parsed, goalProjectionStateSchema (projectGoal events).toJson = some parsed ∧
    Json.deepEqual parsed (projectGoal events).toJson = true ∧
    ∃ resumed, GoalProjectionState.ofJson? parsed = some resumed ∧
      ∀ more rest, later = more ++ rest →
        more.foldl applyGoalProjection resumed = projectGoal (events ++ more) ∧
        ∃ state, foldEvents (events ++ more) = .ok state ∧
          goalProjectionState state = .ok (more.foldl applyGoalProjection resumed)
  view : AcceptedUnchanged goalProjectionSchema (projectGoal events).view

/-- A log that is accepted is accepted up to any of its events. -/
theorem foldEvents_front {later : List GoalEvent} (h : foldEvents (events ++ later) = .ok state) :
    ∃ before, foldEvents events = .ok before := by
  rw [foldEvents, List.foldlM_append, bind_ok_iff] at h
  obtain ⟨before, hbefore, -⟩ := h
  exact ⟨before, hbefore⟩

theorem checkpointable_iff_within {later : List GoalEvent} {final : GoalFoldState}
    (h : foldEvents events = .ok state) (hall : foldEvents (events ++ later) = .ok final) :
    Checkpointable events later ↔ state.Within := by
  obtain ⟨hheld, hwithin⟩ := held_of_fold h
  rw [← hwithin, ← stateSchema_accepted_iff hheld]
  constructor
  · intro hcheck
    obtain ⟨parsed, hparsed, -⟩ := hcheck.state
    exact ⟨parsed, hparsed⟩
  · rintro ⟨parsed, hparsed⟩
    have heq : parsed = (projectGoal events).parsed := by
      rw [stateSchema_iff hheld] at hparsed
      split at hparsed
      · exact (Option.some.inj hparsed).symm
      · cases hparsed
    subst heq
    refine ⟨⟨_, hparsed, deepEqual_state_parsed hheld, projectGoal events,
      state_parsed_read hheld, ?_⟩, _, view_accepted hheld, ?_⟩
    · intro more rest hlater
      have hresume : more.foldl applyGoalProjection (projectGoal events) =
          projectGoal (events ++ more) := by
        rw [projectGoal, projectGoal, List.foldl_append]
      rw [hlater, ← List.append_assoc] at hall
      obtain ⟨after, hafter⟩ := foldEvents_front hall
      refine ⟨hresume, after, hafter, ?_⟩
      rw [hresume]
      exact (projectGoal_spec (events ++ more)).1 after hafter
    · unfold GoalProjectionState.view
      cases (projectGoal events).current with
      | none => rfl
      | some current => exact deepEqual_projection_parsed current

theorem within_iff {final : GoalFoldState} (h : foldEvents events = .ok final) :
    (∀ earlier later state, events = earlier ++ later → foldEvents earlier = .ok state →
        state.Within) ↔ ∀ event ∈ events, ¬LowersBelowRounds event := by
  constructor
  · intro hwithin event hmem hlowers
    obtain ⟨earlier, later, rfl⟩ := List.append_of_mem hmem
    have hsplit : earlier ++ event :: later = (earlier ++ [event]) ++ later := by simp
    rw [hsplit] at h
    obtain ⟨next, hnext⟩ := foldEvents_front h
    have hnext' := hnext
    rw [foldEvents, foldlM_snoc, bind_ok_iff] at hnext'
    obtain ⟨before, -, happly⟩ := hnext'
    exact not_within_of_lowers happly hlowers (hwithin (earlier ++ [event]) later next hsplit hnext)
  · intro hnone earlier
    induction earlier using List.reverseRecOn with
    | nil =>
      intro later state _ hstate goal hgoal
      cases hstate
      cases hgoal
    | append_singleton earlier event ih =>
      intro later state heq hstate
      rw [foldEvents, foldlM_snoc, bind_ok_iff] at hstate
      obtain ⟨before, hbefore, happly⟩ := hstate
      have hsplit : events = earlier ++ event :: later := by simp [heq]
      exact within_step (ih (event :: later) before hsplit hbefore) happly
        (hnone event (by simp [hsplit]))

/-- Every state of an accepted log can be checkpointed exactly when none of its edits lowers the
limit below the rounds that were started. -/
theorem checkpointable_iff {events : List GoalEvent} {final : GoalFoldState}
    (h : foldEvents events = .ok final) :
    (∀ earlier later, events = earlier ++ later → Checkpointable earlier later) ↔
      ∀ event ∈ events, ¬LowersBelowRounds event := by
  rw [← within_iff h]
  constructor
  · intro hcheck earlier later state heq hstate
    have hall : foldEvents (earlier ++ later) = .ok final := heq ▸ h
    exact (checkpointable_iff_within hstate hall).mp (hcheck earlier later heq)
  · intro hwithin earlier later heq
    have hall : foldEvents (earlier ++ later) = .ok final := heq ▸ h
    obtain ⟨state, hstate⟩ := foldEvents_front hall
    exact (checkpointable_iff_within hstate hall).mpr (hwithin earlier later state heq hstate)

/-! ## A limit that is edited -/

private instance checkpointNumberFormat : NumberFormat := ⟨fun q => toString q⟩

/-- The log of a service that creates a goal of two rounds, admits both, and then edits the
limit. -/
def limitLog (maxGoalRounds : ℕ) : List GoalEvent :=
  let operations : List Operation :=
    [.mutate (liveAt 0 (by decide)) (.create "0" ⟨.str "ship", .num (.ofNat 2)⟩),
      .round ⟨.str "goal-0", .nat 1, .nat 1⟩, .round ⟨.str "goal-0", .nat 1, .nat 2⟩,
      .mutate (liveAt 0 (by decide))
        (.edit ⟨"goal-0", .ofNat 1⟩ ⟨.undefined, .num (.ofNat maxGoalRounds)⟩)]
  (operations.foldl (fun w operation => (w.exec operation).1) (opened defaults [])).log

/-- The accumulator of such a log. -/
def limitState (maxGoalRounds : ℕ) : GoalFoldState :=
  ⟨some ⟨⟨"goal-0", 2⟩, "ship", .active, none, maxGoalRounds⟩, 2, some 0, some 0,
    some ⟨"goal-0", 2⟩, ["goal-0"]⟩

/-- A limit that is raised: the first state and the last are checkpointable. -/
theorem checkpointable_raised :
    Checkpointable [] (limitLog 3) ∧ Checkpointable (limitLog 3) [] := by
  have hfold : foldEvents (limitLog 3) = .ok (limitState 3) := by decide +kernel
  have hall := (checkpointable_iff hfold).mpr (by decide +kernel)
  exact ⟨hall [] (limitLog 3) rfl, hall (limitLog 3) [] (List.append_nil _).symm⟩

/-- A limit that is lowered below the rounds that were started: the fold accepts the edit, and the
schema refuses the state after it. -/
theorem lowered_limit_not_checkpointable :
    foldEvents (limitLog 1) = .ok (limitState 1) ∧
      goalProjectionStateSchema (projectGoal (limitLog 1)).toJson = none ∧
      ¬∀ earlier later, limitLog 1 = earlier ++ later → Checkpointable earlier later := by
  have hnone : goalProjectionStateSchema (projectGoal (limitLog 1)).toJson = none := by
    decide +kernel
  refine ⟨by decide +kernel, hnone, fun h => ?_⟩
  obtain ⟨parsed, hparsed, -⟩ := (h (limitLog 1) [] (by simp)).state
  rw [hnone] at hparsed
  cases hparsed

end Goal

end TianmaCoder
