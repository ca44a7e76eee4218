import TianmaCoder.Goal.Codec
import TianmaCoder.Goal.Fold

/-!
# The history of a goal

What every log that the strict fold accepts has: the state of the fold is well formed, the
revision of the current goal counts its changes, no identity is created twice, and over the life
of a goal its creation time stands, its update time does not fall and only an edit replaces its
objective or its round limit. The projection of an accepted log is the fold of it.

## Main definitions

* `Rooted` — the invariant of the fold.
* `Life` — what a goal keeps from a point of the log on.

## Main results

* `foldEvents_rooted` — an accepted log is rooted.
* `life_of_append` — the life of a goal over a longer log.
* `projectGoal_eq` — the projection is the fold.
-/

namespace TianmaCoder

namespace Goal

open Checked

/-! ## Changes of a log -/

/-- The change that an event of the goal stream carries. -/
def changeOf (event : GoalEvent) : Option GoalChange :=
  match event.body with
  | .goalChange data => (decodeGoalChange data).toOption.join
  | _ => none

/-- The changes that name a goal. -/
def changesOf (id : String) (events : List GoalEvent) : ℕ :=
  events.countP fun event => (changeOf event).any fun change => (goalChangeRef change).id = id

/-- The identities that the log creates, in order. -/
def createdIds (events : List GoalEvent) : List String :=
  events.filterMap fun event =>
    match changeOf event with
    | some (.snapshot change) => if change.operation = .create then some change.goal.id else none
    | _ => none

/-- The event carries an edit. -/
def IsEdit (event : GoalEvent) : Prop :=
  ∃ change, changeOf event = some (.snapshot change) ∧ change.operation = .edit

/-! ## The cases of one step -/

variable {state next : GoalFoldState} {event : GoalEvent}

/-- An accepted event: a change, an admitted round, or an event the goal domain passes over. -/
theorem applyGoalEvent_cases (h : applyGoalEvent state event = .ok next) :
    (∃ change, changeOf event = some change ∧ change.WellFormed ∧
        applyGoalChange state change = .ok next) ∨
      changeOf event = none ∧ ((∃ round, isNextRound state round = true ∧
        next = { state with roundsStarted := round.round }) ∨ next = state) := by
  unfold applyGoalEvent at h
  cases hbody : event.body with
  | goalChange data =>
    simp only [hbody, bind_ok_iff] at h
    obtain ⟨decoded, hdecode, happly⟩ := h
    cases decoded with
    | none => simp at happly
    | some change =>
      left
      refine ⟨change, ?_, wellFormed_of_decodeGoalChange hdecode, happly⟩
      simp [changeOf, hbody, hdecode, Except.toOption]
  | userMessage source =>
    right
    refine ⟨by simp [changeOf, hbody], ?_⟩
    cases source with
    | none =>
      simp only [hbody, pure_eq, Except.ok.injEq] at h
      exact .inr h.symm
    | some source =>
      simp only [hbody, bind_ok_iff, applyRound] at h
      obtain ⟨round, _, hround⟩ := h
      by_cases hnext : isNextRound state round = true
      · simp only [hnext, if_true, pure_eq, Except.ok.injEq] at hround
        exact .inl ⟨round, hnext, hround.symm⟩
      · simp [hnext] at hround
  | other =>
    right
    simp only [hbody, pure_eq, Except.ok.injEq] at h
    exact ⟨by simp [changeOf, hbody], .inr h.symm⟩

variable {current : GoalSnapshot}

theorem requireNextRevision_ok {next : GoalRef} {operation : String} {u : Unit}
    (h : requireNextRevision current next operation = .ok u) :
    next.id = current.id ∧ next.revision = current.revision + 1 := by
  simp only [requireNextRevision, throw_eq, guard_ok_iff, not_or, not_not] at h
  exact h.1

theorem requireSameDefinition_ok {next : GoalSnapshot} {operation : String} {u : Unit}
    (h : requireSameDefinition current next operation = .ok u) :
    next.objective = current.objective ∧ next.maxGoalRounds = current.maxGoalRounds := by
  simp only [requireSameDefinition, throw_eq, guard_ok_iff, not_or, not_not] at h
  exact h.1

theorem validatePhase_ok {operation : SnapshotOperation} {next : GoalSnapshot} {u : Unit}
    (h : validatePhase state operation current next = .ok u) (hedit : operation ≠ .edit) :
    next.objective = current.objective ∧ next.maxGoalRounds = current.maxGoalRounds := by
  have htransition : ∀ {op : SnapshotOperation} {allowed : Bool} {error : String},
      requireTransition current next op allowed error = .ok u →
        next.objective = current.objective ∧ next.maxGoalRounds = current.maxGoalRounds := by
    intro op allowed error hrequire
    simp only [requireTransition, bind_ok_iff] at hrequire
    obtain ⟨_, hsame, _⟩ := hrequire
    exact requireSameDefinition_ok hsame
  cases operation with
  | edit => exact absurd rfl hedit
  | create => simp [validatePhase] at h
  | pause => exact htransition h
  | resume => exact htransition h
  | complete => exact htransition h
  | block => exact htransition h

/-- What an accepted change does. -/
inductive Applied (state : GoalFoldState) : GoalChange → GoalFoldState → Prop where
  | created (change : GoalSnapshotChange) (hop : change.operation = .create)
      (hrevision : change.goal.revision = 1) (hrounds : change.roundsStarted = 0)
      (hcurrent : ∀ current, state.goal = some current → current.phase = .complete)
      (hfresh : change.goal.id ∉ state.seenGoalIds) :
      Applied state (.snapshot change)
        (setSnapshot { state with seenGoalIds := state.seenGoalIds ++ [change.goal.id] } change)
  | advanced (change : GoalSnapshotChange) (current : GoalSnapshot) (updatedAt : ℤ)
      (hop : change.operation ≠ .create) (hgoal : state.goal = some current)
      (hid : change.goal.id = current.id) (hrevision : change.goal.revision = current.revision + 1)
      (hcreated : state.createdAt = some change.createdAt)
      (hupdated : state.updatedAt = some updatedAt) (hle : updatedAt ≤ change.updatedAt)
      (hrounds : change.roundsStarted = state.roundsStarted)
      (hphase : validatePhase state change.operation current change.goal = .ok ()) :
      Applied state (.snapshot change) (setSnapshot state change)
  | cleared (ref : GoalRef) (clearedAt : ℤ) (current : GoalSnapshot)
      (hgoal : state.goal = some current) (hid : ref.id = current.id)
      (hrevision : ref.revision = current.revision + 1) (updatedAt : ℤ)
      (hupdated : state.updatedAt = some updatedAt) (hle : updatedAt ≤ clearedAt) :
      Applied state (.clear ref clearedAt) { state with
        goal := none, roundsStarted := 0, createdAt := none, updatedAt := none
        lastRef := some ref }

theorem applied_of_applyGoalChange {change : GoalChange}
    (h : applyGoalChange state change = .ok next) : Applied state change next := by
  cases change with
  | clear ref clearedAt =>
    unfold applyGoalChange applyClear at h
    cases hgoal : state.goal with
    | none => simp [hgoal] at h
    | some current =>
      simp only [hgoal, bind_ok_iff] at h
      obtain ⟨_, hrevision, hrest⟩ := h
      have href := requireNextRevision_ok hrevision
      cases hupdated : state.updatedAt with
      | none => simp [hupdated] at hrest
      | some updatedAt =>
        simp only [hupdated, throw_eq, guard_ok_iff, pure_eq, Except.ok.injEq] at hrest
        obtain ⟨hle, rfl⟩ := hrest
        exact .cleared ref clearedAt current hgoal href.1 href.2 updatedAt hupdated
          (not_lt.mp hle)
  | snapshot change =>
    unfold applyGoalChange at h
    by_cases hop : change.operation = .create
    · simp only [hop, if_true, applyCreate, throw_eq, guard_ok_iff, not_or, not_not, pure_eq,
        Except.ok.injEq] at h
      obtain ⟨⟨hrevision, hphase, hrounds, hcurrent, hfresh⟩, rfl⟩ := h
      refine .created change hop hrevision hrounds ?_ hfresh
      intro current hgoal
      simpa [hgoal] using hcurrent
    · simp only [hop, if_false, applySnapshot] at h
      cases hgoal : state.goal with
      | none => simp [hgoal] at h
      | some current =>
        simp only [hgoal, bind_ok_iff, validateSnapshotTransition] at h
        obtain ⟨⟨⟩, ⟨_, hrevision, hrest⟩, hpure⟩ := h
        have href := requireNextRevision_ok hrevision
        cases hupdated : state.updatedAt with
        | none => simp [hupdated] at hrest
        | some updatedAt =>
          simp only [hupdated, throw_eq, guard_ok_iff, not_or, not_not, not_lt] at hrest
          obtain ⟨⟨hcreated, hle, hrounds⟩, hphase⟩ := hrest
          cases hpure
          exact .advanced change current updatedAt hop hgoal href.1 href.2 hcreated.symm
            hupdated hle hrounds hphase

/-! ## The invariant of the fold -/

/-- What holds of the current goal. -/
structure Current (events : List GoalEvent) (state : GoalFoldState) (goal : GoalSnapshot) : Prop where
  wellFormed : goal.WellFormed
  seen : goal.id ∈ state.seenGoalIds
  revision : goal.revision = changesOf goal.id events
  times : ∃ createdAt updatedAt, state.createdAt = some createdAt ∧
    state.updatedAt = some updatedAt ∧ 0 ≤ createdAt ∧ createdAt ≤ updatedAt ∧
    updatedAt ≤ Json.maxSafeInteger
  roundsStarted : state.roundsStarted ≤ Json.maxSafeInteger

/-- What holds of the fold of an accepted log. -/
structure Rooted (events : List GoalEvent) (state : GoalFoldState) : Prop where
  seen_eq : state.seenGoalIds = createdIds events
  nodup : state.seenGoalIds.Nodup
  absent : ∀ id, id ∉ state.seenGoalIds → changesOf id events = 0
  current : ∀ goal, state.goal = some goal → Current events state goal
  idle : state.goal = none →
    state.roundsStarted = 0 ∧ state.createdAt = none ∧ state.updatedAt = none

theorem Rooted.empty : Rooted [] emptyGoalFoldState where
  seen_eq := rfl
  nodup := List.nodup_nil
  absent := by
    intro id _
    rfl
  current := by
    intro goal hgoal
    cases hgoal
  idle := by
    intro _
    exact ⟨rfl, rfl, rfl⟩

theorem changesOf_snoc (id : String) (events : List GoalEvent) (event : GoalEvent) :
    changesOf id (events ++ [event]) = changesOf id events +
      if (changeOf event).any fun change => (goalChangeRef change).id = id then 1 else 0 := by
  simp [changesOf, List.countP_append, List.countP_singleton]

theorem createdIds_snoc (events : List GoalEvent) (event : GoalEvent) :
    createdIds (events ++ [event]) = createdIds events ++ createdIds [event] :=
  List.filterMap_append

variable {events : List GoalEvent}

/-- An event without a change leaves the history of every goal as it was. -/
theorem Rooted.unchanged (h : Rooted events state) (hchange : changeOf event = none)
    {roundsStarted : ℕ} (hrounds : state.goal.isSome = true → roundsStarted ≤ Json.maxSafeInteger)
    (hidle : state.goal = none → roundsStarted = 0) :
    Rooted (events ++ [event]) { state with roundsStarted := roundsStarted } where
  seen_eq := by
    rw [createdIds_snoc, ← h.seen_eq]
    simp [createdIds, hchange]
  nodup := h.nodup
  absent := by
    intro id hid
    rw [changesOf_snoc, h.absent id hid, hchange]
    rfl
  current := by
    intro goal hgoal
    have hcurrent := h.current goal hgoal
    have hgoal' : state.goal = some goal := hgoal
    refine ⟨hcurrent.wellFormed, hcurrent.seen, ?_, hcurrent.times, hrounds (by simp [hgoal'])⟩
    rw [changesOf_snoc, hchange]
    exact hcurrent.revision
  idle := by
    intro hgoal
    exact ⟨hidle hgoal, (h.idle hgoal).2⟩

theorem Rooted.applied {change : GoalChange} (h : Rooted events state)
    (hchange : changeOf event = some change) (hwf : change.WellFormed)
    (happlied : Applied state change next) : Rooted (events ++ [event]) next := by
  cases happlied with
  | created change hop hrevision hrounds hcurrent hfresh =>
    have hcount : changesOf change.goal.id (events ++ [event]) = 1 := by
      rw [changesOf_snoc, h.absent _ hfresh, hchange]
      simp [goalChangeRef]
    refine ⟨?_, ?_, ?_, ?_, ?_⟩
    · rw [createdIds_snoc, ← h.seen_eq]
      simp [setSnapshot, createdIds, hchange, hop]
    · simp only [setSnapshot]
      exact List.nodup_append.mpr ⟨h.nodup, List.nodup_singleton _, by
        intro a ha b hb heq
        rw [List.mem_singleton] at hb
        exact hfresh (hb ▸ heq ▸ ha)⟩
    · intro id hid
      simp only [setSnapshot, List.mem_append, List.mem_singleton, not_or] at hid
      have hne : change.goal.id ≠ id := Ne.symm hid.2
      rw [changesOf_snoc, h.absent id hid.1, hchange]
      simp [goalChangeRef, hne]
    · intro goal hgoal
      simp only [setSnapshot, Option.some.injEq] at hgoal
      subst hgoal
      refine ⟨hwf.goal, by simp [setSnapshot], by rw [hcount, hrevision], ?_, hwf.roundsStarted⟩
      exact ⟨_, _, rfl, rfl, hwf.createdAt, hwf.updatedAt, hwf.updatedAt_le⟩
    · intro hgoal
      simp [setSnapshot] at hgoal
  | advanced change current updatedAt hop hgoal hid hrevision hcreated hupdated hle hrounds hphase =>
    have hbefore := h.current current hgoal
    refine ⟨?_, h.nodup, ?_, ?_, ?_⟩
    · rw [createdIds_snoc, ← h.seen_eq]
      simp [setSnapshot, createdIds, hchange, hop]
    · intro id hid'
      have hne : change.goal.id ≠ id := by
        intro heq
        exact hid' (heq ▸ hid ▸ hbefore.seen)
      rw [changesOf_snoc, h.absent id hid', hchange]
      simp [goalChangeRef, hne]
    · intro goal hgoal'
      simp only [setSnapshot, Option.some.injEq] at hgoal'
      subst hgoal'
      refine ⟨hwf.goal, ?_, ?_, ?_, hwf.roundsStarted⟩
      · rw [hid]
        exact hbefore.seen
      · rw [changesOf_snoc, hchange, hid, ← hbefore.revision, hrevision]
        simp [goalChangeRef, hid]
      · exact ⟨_, _, rfl, rfl, hwf.createdAt, hwf.updatedAt, hwf.updatedAt_le⟩
    · intro hnone
      simp [setSnapshot] at hnone
  | cleared ref clearedAt current hgoal hid hrevision updatedAt hupdated hle =>
    have hbefore := h.current current hgoal
    refine ⟨?_, h.nodup, ?_, ?_, ?_⟩
    · rw [createdIds_snoc, ← h.seen_eq]
      simp [createdIds, hchange]
    · intro id hid'
      have hne : ref.id ≠ id := by
        intro heq
        exact hid' (heq ▸ hid ▸ hbefore.seen)
      rw [changesOf_snoc, h.absent id hid', hchange]
      simp [goalChangeRef, hne]
    · intro goal hgoal'
      cases hgoal'
    · intro _
      exact ⟨rfl, rfl, rfl⟩

theorem Rooted.step (h : Rooted events state) (happly : applyGoalEvent state event = .ok next) :
    Rooted (events ++ [event]) next := by
  rcases applyGoalEvent_cases happly with
    ⟨change, hchange, hwf, hchanged⟩ | ⟨hchange, ⟨round, hround, rfl⟩ | rfl⟩
  · exact h.applied hchange hwf (applied_of_applyGoalChange hchanged)
  · cases hgoal : state.goal with
    | none => simp [isNextRound, hgoal] at hround
    | some goal =>
      have hcurrent := h.current goal hgoal
      simp only [isNextRound, hgoal, Option.any_some, Bool.and_eq_true, decide_eq_true_eq]
        at hround
      have hle := hround.2.trans hcurrent.wellFormed.maxGoalRounds.2
      rw [← hgoal]
      exact h.unchanged hchange (fun _ => hle) (by simp [hgoal])
  · refine h.unchanged hchange ?_ (fun hgoal => (h.idle hgoal).1)
    intro hsome
    obtain ⟨goal, hgoal⟩ := Option.isSome_iff_exists.mp hsome
    exact (h.current goal hgoal).roundsStarted

theorem foldEvents_rooted (h : foldEvents events = .ok state) : Rooted events state :=
  foldlM_induction (motive := fun events state => Rooted events state) h Rooted.empty
    fun _ _ _ _ _ hrooted happly => hrooted.step happly

/-! ## The life of a goal -/

/-- The goal has been created, and while it is current its creation time stands and its update
time has not fallen. -/
structure Life (id : String) (createdAt updatedAt : ℤ) (state : GoalFoldState) : Prop where
  seen : id ∈ state.seenGoalIds
  times : ∀ goal, state.goal = some goal → goal.id = id →
    state.createdAt = some createdAt ∧ ∃ latest, state.updatedAt = some latest ∧ updatedAt ≤ latest

theorem Life.step {id : String} {createdAt updatedAt : ℤ} (h : Life id createdAt updatedAt state)
    (happly : applyGoalEvent state event = .ok next) : Life id createdAt updatedAt next := by
  rcases applyGoalEvent_cases happly with
    ⟨change, _, _, hchanged⟩ | ⟨_, ⟨round, _, rfl⟩ | rfl⟩
  · cases applied_of_applyGoalChange hchanged with
    | created change hop hrevision hrounds hcurrent hfresh =>
      refine ⟨List.mem_append_left _ h.seen, ?_⟩
      intro goal hgoal hid
      simp only [setSnapshot, Option.some.injEq] at hgoal
      subst hgoal
      exact absurd (hid ▸ h.seen) hfresh
    | advanced change current before hop hgoal hid hrevision hcreated hupdated hle hrounds hphase =>
      refine ⟨h.seen, ?_⟩
      intro goal hgoal' hid'
      simp only [setSnapshot, Option.some.injEq] at hgoal'
      subst hgoal'
      obtain ⟨hcreatedAt, latest, hlatest, hbound⟩ := h.times current hgoal (hid.symm.trans hid')
      rw [hupdated, Option.some.injEq] at hlatest
      rw [hcreated] at hcreatedAt
      refine ⟨hcreatedAt, change.updatedAt, rfl, ?_⟩
      omega
    | cleared ref clearedAt current hgoal hid hrevision before hupdated hle =>
      refine ⟨h.seen, ?_⟩
      intro goal hgoal'
      cases hgoal'
  · exact ⟨h.seen, h.times⟩
  · exact h

/-- The creation time of a goal is constant and its update time non-decreasing, between any two
points of an accepted log at which the goal is current. -/
theorem life_of_append {later : List GoalEvent} (h : foldEvents events = .ok state)
    (hlater : foldEvents (events ++ later) = .ok next) {goal goal' : GoalSnapshot}
    (hgoal : state.goal = some goal) (hgoal' : next.goal = some goal') (hid : goal'.id = goal.id) :
    next.createdAt = state.createdAt ∧ ∃ before after, state.updatedAt = some before ∧
      next.updatedAt = some after ∧ before ≤ after := by
  have hcurrent := (foldEvents_rooted h).current goal hgoal
  obtain ⟨createdAt, updatedAt, hcreated, hupdated, _⟩ := hcurrent.times
  have hlife : Life goal.id createdAt updatedAt state :=
    ⟨hcurrent.seen, fun _ _ _ => ⟨hcreated, updatedAt, hupdated, le_refl _⟩⟩
  have hrest : later.foldlM applyGoalEvent state = .ok next := by
    obtain ⟨middle, hmiddle, hrest⟩ := foldlM_prefix_ok hlater
    have heq : middle = state := Except.ok.inj (hmiddle.symm.trans h)
    exact heq ▸ hrest
  have hend : Life goal.id createdAt updatedAt next :=
    foldlM_induction (motive := fun _ state => Life goal.id createdAt updatedAt state) hrest hlife
      fun _ _ _ _ _ hlife happly => hlife.step happly
  obtain ⟨hcreated', latest, hlatest, hle⟩ := hend.times goal' hgoal' hid
  exact ⟨by rw [hcreated', hcreated], updatedAt, latest, hupdated, hlatest, hle⟩

theorem definition_of_not_edit (h : foldEvents events = .ok state)
    (happly : applyGoalEvent state event = .ok next) (hedit : ¬IsEdit event)
    {goal goal' : GoalSnapshot} (hgoal : state.goal = some goal) (hgoal' : next.goal = some goal')
    (hid : goal'.id = goal.id) :
    goal'.objective = goal.objective ∧ goal'.maxGoalRounds = goal.maxGoalRounds := by
  have hcurrent := (foldEvents_rooted h).current goal hgoal
  rcases applyGoalEvent_cases happly with
    ⟨change, hchange, _, hchanged⟩ | ⟨_, ⟨round, _, rfl⟩ | rfl⟩
  · cases applied_of_applyGoalChange hchanged with
    | created change hop hrevision hrounds hother hfresh =>
      simp only [setSnapshot, Option.some.injEq] at hgoal'
      subst hgoal'
      exact absurd (hid ▸ hcurrent.seen) hfresh
    | advanced change current before hop hsome hid' hrevision hcreated hupdated hle hrounds hphase =>
      simp only [setSnapshot, Option.some.injEq] at hgoal'
      rw [hgoal, Option.some.injEq] at hsome
      subst hgoal' hsome
      exact validatePhase_ok hphase fun heq => hedit ⟨change, hchange, heq⟩
    | cleared ref clearedAt current hsome hid' hrevision before hupdated hle => cases hgoal'
  · have hsame : state.goal = some goal' := hgoal'
    rw [hgoal, Option.some.injEq] at hsame
    subst hsame
    exact ⟨rfl, rfl⟩
  · rw [hgoal, Option.some.injEq] at hgoal'
    subst hgoal'
    exact ⟨rfl, rfl⟩

/-! ## The projection is the fold -/

/-- The part of the accumulator that the projection keeps. -/
def GoalFoldState.kept (state : GoalFoldState) : GoalFoldState := { state with lastRef := none }

/-- No check of the fold reads the latest ref, and a change overwrites it. -/
theorem applyGoalChange_kept (state : GoalFoldState) (change : GoalChange) :
    applyGoalChange state.kept change = applyGoalChange state change := by
  cases change with
  | clear ref clearedAt =>
    cases hgoal : state.goal with
    | none => simp [applyGoalChange, applyClear, GoalFoldState.kept, hgoal]
    | some current =>
      cases hupdated : state.updatedAt with
      | none => simp [applyGoalChange, applyClear, GoalFoldState.kept, hgoal, hupdated]
      | some updatedAt => simp [applyGoalChange, applyClear, GoalFoldState.kept, hgoal, hupdated]
  | snapshot change =>
    by_cases hop : change.operation = .create
    · simp only [applyGoalChange, hop, if_true]
      rfl
    · simp only [applyGoalChange, hop, if_false]
      rfl

theorem applyGoalEvent_kept (state : GoalFoldState) (event : GoalEvent) :
    (applyGoalEvent state.kept event).map GoalFoldState.kept =
      (applyGoalEvent state event).map GoalFoldState.kept := by
  unfold applyGoalEvent
  cases event.body with
  | goalChange data =>
    cases hdecode : decodeGoalChange data with
    | error e => rfl
    | ok decoded =>
      cases decoded with
      | none => rfl
      | some change => simp only [applyGoalChange_kept]
  | userMessage source =>
    cases source with
    | none => rfl
    | some source =>
      cases hsource : goalSource source with
      | error e => simp only [hsource]; rfl
      | ok round =>
        simp only [hsource, ok_bind, applyRound]
        have hnext : isNextRound state.kept round = isNextRound state round := rfl
        rw [hnext]
        by_cases hround : isNextRound state round = true
        · simp only [hround, if_true]
          rfl
        · simp only [hround]
          rfl
  | other => rfl

theorem goalProjectionState_kept (state : GoalFoldState) :
    goalProjectionState state.kept = goalProjectionState state := rfl

/-- A rooted accumulator fits the projection, and is rebuilt from it up to the latest ref. -/
theorem Rooted.projected (h : Rooted events state) :
    ∃ projection, goalProjectionState state = .ok projection ∧
      projection.failure = none ∧ goalFoldState projection = state.kept := by
  cases hgoal : state.goal with
  | none =>
    obtain ⟨hrounds, hcreated, hupdated⟩ := h.idle hgoal
    refine ⟨⟨none, state.seenGoalIds, none⟩, by simp [goalProjectionState, hgoal], rfl, ?_⟩
    simp [goalFoldState, GoalFoldState.kept, hgoal, hrounds, hcreated, hupdated]
  | some goal =>
    obtain ⟨createdAt, updatedAt, hcreated, hupdated, _⟩ := (h.current goal hgoal).times
    refine ⟨⟨some ⟨goal, state.roundsStarted, createdAt, updatedAt⟩, state.seenGoalIds, none⟩,
      by simp [goalProjectionState, hgoal, hcreated, hupdated], rfl, ?_⟩
    simp [goalFoldState, GoalFoldState.kept, hgoal, hcreated, hupdated]

theorem applyGoalEvent_unrelated (h : isUnrelated event.body = true) (state : GoalFoldState) :
    applyGoalEvent state event = .ok state := by
  unfold applyGoalEvent
  cases hbody : event.body with
  | goalChange data => simp [hbody, isUnrelated] at h
  | userMessage source =>
    cases source with
    | none => rfl
    | some source => simp [hbody, isUnrelated] at h
  | other => rfl

variable {projection : GoalProjectionState}

theorem applyGoalProjection_ok (h : Rooted events state)
    (hprojection : goalProjectionState state = .ok projection)
    (happly : applyGoalEvent state event = .ok next) :
    goalProjectionState next = .ok (applyGoalProjection projection event) := by
  obtain ⟨projection', heq, hfailure, hfold⟩ := h.projected
  have hsame : projection' = projection := Except.ok.inj (heq.symm.trans hprojection)
  subst hsame
  obtain ⟨after, hafter, _⟩ := (h.step happly).projected
  by_cases hrelated : isUnrelated event.body = true
  · rw [applyGoalEvent_unrelated hrelated, Except.ok.injEq] at happly
    subst happly
    simp [applyGoalProjection, hfailure, hrelated, hprojection]
  · have hkept := applyGoalEvent_kept state event
    rw [happly] at hkept
    cases hrun : applyGoalEvent state.kept event with
    | error e => simp [hrun, Except.map] at hkept
    | ok reached =>
      simp only [hrun, Except.map, Except.ok.injEq] at hkept
      have hreached : goalProjectionState reached = .ok after := by
        rw [← goalProjectionState_kept, hkept, goalProjectionState_kept, hafter]
      simp [applyGoalProjection, hfailure, hrelated, hfold, hrun, hreached, hafter]

theorem applyGoalProjection_error {error : String} (h : Rooted events state)
    (hprojection : goalProjectionState state = .ok projection)
    (happly : applyGoalEvent state event = .error error) :
    (applyGoalProjection projection event).failure.isSome = true := by
  obtain ⟨projection', heq, hfailure, hfold⟩ := h.projected
  have hsame : projection' = projection := Except.ok.inj (heq.symm.trans hprojection)
  subst hsame
  have hrelated : ¬isUnrelated event.body = true := by
    intro hunrelated
    rw [applyGoalEvent_unrelated hunrelated] at happly
    cases happly
  have hkept := applyGoalEvent_kept state event
  rw [happly] at hkept
  cases hrun : applyGoalEvent state.kept event with
  | ok reached => simp [hrun, Except.map] at hkept
  | error e => simp [applyGoalProjection, hfailure, hrelated, hfold, hrun]

theorem applyGoalProjection_failed (h : projection.failure.isSome = true) (event : GoalEvent) :
    applyGoalProjection projection event = projection := by
  simp [applyGoalProjection, h]

theorem projectGoal_spec (events : List GoalEvent) :
    (∀ state, foldEvents events = .ok state →
        goalProjectionState state = .ok (projectGoal events)) ∧
      (∀ error, foldEvents events = .error error →
        (projectGoal events).failure.isSome = true) := by
  induction events using List.reverseRecOn with
  | nil =>
    constructor
    · intro state hstate
      cases hstate
      rfl
    · intro error herror
      cases herror
  | append_singleton events event ih =>
    have hproject : projectGoal (events ++ [event]) =
        applyGoalProjection (projectGoal events) event := by
      simp [projectGoal, List.foldl_append]
    have hfold : foldEvents (events ++ [event]) =
        foldEvents events >>= fun state => applyGoalEvent state event := foldlM_snoc _ _ _ _
    rw [hproject, hfold]
    cases hbefore : foldEvents events with
    | error e =>
      have hfailed := ih.2 e hbefore
      rw [applyGoalProjection_failed hfailed]
      constructor
      · intro state hstate
        cases hstate
      · intro _ _
        exact hfailed
    | ok state =>
      have hrooted := foldEvents_rooted hbefore
      constructor
      · intro next hnext
        exact applyGoalProjection_ok hrooted (ih.1 state hbefore) hnext
      · intro error herror
        exact applyGoalProjection_error hrooted (ih.1 state hbefore) herror

end Goal

end TianmaCoder
