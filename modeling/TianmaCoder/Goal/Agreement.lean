import TianmaCoder.Goal.History
import TianmaCoder.Goal.Service
import TianmaCoder.Lib.Transition

/-!
# The goal service and the goal fold agree

Every change that the service plans from the projection of an accepted log is decoded to itself
and accepted by the strict fold, so the log stays accepted and the projection stays its fold. The
one exception is a create whose clock reads a time before the epoch: its change is appended and
then refused, and the projection keeps the failure.

## Main definitions

* `Agreeing` — what holds of the log and the projection in a state.
* `Respects` — what holds of a call.
* `EarlyCreate` — a create that is appended with a negative time.

## Main results

* `plan_applies` — the fold accepts what the service plans.
* `agreement_iff` — a run agrees exactly when none of its creates is early.
-/

namespace TianmaCoder

namespace Goal

open Checked

/-! ## Arguments -/

theorem resolveMaxGoalRounds_ok {value : Value} {rounds : ℕ}
    (h : resolveMaxGoalRounds value = .ok rounds) : IsPositive rounds := by
  unfold resolveMaxGoalRounds at h
  split at h
  · next q =>
      simp only [goalError, throw_eq, guard_ok_iff, pure_eq, Except.ok.injEq] at h
      obtain ⟨hcheck, rfl⟩ := h
      simp only [Bool.or_eq_true, Bool.not_eq_true', not_or, Bool.not_eq_false] at hcheck
      have hsafe := hcheck.1
      have hone := hcheck.2
      simp only [Number.isSafeInteger, Bool.decide_and, Bool.and_eq_true, decide_eq_true_eq] at hsafe
      have hq : q = (q.num : ℚ) := by
        rw [← Rat.num_div_den q, hsafe.1]
        simp
      have hone' : (1 : ℤ) ≤ q.num := by
        simp only [Number.lt, Number.ofNat, Nat.cast_one, decide_eq_true_eq, not_lt] at hone
        rw [hq] at hone
        exact_mod_cast hone
      have hbound := hsafe.2.2
      simp only [Number.maxSafeInteger] at hbound
      simp only [IsPositive, Json.maxSafeInteger]
      omega
  · cases h

theorem resolveObjective_ok {value : Value} {objective : String}
    (h : resolveObjective value = .ok objective) : Text.isNormalized objective = true := by
  unfold resolveObjective at h
  split at h
  · next s =>
      simp only [goalError, throw_eq, guard_ok_iff, pure_eq, Except.ok.injEq] at h
      obtain ⟨hne, rfl⟩ := h
      exact Text.isNormalized_trim hne
  · cases h

theorem resolveBlockReason_ok {reason : Option (Value × Value)} {resolved : GoalBlockReason}
    (h : resolveBlockReason reason = .ok resolved) : resolved.WellFormed := by
  unfold resolveBlockReason at h
  split at h
  · next code message =>
      simp only [goalError, throw_eq, guard_ok_iff, pure_eq, Except.ok.injEq, Bool.or_eq_true,
        Bool.not_eq_true', decide_eq_true_eq, not_or, Bool.not_eq_false] at h
      obtain ⟨⟨hcode, hmessage⟩, rfl⟩ := h
      exact ⟨hcode, Text.isNormalized_trim hmessage⟩
  · cases h

theorem replacement_ok {α : Type} {p : α → Prop} {value : Value}
    {resolve : Value → Except Failure α} {current result : α} (hcurrent : p current)
    (hresolve : ∀ a, resolve value = .ok a → p a)
    (h : GoalWorld.replacement value resolve current = .ok result) : p result := by
  unfold GoalWorld.replacement at h
  by_cases hvalue : value = .undefined
  · simp only [hvalue, if_true, pure_eq, Except.ok.injEq] at h
    exact h ▸ hcurrent
  · simp only [hvalue, if_false] at h
    exact hresolve result h

/-! ## The current goal of the projection -/

/-- The projection holds the fold of the log. -/
structure GoalWorld.Sound (w : GoalWorld) (state : GoalFoldState) : Prop where
  fold_eq : foldEvents w.log = .ok state
  projection_eq : w.projection = projectGoal w.log

namespace GoalWorld

variable {w : GoalWorld} {state : GoalFoldState} {env : Surroundings}

theorem Sound.rooted (h : w.Sound state) : Rooted w.log state := foldEvents_rooted h.fold_eq

theorem Sound.projected (h : w.Sound state) : goalProjectionState state = .ok w.projection := by
  rw [h.projection_eq]
  exact (projectGoal_spec w.log).1 state h.fold_eq

theorem Sound.failure_eq (h : w.Sound state) : w.projection.failure = none := by
  obtain ⟨projection, heq, hfailure, _⟩ := h.rooted.projected
  have hsame : projection = w.projection := Except.ok.inj (heq.symm.trans h.projected)
  rw [← hsame, hfailure]

theorem Sound.kept_eq (h : w.Sound state) : goalFoldState w.projection = state.kept := by
  obtain ⟨projection, heq, _, hkept⟩ := h.rooted.projected
  have hsame : projection = w.projection := Except.ok.inj (heq.symm.trans h.projected)
  rw [← hsame, hkept]

variable {projection : GoalProjection}

/-- The accumulator behind a current projection. -/
theorem Sound.current (h : w.Sound state) (hcurrent : w.projection.current = some projection) :
    state.goal = some projection.goal ∧ state.roundsStarted = projection.roundsStarted ∧
      state.createdAt = some projection.createdAt ∧ state.updatedAt = some projection.updatedAt := by
  have hkept := h.kept_eq
  simp only [goalFoldState, hcurrent, Option.map_some, Option.getD_some, GoalFoldState.kept,
    GoalFoldState.mk.injEq] at hkept
  exact ⟨hkept.1.symm, hkept.2.1.symm, hkept.2.2.1.symm, hkept.2.2.2.1.symm⟩

theorem prepareMutation_ok {current : Option GoalProjection}
    (h : w.prepareMutation env = .ok current) :
    env.live = true ∧ w.projection.failure = none ∧ w.projection.current = current := by
  simp only [prepareMutation, bind_ok_iff] at h
  obtain ⟨_, hlive, hstate⟩ := h
  refine ⟨?_, ?_⟩
  · by_cases hl : env.live = true
    · exact hl
    · simp [assertLive, hl, goalError] at hlive
  · unfold GoalWorld.state at hstate
    cases hfailure : w.projection.failure with
    | some failure => simp [hfailure] at hstate
    | none =>
      simp only [hfailure, pure_eq, Except.ok.injEq] at hstate
      exact ⟨rfl, hstate⟩

variable [NumberFormat]

variable {ref : RefArgument}

theorem expectCurrent_ok {current : Option GoalProjection}
    (h : expectCurrent current ref = .ok projection) : current = some projection := by
  unfold expectCurrent at h
  split at h
  · cases h
  · next found =>
      simp only [goalError, throw_eq, guard_ok_iff, pure_eq, Except.ok.injEq] at h
      rw [h.2]

/-! ## Planned changes -/

/-- The decoder and the fold accept a change. -/
def Applies (state : GoalFoldState) (change : GoalChange) : Prop :=
  change.WellFormed ∧ ∃ next, applyGoalChange state change = .ok next

variable {goal : GoalSnapshot}

omit [NumberFormat] in
/-- A change that retains counters and times and obeys the phase rule is accepted. -/
theorem planCurrent_applies (h : w.Sound state) (hcurrent : w.projection.current = some projection)
    {operation : SnapshotOperation} (activation : GoalActivation) (hop : operation ≠ .create)
    (hid : goal.id = projection.goal.id) (hrevision : goal.revision = projection.goal.revision + 1)
    (hwf : goal.WellFormed) (hphase : validatePhase state operation projection.goal goal = .ok ()) :
    Applies state (planCurrent projection env operation goal activation).change := by
  obtain ⟨hgoal, hrounds, hcreated, hupdated⟩ := h.current hcurrent
  have hcur := h.rooted.current _ hgoal
  obtain ⟨createdAt, updatedAt, hc, hu, hlow, hle, hhigh⟩ := hcur.times
  rw [hcreated, Option.some.injEq] at hc
  rw [hupdated, Option.some.injEq] at hu
  have hnow := env.now.property.2
  have hstarted := hcur.roundsStarted
  simp only [maxTimeValue, Json.maxSafeInteger] at hnow hhigh hstarted
  refine ⟨⟨hwf, ?_, ?_, ?_, ?_⟩, setSnapshot state ⟨operation, goal, projection.roundsStarted,
    projection.createdAt, nextMutationTime projection env.now⟩, ?_⟩
  · simp only [Json.maxSafeInteger]
    omega
  · have hcreated_nonneg : 0 ≤ projection.createdAt := by omega
    exact hcreated_nonneg
  · simp only [nextMutationTime]
    omega
  · simp only [nextMutationTime, Json.maxSafeInteger]
    omega
  · have hnext : requireNextRevision projection.goal goal.toGoalRef operation.name = .ok () := by
      simp [requireNextRevision, hid, hrevision]
    have htime : ¬nextMutationTime projection env.now < projection.updatedAt := by
      simp only [nextMutationTime]
      omega
    simp only [planCurrent, applyGoalChange, hop, if_false, applySnapshot, hgoal,
      validateSnapshotTransition, hnext, ok_bind, hupdated, hcreated, hrounds, htime, ne_eq,
      not_true, false_or, hphase, pure_eq]

omit [NumberFormat] in
theorem next_revision (h : w.Sound state) (hspace : w.log.length < Json.maxArrayLength)
    (hgoal : state.goal = some goal) : IsPositive (goal.revision + 1) := by
  have hcur := h.rooted.current goal hgoal
  have hcount : changesOf goal.id w.log ≤ w.log.length := List.countP_le_length
  have hrevision := hcur.revision
  simp only [Json.maxArrayLength] at hspace
  simp only [IsPositive, Json.maxSafeInteger]
  omega

omit [NumberFormat] in
theorem withPhase_wellFormed (h : goal.WellFormed) (hrevision : IsPositive (goal.revision + 1))
    {phase : GoalPhase} (hphase : phase ≠ .blocked) :
    (withPhase goal phase).WellFormed where
  ref := ⟨h.ref.id, hrevision⟩
  objective := h.objective
  maxGoalRounds := h.maxGoalRounds
  blocked_iff := by simp [withPhase, hphase]
  reason := by simp [withPhase]

variable {plan : Plan}

theorem planTransition_applies (h : w.Sound state) (hspace : w.log.length < Json.maxArrayLength)
    {operation : SnapshotOperation} {allowed : List GoalPhase} {phase : GoalPhase}
    {activation : GoalActivation} (hop : operation ≠ .create) (hphase : phase ≠ .blocked)
    (hrule : ∀ current, current.phase ∈ allowed →
      validatePhase state operation current (withPhase current phase) = .ok ())
    (hplan : w.planTransition env ref operation allowed phase activation = .ok plan) :
    Applies state plan.change := by
  simp only [planTransition, bind_ok_iff] at hplan
  obtain ⟨current, hprepare, projection, hexpect, hplan⟩ := hplan
  obtain ⟨_, _, hcurrent⟩ := prepareMutation_ok hprepare
  have hsome := hcurrent.trans (expectCurrent_ok hexpect)
  have hgoal := (h.current hsome).1
  by_cases hallowed : projection.goal.phase ∉ allowed
  · simp [hallowed, transitionError, goalError] at hplan
  · rw [if_neg hallowed, pure_eq, Except.ok.injEq] at hplan
    subst hplan
    rw [not_not] at hallowed
    exact planCurrent_applies h hsome activation hop rfl rfl
      (withPhase_wellFormed (h.rooted.current _ hgoal).wellFormed (next_revision h hspace hgoal)
        hphase) (hrule _ hallowed)

theorem planEdit_applies (h : w.Sound state) (hspace : w.log.length < Json.maxArrayLength)
    {request : EditGoalRequest} (hplan : w.planEdit env ref request = .ok plan) :
    Applies state plan.change := by
  simp only [planEdit, bind_ok_iff] at hplan
  obtain ⟨current, hprepare, projection, hexpect, hplan⟩ := hplan
  obtain ⟨_, _, hcurrent⟩ := prepareMutation_ok hprepare
  have hsome := hcurrent.trans (expectCurrent_ok hexpect)
  have hgoal := (h.current hsome).1
  have hwf := (h.rooted.current _ hgoal).wellFormed
  simp only [goalError, throw_eq, guard_ok_iff, bind_ok_iff] at hplan
  obtain ⟨_, objective, hobjective, rounds, hrounds, hpure⟩ := hplan
  cases hpure
  refine planCurrent_applies h hsome _ (by simp) rfl rfl ⟨⟨hwf.ref.id, next_revision h hspace hgoal⟩,
    ?_, ?_, hwf.blocked_iff, hwf.reason⟩ ?_
  · exact replacement_ok (p := fun s => Text.isNormalized s = true) hwf.objective
      (fun _ ha => resolveObjective_ok ha) hobjective
  · exact replacement_ok (p := IsPositive) hwf.maxGoalRounds
      (fun _ ha => resolveMaxGoalRounds_ok ha) hrounds
  · simp [validatePhase]

theorem planResume_applies (h : w.Sound state) (hspace : w.log.length < Json.maxArrayLength)
    (hplan : w.planResume env ref = .ok plan) : Applies state plan.change := by
  simp only [planResume, bind_ok_iff] at hplan
  obtain ⟨current, hprepare, projection, hexpect, hplan⟩ := hplan
  obtain ⟨_, _, hcurrent⟩ := prepareMutation_ok hprepare
  have hsome := hcurrent.trans (expectCurrent_ok hexpect)
  obtain ⟨hgoal, hrounds, _⟩ := h.current hsome
  have hwf := (h.rooted.current _ hgoal).wellFormed
  by_cases hphase : projection.goal.phase ∉ [GoalPhase.active, .paused, .blocked]
  · simp [hphase, transitionError, goalError] at hplan
  · simp only [hphase, if_false, goalError, throw_eq, guard_ok_iff, pure_eq, Except.ok.injEq] at hplan
    obtain ⟨_, hbudget, rfl⟩ := hplan
    refine planCurrent_applies h hsome .armed (by simp) rfl rfl
      (withPhase_wellFormed hwf (next_revision h hspace hgoal) (by simp)) ?_
    rw [not_not] at hphase
    rw [← hrounds] at hbudget
    simp only [List.mem_cons, List.not_mem_nil, or_false] at hphase
    simp [validatePhase, requireTransition, requireSameDefinition, withPhase, hphase, hbudget,
      or_assoc]

theorem planBlock_applies (h : w.Sound state) (hspace : w.log.length < Json.maxArrayLength)
    {reason : Option (Value × Value)} (hplan : w.planBlock env ref reason = .ok plan) :
    Applies state plan.change := by
  simp only [planBlock, bind_ok_iff] at hplan
  obtain ⟨current, hprepare, projection, hexpect, hplan⟩ := hplan
  obtain ⟨_, _, hcurrent⟩ := prepareMutation_ok hprepare
  have hsome := hcurrent.trans (expectCurrent_ok hexpect)
  have hgoal := (h.current hsome).1
  have hwf := (h.rooted.current _ hgoal).wellFormed
  by_cases hphase : projection.goal.phase = .active
  · simp only [hphase, ne_eq, not_true, if_false, bind_ok_iff] at hplan
    obtain ⟨resolved, hresolved, hpure⟩ := hplan
    cases hpure
    refine planCurrent_applies h hsome .disarmed (by simp) rfl rfl
      ⟨⟨hwf.ref.id, next_revision h hspace hgoal⟩, hwf.objective, hwf.maxGoalRounds, ?_, ?_⟩ ?_
    · simp [withPhase]
    · intro found hfound
      cases hfound
      exact resolveBlockReason_ok hresolved
    · simp [validatePhase, requireTransition, requireSameDefinition, withPhase, hphase]
  · simp [hphase, transitionError, goalError] at hplan

theorem planClear_applies (h : w.Sound state) (hspace : w.log.length < Json.maxArrayLength)
    (hplan : w.planClear env ref = .ok plan) : Applies state plan.change := by
  simp only [planClear, bind_ok_iff] at hplan
  obtain ⟨current, hprepare, projection, hexpect, hpure⟩ := hplan
  obtain ⟨_, _, hcurrent⟩ := prepareMutation_ok hprepare
  have hsome := hcurrent.trans (expectCurrent_ok hexpect)
  obtain ⟨hgoal, _, hcreated, hupdated⟩ := h.current hsome
  have hcur := h.rooted.current _ hgoal
  obtain ⟨createdAt, updatedAt, _, hu, hlow, hle, hhigh⟩ := hcur.times
  rw [hupdated, Option.some.injEq] at hu
  have hnow := env.now.property.2
  simp only [maxTimeValue, Json.maxSafeInteger] at hnow hhigh
  cases hpure
  refine ⟨⟨⟨hcur.wellFormed.ref.id, next_revision h hspace hgoal⟩, ?_, ?_⟩, ?_⟩
  · simp only [nextMutationTime]
    omega
  · simp only [nextMutationTime, Json.maxSafeInteger]
    omega
  · have htime : ¬nextMutationTime projection env.now < projection.updatedAt := by
      simp only [nextMutationTime]
      omega
    simp [applyGoalChange, applyClear, hgoal, requireNextRevision, hupdated, htime]

variable {request : CreateGoalRequest}

omit [NumberFormat] in
theorem planCreate_checks {uuid : String} (hplan : w.planCreate env uuid request = .ok plan) :
    env.live = true ∧ (∃ spec, resolveCreateGoal request w.resolved.defaultMaxGoalRounds = .ok spec) ∧
      w.projection.failure = none ∧
      ∀ projection, w.projection.current = some projection → projection.goal.phase = .complete := by
  simp only [planCreate, bind_ok_iff] at hplan
  obtain ⟨spec, hspec, current, hprepare, hplan⟩ := hplan
  obtain ⟨hlive, hfailure, rfl⟩ := prepareMutation_ok hprepare
  refine ⟨hlive, ⟨spec, hspec⟩, hfailure, ?_⟩
  intro projection hcurrent
  by_contra hphase
  have hfilter : (some projection).filter (fun projection => projection.goal.phase ≠ .complete) =
      some projection := by simp [Option.filter, hphase]
  rw [hcurrent, hfilter] at hplan
  cases hplan

omit [NumberFormat] in
theorem planCreate_of_checks {spec : ResolvedCreateGoal} (hlive : env.live = true)
    (hspec : resolveCreateGoal request w.resolved.defaultMaxGoalRounds = .ok spec)
    (hfailure : w.projection.failure = none)
    (hcurrent : ∀ projection, w.projection.current = some projection →
      projection.goal.phase = .complete) (uuid : String) :
    ∃ change, change.createdAt = env.now.val ∧
      w.planCreate env uuid request = .ok ⟨.snapshot change, .armed⟩ := by
  have hopen : w.projection.current.filter (fun projection => projection.goal.phase ≠ .complete) =
      none := by
    cases hsome : w.projection.current with
    | none => rfl
    | some projection => simp [Option.filter, hcurrent projection hsome]
  refine ⟨⟨.create, ⟨⟨drawnId uuid, 1⟩, spec.objective, .active, none, spec.maxGoalRounds⟩, 0,
    env.now.val, env.now.val⟩, rfl, ?_⟩
  simp only [planCreate, hspec, ok_bind, prepareMutation, assertLive, hlive, if_true, pure_eq,
    GoalWorld.state, hfailure]
  rw [hopen]

omit [NumberFormat] in
theorem planCreate_ok (h : w.Sound state) {uuid : String}
    (hplan : w.planCreate env uuid request = .ok plan) :
    ∃ change, plan.change = .snapshot change ∧ change.createdAt = env.now.val ∧
      (0 ≤ env.now.val → drawnId uuid ∉ w.projection.seenGoalIds → Applies state plan.change) := by
  simp only [planCreate, bind_ok_iff] at hplan
  obtain ⟨spec, hspec, current, hprepare, hplan⟩ := hplan
  obtain ⟨_, _, hcurrent⟩ := prepareMutation_ok hprepare
  cases hopen : current.filter fun projection => projection.goal.phase ≠ .complete with
  | some projection =>
    rw [hopen] at hplan
    cases hplan
  | none =>
    rw [hopen] at hplan
    cases hplan
    refine ⟨_, rfl, rfl, ?_⟩
    intro hnow hfresh
    simp only [resolveCreateGoal, bind_ok_iff] at hspec
    obtain ⟨objective, hobjective, rounds, hrounds, hpure⟩ := hspec
    cases hpure
    have hhigh := env.now.property.2
    simp only [maxTimeValue] at hhigh
    have hid : drawnId uuid ≠ "" := by
      intro hempty
      have hlength := congrArg String.length hempty
      simp [drawnId] at hlength
    refine ⟨⟨⟨⟨hid, by simp [IsPositive, Json.maxSafeInteger]⟩, resolveObjective_ok hobjective,
      resolveMaxGoalRounds_ok hrounds, by simp, by simp⟩, Nat.zero_le _, hnow, le_refl _, ?_⟩, ?_⟩
    · simp only [Json.maxSafeInteger]
      omega
    · have hseen : state.seenGoalIds = w.projection.seenGoalIds := by
        have hkept := congrArg GoalFoldState.seenGoalIds h.kept_eq
        exact hkept.symm
      have hdone : (state.goal.any fun goal => goal.phase ≠ .complete) = false := by
        have hkept := congrArg GoalFoldState.goal h.kept_eq
        simp only [goalFoldState, GoalFoldState.kept, hcurrent] at hkept
        rw [← hkept]
        cases current with
        | none => rfl
        | some projection => simpa [Option.filter] using hopen
      simp only [ne_eq, decide_not] at hdone
      simp [applyGoalChange, applyCreate, hdone, hseen, hfresh]

end GoalWorld

/-! ## Runs -/

/-- What the run assumes of its surroundings: a drawn identity has not been drawn before, and a
round another component admits is the next one of the active goal. -/
def Admissible (w : GoalWorld) : Operation → Prop
  | .mutate _ (.create uuid _) => GoalWorld.drawnId uuid ∉ w.projection.seenGoalIds
  | .round source => ∃ round, goalSource source = .ok round ∧
      isNextRound (goalFoldState w.projection) round = true
  | _ => True

/-- A create that passes its checks, whose append the session accepts, at a time before the
epoch. -/
structure EarlyCreate (w : GoalWorld) (env : Surroundings) (request : CreateGoalRequest) : Prop where
  now : env.now.val < 0
  live : env.live = true
  request : ∃ spec, resolveCreateGoal request w.resolved.defaultMaxGoalRounds = .ok spec
  failure : w.projection.failure = none
  current : ∀ projection, w.projection.current = some projection → projection.goal.phase = .complete
  refusal : env.refusal = none
  space : w.log.length < Json.maxArrayLength

/-- The operation is not such a create. -/
def Timely (w : GoalWorld) : Operation → Prop
  | .mutate env (.create _ request) => ¬EarlyCreate w env request
  | _ => True

/-- The fold accepts the log, the projection is its fold, and the history of its goals holds. -/
structure Agreeing (w : GoalWorld) : Prop where
  /-- The incremental projection is the strict fold of the whole log. -/
  fold : w.projection = projectGoal w.log ∧
    ∃ state, foldEvents w.log = .ok state ∧ goalProjectionState state = .ok w.projection
  /-- The revision of the current goal is the number of its changes. -/
  revision : ∀ current, w.projection.current = some current →
    current.goal.revision = changesOf current.goal.id w.log
  /-- No identity is created twice. -/
  created : (createdIds w.log).Nodup
  /-- Creation times are constant and update times non-decreasing over the life of a goal. -/
  life : ∀ earlier middle later before after goal goal', w.log = earlier ++ middle ++ later →
    foldEvents earlier = .ok before → foldEvents (earlier ++ middle) = .ok after →
    before.goal = some goal → after.goal = some goal' → goal'.id = goal.id →
    after.createdAt = before.createdAt ∧ ∃ t t', before.updatedAt = some t ∧
      after.updatedAt = some t' ∧ t ≤ t'
  /-- Only an edit replaces the objective or the round limit of a goal. -/
  definition : ∀ earlier event later before after goal goal', w.log = earlier ++ event :: later →
    foldEvents earlier = .ok before → applyGoalEvent before event = .ok after → ¬IsEdit event →
    before.goal = some goal → after.goal = some goal' → goal'.id = goal.id →
    goal'.objective = goal.objective ∧ goal'.maxGoalRounds = goal.maxGoalRounds

/-- A call that throws changes neither log nor projection; what a call appends is at most one
event, and a change it appends is accepted by the decoder and by the fold. -/
structure Respects (w w' : GoalWorld) (result : Except Failure Unit) : Prop where
  thrown : ∀ e, result = .error e → w'.log = w.log ∧ w'.projection = w.projection
  appended : w'.log = w.log ∨ ∃ event, w'.log = w.log ++ [event] ∧
    ∀ data, event.body = .goalChange data → ∃ state change next,
      foldEvents w.log = .ok state ∧ decodeGoalChange data = .ok (some change) ∧
        applyGoalChange state change = .ok next

namespace GoalWorld

variable {w : GoalWorld} {state : GoalFoldState}

theorem Sound.agreeing (h : w.Sound state) : Agreeing w where
  fold := ⟨h.projection_eq, state, h.fold_eq, h.projected⟩
  revision := by
    intro current hcurrent
    exact (h.rooted.current _ (h.current hcurrent).1).revision
  created := h.rooted.seen_eq ▸ h.rooted.nodup
  life := by
    intro earlier middle later before after goal goal' _ hbefore hafter hgoal hgoal' hid
    exact life_of_append hbefore hafter hgoal hgoal' hid
  definition := by
    intro earlier event later before after goal goal' _ hbefore happly hedit hgoal hgoal' hid
    exact definition_of_not_edit hbefore happly hedit hgoal hgoal' hid

/-- An append that the fold accepts keeps the world sound. -/
theorem append_sound (h : w.Sound state) {refusal : Option String} {body : EventBody} {w' : GoalWorld}
    {next : GoalFoldState} (happend : w.append refusal body = .ok w')
    (happly : applyGoalEvent state ⟨w.log.length, body⟩ = .ok next) :
    w'.Sound next ∧ w'.log = w.log ++ [⟨w.log.length, body⟩] := by
  unfold append at happend
  cases refusal with
  | some message => cases happend
  | none =>
    simp only [throw_eq, guard_ok_iff, pure_eq, Except.ok.injEq] at happend
    obtain ⟨_, rfl⟩ := happend
    refine ⟨⟨?_, ?_⟩, rfl⟩
    · have hfold := h.fold_eq
      rw [foldEvents] at hfold ⊢
      simp only [foldlM_snoc, hfold, ok_bind, happly]
    · simp only [h.projection_eq, projectGoal, List.foldl_append, List.foldl_cons, List.foldl_nil]

theorem append_ok {refusal : Option String} {body : EventBody} {w' : GoalWorld}
    (happend : w.append refusal body = .ok w') :
    refusal = none ∧ w.log.length < Json.maxArrayLength := by
  unfold append at happend
  cases refusal with
  | some message => cases happend
  | none =>
    simp only [throw_eq, guard_ok_iff] at happend
    exact ⟨rfl, not_le.mp happend.1⟩

variable {env : Surroundings}

theorem commit_spec (h : w.Sound state) {plan : Plan}
    (happlies : env.refusal = none → w.log.length < Json.maxArrayLength →
      Applies state plan.change) :
    (∃ next, (w.commit env plan).1.Sound next) ∧
      Respects w (w.commit env plan).1 ((w.commit env plan).2.map fun _ => ()) := by
  unfold commit
  cases happend : w.append env.refusal (.goalChange plan.change.toJson) with
  | error e =>
    refine ⟨⟨state, h⟩, ⟨fun _ _ => ⟨rfl, rfl⟩, .inl rfl⟩⟩
  | ok w' =>
    obtain ⟨hrefusal, hspace⟩ := append_ok happend
    obtain ⟨hwf, next, hnext⟩ := happlies hrefusal hspace
    have hdecode := decodeGoalChange_toJson hwf
    have happly : applyGoalEvent state ⟨w.log.length, .goalChange plan.change.toJson⟩ = .ok next := by
      simp [applyGoalEvent, hdecode, hnext]
    obtain ⟨hsound, hlog⟩ := append_sound h happend happly
    have hcommitted : ({ w' with activation := plan.activation } : GoalWorld).Sound next :=
      ⟨hsound.fold_eq, hsound.projection_eq⟩
    refine ⟨⟨next, hcommitted⟩, ?_, ?_⟩
    · intro e he
      simp [GoalWorld.state, hsound.failure_eq, Except.map] at he
    · refine .inr ⟨_, hlog, ?_⟩
      intro data hdata
      cases hdata
      exact ⟨state, plan.change, next, h.fold_eq, hdecode, hnext⟩

theorem observe_spec (h : w.Sound state) {body : EventBody} {next : GoalFoldState}
    (happly : applyGoalEvent state ⟨w.log.length, body⟩ = .ok next)
    (hbody : ∀ data, body ≠ .goalChange data) :
    (∃ next, (w.observe body).1.Sound next) ∧ Respects w (w.observe body).1 (w.observe body).2 := by
  unfold observe
  cases happend : w.append none body with
  | error e => exact ⟨⟨state, h⟩, ⟨fun _ _ => ⟨rfl, rfl⟩, .inl rfl⟩⟩
  | ok w' =>
    obtain ⟨hsound, hlog⟩ := append_sound h happend happly
    refine ⟨⟨next, hsound⟩, ⟨?_, .inr ⟨_, hlog, fun data hdata => absurd hdata (hbody data)⟩⟩⟩
    intro e he
    cases he

variable [NumberFormat]

theorem plan_applies (h : w.Sound state) {mutation : Mutation} {plan : Plan}
    (hplan : w.plan env mutation = .ok plan) (hspace : w.log.length < Json.maxArrayLength)
    (hrefusal : env.refusal = none) (hadmissible : Admissible w (.mutate env mutation))
    (htimely : Timely w (.mutate env mutation)) : Applies state plan.change := by
  cases mutation with
  | create uuid request =>
    obtain ⟨change, _, _, happlies⟩ := planCreate_ok h hplan
    refine happlies ?_ hadmissible
    obtain ⟨hlive, hspec, hfailure, hcurrent⟩ := planCreate_checks hplan
    by_contra hnow
    exact htimely ⟨not_le.mp hnow, hlive, hspec, hfailure, hcurrent, hrefusal, hspace⟩
  | edit ref request => exact planEdit_applies h hspace hplan
  | pause ref =>
    refine planTransition_applies h hspace (by simp) (by simp) ?_ hplan
    intro current hallowed
    have hphase := List.mem_singleton.mp hallowed
    simp [validatePhase, requireTransition, requireSameDefinition, withPhase, hphase]
  | resume ref => exact planResume_applies h hspace hplan
  | complete ref =>
    refine planTransition_applies h hspace (by simp) (by simp) ?_ hplan
    intro current hallowed
    have hphase : current.phase ≠ .complete := by
      intro heq
      simp [heq] at hallowed
    simp [validatePhase, requireTransition, requireSameDefinition, withPhase, hphase]
  | block ref reason => exact planBlock_applies h hspace hplan
  | clear ref => exact planClear_applies h hspace hplan

theorem exec_spec (h : w.Sound state) {operation : Operation} (hadmissible : Admissible w operation)
    (htimely : Timely w operation) :
    (∃ next, (w.exec operation).1.Sound next) ∧
      Respects w (w.exec operation).1 (w.exec operation).2 := by
  cases operation with
  | mutate env mutation =>
    simp only [exec, mutate]
    cases hplan : w.plan env mutation with
    | error e => exact ⟨⟨state, h⟩, ⟨fun _ _ => ⟨rfl, rfl⟩, .inl rfl⟩⟩
    | ok plan =>
      exact commit_spec h fun hrefusal hspace =>
        plan_applies h hplan hspace hrefusal hadmissible htimely
  | disarm =>
    refine ⟨⟨state, h.fold_eq, h.projection_eq⟩, ⟨?_, .inl rfl⟩⟩
    intro e he
    cases he
  | round source =>
    obtain ⟨round, hsource, hnext⟩ := hadmissible
    have hround : isNextRound state round = true := by
      rw [h.kept_eq] at hnext
      exact hnext
    have happly : applyGoalEvent state ⟨w.log.length, .userMessage (some source)⟩ =
        .ok { state with roundsStarted := round.round } := by
      simp [applyGoalEvent, hsource, applyRound, hround]
    exact observe_spec h happly (fun data hdata => by cases hdata)
  | message => exact observe_spec h rfl (fun data hdata => by cases hdata)
  | other => exact observe_spec h rfl (fun data hdata => by cases hdata)

theorem not_respects_of_early {uuid : String} {request : CreateGoalRequest}
    (h : EarlyCreate w env request) :
    ¬Respects w (w.exec (.mutate env (.create uuid request))).1
      (w.exec (.mutate env (.create uuid request))).2 := by
  obtain ⟨spec, hspec⟩ := h.request
  obtain ⟨change, hcreated, hplan⟩ := planCreate_of_checks h.live hspec h.failure h.current uuid
  have hlog : (w.exec (.mutate env (.create uuid request))).1.log =
      w.log ++ [⟨w.log.length, .goalChange (GoalChange.snapshot change).toJson⟩] := by
    simp [exec, mutate, plan, hplan, commit, append, h.refusal, not_le.mpr h.space]
  intro hrespects
  rcases hrespects.appended with hsame | ⟨event, hevent, haccepted⟩
  · rw [hlog] at hsame
    have hlength := congrArg List.length hsame
    simp at hlength
  · rw [hlog, List.append_cancel_left_eq, List.cons.injEq] at hevent
    obtain ⟨state, decoded, next, _, hdecode, _⟩ := haccepted _
      (congrArg GoalEvent.body hevent.1.symm)
    have hnonneg := createdAt_of_decodeGoalChange hdecode
    have hnow := h.now
    omega

end GoalWorld

/-- A session over a log, with the projection materialized. -/
def opened (resolved : ResolvedConfig) (log : List GoalEvent) : GoalWorld :=
  ⟨resolved, log, projectGoal log, .disarmed⟩

/-- A run from an accepted log agrees, in every state and at every call, exactly when none of its
creates is early. -/
theorem agreement_iff [NumberFormat] (resolved : ResolvedConfig) {log : List GoalEvent}
    {state : GoalFoldState} (h : foldEvents log = .ok state) (operations : List Operation)
    (hadmissible : Transition.Guarded GoalWorld.step Admissible (opened resolved log) operations) :
    (Agreeing (opened resolved log) ∧ Transition.Guarded GoalWorld.step
        (fun w operation => Respects w (w.exec operation).1 (w.exec operation).2 ∧
          Agreeing (w.exec operation).1) (opened resolved log) operations) ↔
      Transition.Guarded GoalWorld.step Timely (opened resolved log) operations := by
  have hinit : ∃ state, (opened resolved log).Sound state := ⟨state, h, rfl⟩
  have hiff : ∀ (w : GoalWorld) (operation : Operation), (∃ state, w.Sound state) →
      Admissible w operation →
      ((Respects w (w.exec operation).1 (w.exec operation).2 ∧ Agreeing (w.exec operation).1) ↔
        Timely w operation) := by
    rintro w operation ⟨state, hsound⟩ hadmissible
    constructor
    · intro hstep
      cases operation with
      | mutate env mutation =>
        cases mutation with
        | create uuid request =>
          intro hearly
          exact GoalWorld.not_respects_of_early hearly hstep.1
        | edit | pause | resume | complete | block | clear => trivial
      | disarm | round | message | other => trivial
    · intro htimely
      obtain ⟨⟨next, hnext⟩, hrespects⟩ := GoalWorld.exec_spec hsound hadmissible htimely
      exact ⟨hrespects, hnext.agreeing⟩
  have hkeep : ∀ (w : GoalWorld) (operation : Operation) (w' : GoalWorld), (∃ state, w.Sound state) →
      Admissible w operation → Timely w operation → w.step operation = some w' →
      ∃ state, w'.Sound state := by
    rintro w operation w' ⟨state, hsound⟩ hadmissible htimely hstep
    cases hstep
    exact (GoalWorld.exec_spec hsound hadmissible htimely).1
  have hguarded := Transition.guarded_congr_under hiff hkeep hinit hadmissible
  rw [hguarded]
  obtain ⟨start, hsound⟩ := hinit
  exact and_iff_right hsound.agreeing

/-! ## A create before the epoch -/

private instance goalNumberFormat : NumberFormat := ⟨fun q => toString q⟩

/-- The configured default. -/
def defaults : ResolvedConfig := ⟨256, by decide, by decide⟩

/-- A live agent, at a reading of the clock. -/
def liveAt (now : ℤ) (h : -maxTimeValue ≤ now ∧ now ≤ maxTimeValue) : Surroundings :=
  ⟨"agent", true, ⟨now, h⟩, none⟩

/-- One millisecond before the epoch. -/
def beforeEpoch : Surroundings := liveAt (-1) (by decide)

def shipRequest : CreateGoalRequest := ⟨.str "ship", .undefined⟩

/-- The create is appended with a negative time, and its own decoder refuses the event. -/
theorem early_create_refused :
    ¬Respects (opened defaults [])
      ((opened defaults []).exec (.mutate beforeEpoch (.create "0" shipRequest))).1
      ((opened defaults []).exec (.mutate beforeEpoch (.create "0" shipRequest))).2 := by
  have hspec : resolveCreateGoal shipRequest 256 = .ok ⟨"ship", 256⟩ := by decide +kernel
  refine GoalWorld.not_respects_of_early ⟨by decide, rfl, ⟨_, hspec⟩, rfl, ?_, rfl, by decide⟩
  intro projection hcurrent
  cases hcurrent

/-- A goal created at a time after the epoch and then paused at an earlier one. -/
theorem agreement_create_pause : let operations : List Operation :=
      [.mutate (liveAt 100 (by decide)) (.create "0" shipRequest),
        .mutate (liveAt 90 (by decide)) (.pause ⟨"goal-0", .ofNat 1⟩)]
    (Agreeing (opened defaults []) ∧ Transition.Guarded GoalWorld.step
        (fun w operation => Respects w (w.exec operation).1 (w.exec operation).2 ∧
          Agreeing (w.exec operation).1) (opened defaults []) operations) ↔
      Transition.Guarded GoalWorld.step Timely (opened defaults []) operations :=
  agreement_iff defaults (by exact rfl : foldEvents [] = .ok emptyGoalFoldState) _
    ⟨by simp [Admissible, opened, projectGoal, GoalProjectionState.init], fun _ _ =>
      ⟨trivial, fun _ _ => trivial⟩⟩

end Goal

end TianmaCoder
