import TianmaCoder.Schedule.Due

/-!
# Fixed-rate reminders keep their grid

The runtime resolves a fixed-rate reminder when it finds it due, delivers the latest occurrence
and anchors the record anew at the next target. The occurrences are still those of the grid of
the created record, each decision taking the latest point that is due.

## Main definitions

* `decideEvery`, `fixedRate` — one decision about a record, and the run of decisions.
* `OnGrid` — a record that is anchored at a point of a grid.
* `GridKept` — what the decisions about a record keep.

## Main results

* `fixedRate_simulates` — the run is the enumeration of the grid.
* `fixed_rate_grid` — every fixed-rate record keeps its grid.
-/

namespace TianmaCoder

namespace Schedule

open Checked

/-- One decision about a fixed-rate reminder: what is delivered if it is due, and the record that
is active afterwards. -/
def decideEvery (record : ScheduleRecord) (now : ℤ) :
    Except String (Option String × Option ScheduleRecord) :=
  if isDue now record then do
    let reminder ← everyDue now record
    let next ← dispatchedRecord record (some (Instant.toISOString now))
    pure (some reminder.2, next)
  else pure (none, some record)

/-- The decisions about a reminder while it is active; a refused one leaves it as it is. -/
def fixedRate : Machine (Option ScheduleRecord) ℤ (Except String (Option String)) where
  step record now :=
    match record with
    | none => (none, .ok none)
    | some record =>
      match decideEvery record now with
      | .ok (occurrence, next) => (next, .ok occurrence)
      | .error error => (some record, .error error)

variable {record active : ScheduleRecord} {seconds target now : ℤ}

/-- A record that differs from another at most in its target, which is a point of the grid. -/
structure OnGrid (record active : ScheduleRecord) (seconds target current : ℤ) : Prop where
  same : active = { record with scheduledAt := Instant.toISOString current }
  mem : current ∈ Grid.points target (seconds * 1000)
  instant : IsInstant active.scheduledAt current

/-- The reminder is anchored at the first remaining point, or gone when none remains. -/
def Anchored (record : ScheduleRecord) (seconds target : ℤ) (state : Option ScheduleRecord)
    (remaining : List ℤ) : Prop :=
  match state with
  | none => remaining = []
  | some active => ∃ current, OnGrid record active seconds target current ∧
      remaining = Grid.upTo current (seconds * 1000) Instant.maxFourDigitYear

/-- How an answer of the enumeration is delivered. -/
def delivered (occurrence : Option ℤ) : Except String (Option String) :=
  .ok (occurrence.map Instant.toISOString)

/-- The occurrence of an answer that is not refused. -/
def deliveredText : Except String (Option String) → Option String
  | .ok occurrence => occurrence
  | .error _ => none

/-- One decision delivers what the enumeration finds, and leaves a record that is anchored at the
first point the enumeration has left. -/
theorem anchored_step (hrule : record.rule = .every seconds)
    (hwell : (Rule.every seconds).WellFormed) {state : Option ScheduleRecord} {remaining : List ℤ}
    (h : Anchored record seconds target state remaining)
    (hmin : Instant.minFourDigitYear ≤ now) (hmax : now ≤ Instant.maxFourDigitYear) :
    (fixedRate.step state now).2 = delivered (Grid.enumerator.step remaining now).2 ∧
      Anchored record seconds target (fixedRate.step state now).1
        (Grid.enumerator.step remaining now).1 := by
  have hpos : 0 < seconds * 1000 := interval_pos hwell
  cases state with
  | none =>
    simp only [Anchored] at h
    rw [h]
    exact ⟨rfl, rfl⟩
  | some active =>
    obtain ⟨current, hgrid, rfl⟩ := h
    have hactive : active.rule = .every seconds := by
      rw [hgrid.same]
      exact hrule
    by_cases hdue : current ≤ now
    · have heveryDue : DueEvery active seconds current now :=
        ⟨hactive, hwell, hgrid.instant, hdue, hmin, hmax⟩
      have hisDue : isDue now active = true := by
        rw [isDue, hgrid.instant.parse]
        exact decide_eq_true hdue
      have hdecide : decideEvery active now
          = .ok (some (Instant.toISOString (Grid.last current (seconds * 1000) now)),
              (nextScheduled seconds current now).map fun next =>
                { active with scheduledAt := Instant.toISOString next }) := by
        rw [decideEvery, if_pos hisDue, heveryDue.everyDue, ok_bind, heveryDue.dispatchedRecord]
        rfl
      rw [Grid.enumerator_step hpos hdue hmax]
      simp only [fixedRate, hdecide]
      refine ⟨rfl, ?_⟩
      simp only [nextScheduled]
      have hlow : current ≤ Grid.last current (seconds * 1000) now := Grid.le_last hpos hdue
      by_cases hnext :
          Instant.maxFourDigitYear < Grid.last current (seconds * 1000) now + seconds * 1000
      · rw [if_pos hnext]
        exact Grid.upTo_eq_nil hpos hnext
      · rw [if_neg hnext]
        have hcurrentMin := hgrid.instant.min_le
        refine ⟨_, ⟨?_, ?_, isInstant_toISOString (by omega) (not_lt.mp hnext)⟩, rfl⟩
        · simp only [hgrid.same]
        · have hnextMem := Grid.next_mem (Grid.last_mem hpos hdue)
          rw [Grid.points_of_mem hpos hgrid.mem] at hnextMem
          exact hnextMem.1
    · have hisDue : isDue now active = false := by
        rw [isDue, hgrid.instant.parse]
        exact decide_eq_false hdue
      have hdecide : decideEvery active now = .ok (none, some active) := by
        rw [decideEvery, hisDue]
        rfl
      rw [Grid.enumerator_step_early hpos (not_le.mp hdue)]
      simp only [fixedRate, hdecide]
      exact ⟨rfl, current, hgrid, rfl⟩

theorem fixedRate_simulates (hrule : record.rule = .every seconds)
    (hwell : (Rule.every seconds).WellFormed) {state : Option ScheduleRecord} {remaining : List ℤ}
    (h : Anchored record seconds target state remaining) {times : List ℤ}
    (htimes : ∀ now ∈ times, Instant.minFourDigitYear ≤ now ∧ now ≤ Instant.maxFourDigitYear) :
    fixedRate.outputs state times = (Grid.enumerator.outputs remaining times).map delivered ∧
      Anchored record seconds target (fixedRate.after state times)
        (Grid.enumerator.after remaining times) := by
  induction times generalizing state remaining with
  | nil => exact ⟨rfl, h⟩
  | cons now times ih =>
    obtain ⟨hmin, hmax⟩ := htimes now List.mem_cons_self
    obtain ⟨hanswer, hnext⟩ := anchored_step hrule hwell h hmin hmax
    obtain ⟨hrest, hlast⟩ := ih hnext fun t ht => htimes t (List.mem_cons_of_mem _ ht)
    refine ⟨?_, hlast⟩
    rw [Machine.outputs_cons, Machine.outputs_cons, List.map_cons, hanswer, hrest]

/-! ## The grid of a record -/

/-- What one due decision of a record that is anchored at `current` resolves to. -/
structure Resolves (seconds target : ℤ) (active : ScheduleRecord) (current now occurrence : ℤ)
    (next : Option ℤ) : Prop where
  resolved : resolveEveryOccurrence seconds active.scheduledAt (some now)
    = .ok ⟨Instant.toISOString occurrence, next.map Instant.toISOString⟩
  greatest : IsGreatest {p | p ∈ Grid.points target (seconds * 1000) ∧ p ≤ now} occurrence
  /-- The next target is the first later point, and absent exactly when that one is too late. -/
  least : ∃ point, IsLeast {p | p ∈ Grid.points target (seconds * 1000) ∧ now < p} point ∧
    next = if Instant.maxFourDigitYear < point then none else some point
  increases : ∀ point ∈ next, current < point

/-- What the decisions about a fixed-rate record with the given first target keep. -/
structure GridKept (record : ScheduleRecord) (seconds target : ℤ) (times : List ℤ) : Prop where
  /-- The answers are those of an enumeration of the grid that keeps, per decision, the latest
  point that is due. -/
  enumerated : fixedRate.outputs (some record) times
    = (Grid.enumerator.outputs
        (Grid.upTo target (seconds * 1000) Instant.maxFourDigitYear) times).map delivered
  /-- The delivered occurrences are points of the grid, in increasing order. -/
  increasing : (Grid.enumerator.outputs
    (Grid.upTo target (seconds * 1000) Instant.maxFourDigitYear) times).reduceOption.Pairwise (· < ·)
  /-- No occurrence is delivered twice. -/
  once : ((fixedRate.outputs (some record) times).filterMap deliveredText).Nodup
  /-- The record that is active afterwards has a point of the grid as its target, and every later
  decision about it resolves on the grid. -/
  resolves : ∀ active, fixedRate.after (some record) times = some active →
    ∃ current, OnGrid record active seconds target current ∧
      ∀ now, current ≤ now → now ≤ Instant.maxFourDigitYear →
        ∃ occurrence next, Resolves seconds target active current now occurrence next
  /-- A decision at a time without a four-digit year is refused. -/
  refused : ∀ active now, now < Instant.minFourDigitYear ∨ Instant.maxFourDigitYear < now →
    resolveEveryOccurrence seconds active (some now)
      = .error "every acceptedAt must be a representable four-digit-year instant"
  /-- A batch of the runtime decides about each of its reminders by itself, and leaves out none
  that is due. -/
  batch : ∀ folded now reminders acceptedAt,
    dueDecision folded now = .ok (.every reminders acceptedAt) →
      (∀ reminder ∈ reminders, decideEvery reminder.1 now
        = (dispatchedRecord reminder.1 (some acceptedAt)).map fun next => (some reminder.2, next)) ∧
      ∀ active ∈ folded.active, active.everySeconds?.isSome = true → isDue now active = true →
        ∃ text, (active, text) ∈ reminders
  /-- The quotient of a decision has the exact floor however it is rounded. -/
  exact : ∀ (r : Rounding) (current now : ℤ), Instant.minFourDigitYear ≤ current →
    current ≤ now → now ≤ Instant.maxFourDigitYear →
    ⌊r.round (((now - current : ℤ) : ℚ) / ((seconds * 1000 : ℤ) : ℚ))⌋
      = (now - current) / (seconds * 1000)

theorem toISOString_injective {s t : ℤ} (hs : Instant.minFourDigitYear ≤ s)
    (hs' : s ≤ Instant.maxFourDigitYear) (ht : Instant.minFourDigitYear ≤ t)
    (ht' : t ≤ Instant.maxFourDigitYear) (h : Instant.toISOString s = Instant.toISOString t) :
    s = t := by
  have hparse := congrArg Instant.parse h
  rw [Instant.parse_toISOString hs hs', Instant.parse_toISOString ht ht'] at hparse
  exact Option.some.inj hparse

theorem filterMap_delivered (answers : List (Option ℤ)) :
    (answers.map delivered).filterMap deliveredText
      = answers.reduceOption.map Instant.toISOString := by
  rw [List.filterMap_map, ← List.reduceOption_map, List.reduceOption, List.filterMap_map]
  rfl

/-- A record at a point of the grid resolves on the grid. -/
theorem OnGrid.resolves {current : ℤ} (h : OnGrid record active seconds target current)
    (hwell : (Rule.every seconds).WellFormed) (hdue : current ≤ now) (hmax : now ≤ Instant.maxFourDigitYear) :
    ∃ occurrence next, Resolves seconds target active current now occurrence next := by
  have hpos : 0 < seconds * 1000 := interval_pos hwell
  have hcurrentMin := h.instant.min_le
  have hlow : current ≤ Grid.last current (seconds * 1000) now := Grid.le_last hpos hdue
  obtain ⟨hgreatest, hleast⟩ := Grid.below_of_mem hpos h.mem hdue
  refine ⟨_, nextScheduled seconds current now,
    resolveEveryOccurrence_eq hwell h.instant hdue (by omega) hmax, hgreatest,
    ⟨_, hleast, rfl⟩, ?_⟩
  intro point hpoint
  simp only [nextScheduled, Option.mem_def, Option.ite_none_left_eq_some, Option.some.injEq]
    at hpoint
  omega

/-- Fixed-rate reminders keep their grid: through every sequence of decisions the occurrences are
the latest due points of the grid of the created record. -/
theorem fixed_rate_grid (hrecord : record.WellFormed) (hrule : record.rule = .every seconds)
    (htarget : IsInstant record.scheduledAt target) (times : List ℤ)
    (htimes : ∀ now ∈ times, Instant.minFourDigitYear ≤ now ∧ now ≤ Instant.maxFourDigitYear) :
    GridKept record seconds target times := by
  have hwell : (Rule.every seconds).WellFormed := hrule ▸ hrecord.rule
  have hpos : 0 < seconds * 1000 := interval_pos hwell
  have hanchored : Anchored record seconds target (some record)
      (Grid.upTo target (seconds * 1000) Instant.maxFourDigitYear) := by
    refine ⟨target, ⟨?_, Grid.start_mem _ _, htarget⟩, rfl⟩
    rw [htarget.text]
  obtain ⟨houtputs, hafter⟩ := fixedRate_simulates hrule hwell hanchored htimes
  have hsublist := Grid.outputs_sublist
    (Grid.upTo target (seconds * 1000) Instant.maxFourDigitYear) times
  have hincreasing := (Grid.pairwise_upTo hpos target Instant.maxFourDigitYear).sublist hsublist
  constructor
  · exact houtputs
  · exact hincreasing
  · rw [houtputs, filterMap_delivered]
    refine List.Nodup.map_on ?_ (hincreasing.imp Int.ne_of_lt)
    intro s hs t ht
    obtain ⟨hsPoint, hsMax⟩ := (Grid.mem_upTo hpos).mp (hsublist.subset hs)
    obtain ⟨htPoint, htMax⟩ := (Grid.mem_upTo hpos).mp (hsublist.subset ht)
    have hmin := htarget.min_le
    have hsMin := Grid.start_le hpos hsPoint
    have htMin := Grid.start_le hpos htPoint
    exact toISOString_injective (by omega) hsMax (by omega) htMax
  · intro active hactive
    rw [hactive] at hafter
    obtain ⟨current, hgrid, -⟩ := hafter
    exact ⟨current, hgrid, fun now hdue hmax => hgrid.resolves hwell hdue hmax⟩
  · intro active now hnow
    exact resolveEveryOccurrence_of_range hnow
  · intro folded now reminders acceptedAt hdecision
    obtain ⟨rfl, heach, hall⟩ := mem_dueDecision hdecision
    refine ⟨?_, hall⟩
    intro reminder hreminder
    obtain ⟨-, hdue, heveryDue⟩ := heach reminder hreminder
    rw [decideEvery, if_pos hdue, heveryDue, ok_bind]
    cases dispatchedRecord reminder.1 (some (Instant.toISOString now)) <;> rfl
  · intro r current now hmin hdue hmax
    rw [Instant.minFourDigitYear_eq] at hmin
    rw [Instant.maxFourDigitYear_eq] at hmax
    have hinterval := of_decide_eq_true hwell.2.2
    unfold Json.maxSafeInteger at hinterval
    exact r.floor_div (by omega) (by omega) hpos (by omega)

theorem isInstant_five_past : IsInstant "2024-01-01T00:05:00.000Z" 1704067500000 :=
  ⟨by decide +kernel, by decide +kernel, by decide +kernel, by decide +kernel, by decide +kernel⟩

/-- A reminder every five minutes, decided at its target and twenty-five minutes later. -/
theorem fixed_rate_grid_twice :
    GridKept ⟨"schedule-1", .every 300, "look", "2024-01-01T00:05:00.000Z"⟩ 300 1704067500000
      [1704067500000, 1704069000001] := by
  have hrule : (Rule.every 300).WellFormed := ⟨by decide, by decide, by decide⟩
  have hid : IsTrimmed "schedule-1" := ⟨by decide, by decide +kernel⟩
  have hprompt : IsTrimmed "look" := ⟨by decide, by decide +kernel⟩
  exact fixed_rate_grid ⟨hid, hrule, hprompt, _, isInstant_five_past⟩ rfl isInstant_five_past _
    (by decide +kernel)

end Schedule

end TianmaCoder
