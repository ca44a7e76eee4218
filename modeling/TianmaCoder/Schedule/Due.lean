import TianmaCoder.Lib.Grid
import TianmaCoder.Schedule.Codec
import TianmaCoder.Schedule.Writers

/-!
# What is due

A fixed-rate reminder is resolved in closed form: the latest point of its grid that is not after
the decision, and the first one after it while that has a four-digit year.

## Main definitions

* `nextScheduled` — the target after a decision.
* `DueEvery` — a fixed-rate reminder that is due at a decision.

## Main results

* `resolveEveryOccurrence_eq` — the closed form of a due decision.
* `mem_dueDecision` — what a batch of fixed-rate reminders holds.
-/

namespace TianmaCoder

namespace Schedule

open Checked

variable {now target seconds : ℤ} {scheduledAt : String}

theorem interval_pos (hrule : (Rule.every seconds).WellFormed) : 0 < seconds * 1000 := by
  have hle := hrule.1
  unfold MIN_EVERY_INTERVAL_SECONDS at hle
  omega

/-- The next target, unless its year has five digits. -/
def nextScheduled (seconds target now : ℤ) : Option ℤ :=
  let next := Grid.last target (seconds * 1000) now + seconds * 1000
  if Instant.maxFourDigitYear < next then none else some next

/-- A due fixed-rate reminder has its latest occurrence, in closed form. -/
theorem resolveEveryOccurrence_eq (hrule : (Rule.every seconds).WellFormed)
    (htarget : IsInstant scheduledAt target) (hdue : target ≤ now)
    (hmin : Instant.minFourDigitYear ≤ now) (hmax : now ≤ Instant.maxFourDigitYear) :
    resolveEveryOccurrence seconds scheduledAt (some now)
      = .ok ⟨Instant.toISOString (Grid.last target (seconds * 1000) now),
          (nextScheduled seconds target now).map Instant.toISOString⟩ := by
  have hpos : 0 < seconds * 1000 := interval_pos hrule
  have hlow : target ≤ Grid.last target (seconds * 1000) now :=
    Grid.le_last hpos hdue
  have hhigh : Grid.last target (seconds * 1000) now ≤ now := Grid.last_le hpos
  have htargetMin := htarget.min_le
  have hsafe : Json.isSafeInteger (Grid.last target (seconds * 1000) now) = true :=
    isSafeInteger_of_range (by omega) (by omega)
  have hnow : ¬(¬Json.isSafeInteger now = true ∨ now < Instant.minFourDigitYear
      ∨ Instant.maxFourDigitYear < now) := by
    rw [not_or, not_not, not_or]
    exact ⟨isSafeInteger_of_range hmin hmax, not_lt.mpr hmin, not_lt.mpr hmax⟩
  have hinterval : ¬(¬Json.isSafeInteger (seconds * 1000) = true ∨ seconds * 1000 ≤ 0) := by
    rw [not_or, not_not]
    exact ⟨hrule.2.2, not_le.mpr hpos⟩
  have hwithin : ¬(¬Json.isSafeInteger (Grid.last target (seconds * 1000) now) = true
      ∨ Grid.last target (seconds * 1000) now < target
      ∨ now < Grid.last target (seconds * 1000) now) := by
    rw [not_or, not_not, not_or]
    exact ⟨hsafe, by omega, by omega⟩
  have hlast : target + (now - target) / (seconds * 1000) * (seconds * 1000)
      = Grid.last target (seconds * 1000) now := rfl
  simp only [resolveEveryOccurrence, if_neg hnow, if_neg hinterval, htarget.parse,
    if_neg (not_lt.mpr hdue), hlast, if_neg hwithin, pure_eq]
  by_cases hnext : Instant.maxFourDigitYear < Grid.last target (seconds * 1000) now + seconds * 1000
  · rw [if_pos (Or.inr hnext), nextScheduled, if_pos hnext]
    rfl
  · have hsafeNext : Json.isSafeInteger
        (Grid.last target (seconds * 1000) now + seconds * 1000) = true :=
      isSafeInteger_of_range (by omega) (not_lt.mp hnext)
    rw [if_neg (by rw [not_or, not_not]; exact ⟨hsafeNext, hnext⟩), nextScheduled, if_neg hnext]
    rfl

theorem resolveEveryOccurrence_of_range
    (hnow : now < Instant.minFourDigitYear ∨ Instant.maxFourDigitYear < now) :
    resolveEveryOccurrence seconds scheduledAt (some now)
      = .error "every acceptedAt must be a representable four-digit-year instant" := by
  simp only [resolveEveryOccurrence, throw_eq]
  rw [if_pos (Or.inr hnow)]

/-! ## Due reminders -/

variable {record : ScheduleRecord}

/-- A fixed-rate reminder that is due at a decision. -/
structure DueEvery (record : ScheduleRecord) (seconds target now : ℤ) : Prop where
  rule : record.rule = .every seconds
  wellFormed : (Rule.every seconds).WellFormed
  instant : IsInstant record.scheduledAt target
  due : target ≤ now
  min_le : Instant.minFourDigitYear ≤ now
  le_max : now ≤ Instant.maxFourDigitYear

theorem DueEvery.everyDue (h : DueEvery record seconds target now) :
    everyDue now record
      = .ok (record, Instant.toISOString (Grid.last target (seconds * 1000) now)) := by
  have hseconds : record.everySeconds? = some seconds := by
    simp [ScheduleRecord.everySeconds?, h.rule]
  rw [Schedule.everyDue, hseconds, Option.getD_some,
    resolveEveryOccurrence_eq h.wellFormed h.instant h.due h.min_le h.le_max]
  rfl

theorem DueEvery.dispatchedRecord (h : DueEvery record seconds target now) :
    dispatchedRecord record (some (Instant.toISOString now))
      = .ok ((nextScheduled seconds target now).map fun next =>
          { record with scheduledAt := Instant.toISOString next }) := by
  simp only [Schedule.dispatchedRecord, h.rule, Instant.parse_toISOString h.min_le h.le_max,
    resolveEveryOccurrence_eq h.wellFormed h.instant h.due h.min_le h.le_max, ok_bind, pure_eq,
    Option.map_map]
  rfl

theorem byTargetThenCreate_perm (records : List ScheduleRecord) :
    (byTargetThenCreate records).Perm records := by
  have hsort := (List.perm_insertionSort
    (fun a b : ScheduleRecord × ℕ =>
      (Instant.parse a.1.scheduledAt).getD 0 < (Instant.parse b.1.scheduledAt).getD 0
        ∨ ((Instant.parse a.1.scheduledAt).getD 0 = (Instant.parse b.1.scheduledAt).getD 0
          ∧ a.2 ≤ b.2)) records.zipIdx).map Prod.fst
  rwa [List.zipIdx_map_fst] at hsort

theorem due_target {record : ScheduleRecord} (h : isDue now record = true) {target : ℤ}
    (htarget : IsInstant record.scheduledAt target) : target ≤ now := by
  rw [isDue, htarget.parse] at h
  simpa using h

/-- A batch of fixed-rate reminders holds each one that is due, under what it resolves to. -/
theorem mem_dueDecision {folded : FoldedSchedules} {reminders : List (ScheduleRecord × String)}
    {acceptedAt : String} (h : dueDecision folded now = .ok (.every reminders acceptedAt)) :
    acceptedAt = Instant.toISOString now ∧
      (∀ reminder ∈ reminders, reminder.1 ∈ folded.active ∧ isDue now reminder.1 = true ∧
        everyDue now reminder.1 = .ok reminder) ∧
      ∀ record ∈ folded.active, record.everySeconds?.isSome = true → isDue now record = true →
        ∃ text, (record, text) ∈ reminders := by
  unfold dueDecision at h
  split at h
  · cases h
  · have hperm := byTargetThenCreate_perm (folded.active.filter fun record =>
      record.everySeconds?.isSome && isDue now record)
    generalize byTargetThenCreate (folded.active.filter fun record =>
      record.everySeconds?.isSome && isDue now record) = every at h hperm
    split at h
    · cases h
    · simp only [bind_ok_iff, pure_eq, Except.ok.injEq, DueDecision.every.injEq] at h
      obtain ⟨_, hmap, rfl, rfl⟩ := h
      have hall := forall₂_of_mapM hmap
      refine ⟨rfl, ?_, ?_⟩
      · intro reminder hreminder
        obtain ⟨record, hrecord, hdue⟩ := forall₂_exists_left hall hreminder
        have hmem := hperm.mem_iff.mp hrecord
        rw [List.mem_filter, Bool.and_eq_true] at hmem
        have hfst : reminder.1 = record := by
          unfold everyDue at hdue
          obtain ⟨_, _, hpair⟩ := bind_ok hdue
          cases hpair
          rfl
        rw [hfst]
        exact ⟨hmem.1, hmem.2.2, hdue⟩
      · intro record hmem hkind hdue
        have hrecord : record ∈ every := by
          rw [hperm.mem_iff, List.mem_filter, hkind, hdue]
          exact ⟨hmem, rfl⟩
        obtain ⟨reminder, hreminder, heach⟩ := forall₂_exists_right hall hrecord
        unfold everyDue at heach
        obtain ⟨occurrence, _, hpair⟩ := bind_ok heach
        cases hpair
        exact ⟨_, hreminder⟩

end Schedule

end TianmaCoder
