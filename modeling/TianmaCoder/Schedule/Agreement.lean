import Mathlib.Data.List.Sort
import TianmaCoder.Lib.FreshName
import TianmaCoder.Schedule.Due
import TianmaCoder.Schedule.History

/-!
# Readers and writers of the reminder stream agree

The projection, the fold and the state schema read every log alike, and what the tools, the
runtime and the stop handler append from an accepted log at a clock reading with a four-digit
year is accepted by the decoder and by the fold, batches included.

## Main definitions

* `Ready` — the active record that a change needs.
* `Accepted` — a log goes on with the given changes.
* `Agreement` — what the three readers and the writers of a log agree on.

## Main results

* `reminders_agree` — they agree for every log.
-/

namespace TianmaCoder

namespace Schedule

open Checked

/-! ## Allocated ids -/

theorem allocateFrom_eq (seen : List String) (more sequence : ℕ) :
    allocateFrom seen more sequence =
      scheduleName (FreshName.firstUnused scheduleName seen more sequence) := by
  induction more generalizing sequence with
  | zero => rfl
  | succ more ih =>
    unfold allocateFrom FreshName.firstUnused
    split
    · exact ih (sequence + 1)
    · rfl

variable {batch : Batch}

theorem allocateScheduleId_fresh (h : batch.Valid) :
    allocateScheduleId batch.folded ∉ batch.seen := by
  have hseen : batch.folded.seenIds.foldl addSeen [] = batch.seen := foldl_addSeen h.seen_nodup
  simp only [allocateScheduleId, hseen]
  rw [allocateFrom_eq]
  exact FreshName.firstUnused_not_mem (FreshName.numbered_injective _) _ _

/-- A text between two characters that are not spaces is trimmed. -/
theorem isTrimmed_of_ends {cs : List Char} {s : String} (hs : s.toList = cs) (hne : cs ≠ [])
    (hfirst : ∀ c ∈ cs.head?, Text.isSpace c = false)
    (hlast : ∀ c ∈ cs.reverse.head?, Text.isSpace c = false) : IsTrimmed s := by
  constructor
  · rintro rfl
    exact hne hs.symm
  · rw [Text.trim, Text.stripBoth, hs, Text.dropWhile_of_head hfirst, Text.dropWhile_of_head hlast,
      List.reverse_reverse, ← hs, String.ofList_toList]

theorem isSpace_of_isDigit {c : Char} (h : c.isDigit = true) : Text.isSpace c = false := by
  simp only [Char.isDigit, Bool.and_eq_true, decide_eq_true_eq] at h
  have hlow : 48 ≤ c.toNat := UInt32.le_iff_toNat_le.mp h.1
  have hhigh : c.toNat ≤ 57 := UInt32.le_iff_toNat_le.mp h.2
  simp only [Text.isSpace, Bool.or_eq_false_iff, Bool.and_eq_false_iff, decide_eq_false_iff_not,
    beq_eq_false_iff_ne]
  omega

theorem isTrimmed_scheduleName (n : ℕ) : IsTrimmed (scheduleName n) := by
  have hlist : (scheduleName n).toList = "schedule-".toList ++ Nat.toDigits 10 n := by
    rw [scheduleName, String.toList_append, Nat.toString_eq_ofList_toDigits]
    exact congrArg _ String.toList_ofList
  refine isTrimmed_of_ends hlist (by simp) ?_ ?_
  · intro c hc
    have hs : c = 's' := by simpa [eq_comm] using hc
    rw [hs]
    decide
  · intro c hc
    rw [List.reverse_append] at hc
    have hne : (Nat.toDigits 10 n).reverse ≠ [] := by simp
    rw [List.head?_append_of_ne_nil _ hne] at hc
    have hmem : c ∈ Nat.toDigits 10 n := List.mem_reverse.mp (List.mem_of_mem_head? hc)
    exact isSpace_of_isDigit (Nat.isDigit_of_mem_toDigits (by decide) (by decide) hmem)

theorem isTrimmed_allocated (folded : FoldedSchedules) : IsTrimmed (allocateScheduleId folded) := by
  rw [allocateScheduleId, allocateFrom_eq]
  exact isTrimmed_scheduleName _

/-! ## Created records -/

variable {now : ℤ}

theorem futureInstant_ok {epoch : ℤ} {s : String} (h : futureInstant epoch now = .ok s) :
    IsInstant s epoch := by
  unfold futureInstant at h
  simp only [throw_eq] at h
  rw [guard_ok_iff, guard_ok_iff, guard_ok_iff] at h
  obtain ⟨hrange, _, _, hs⟩ := h
  simp only [not_or, not_lt] at hrange
  cases hs
  exact isInstant_toISOString hrange.2.2.1 hrange.2.2.2

theorem isTrimmed_trim {s : String} (h : Text.trim s ≠ "") : IsTrimmed (Text.trim s) :=
  ⟨h, Text.trim_trim s⟩

variable {record : ScheduleRecord}

theorem wellFormed_of_createRecord {zones : TimeZones} {id : String} {args : CreateArgs}
    (hid : IsTrimmed id) (hmin : Instant.minFourDigitYear ≤ now)
    (h : createRecord zones id args now = .ok record) : record.id = id ∧ record.WellFormed := by
  unfold createRecord at h
  split at h
  · simp only [createAtScheduleRecord] at h
    rw [throw_eq, guard_ok_iff] at h
    simp only [bind_ok_iff, pure_eq, Except.ok.injEq] at h
    obtain ⟨hprompt, target, _, scheduledAt, hinstant, rfl⟩ := h
    exact ⟨rfl, hid, trivial, isTrimmed_trim hprompt, target, futureInstant_ok hinstant⟩
  · simp only [createAfterScheduleRecord] at h
    rw [throw_eq, guard_ok_iff] at h
    obtain ⟨hprompt, h⟩ := h
    rename_i seconds _ _
    cases hsafe : Json.safeInt? (some seconds) with
    | none => simp [hsafe] at h
    | some n =>
      simp only [hsafe, throw_eq, guard_ok_iff, bind_ok_iff, pure_eq, Except.ok.injEq] at h
      obtain ⟨hpos, scheduledAt, hinstant, rfl⟩ := h
      exact ⟨rfl, hid, ⟨not_le.mp hpos, Json.isSafeInteger_of_safeInt? hsafe⟩,
        isTrimmed_trim hprompt, _, futureInstant_ok hinstant⟩
  · simp only [createEveryScheduleRecord] at h
    rw [throw_eq, guard_ok_iff] at h
    obtain ⟨hprompt, h⟩ := h
    cases hsafe : Json.safeInt? (some (args.everySeconds.getD .null)) with
    | none => simp [hsafe] at h
    | some n =>
      simp only [hsafe, throw_eq, guard_ok_iff, bind_ok_iff, pure_eq, Except.ok.injEq] at h
      obtain ⟨hfrequency, scheduledAt, hinstant, rfl⟩ := h
      have htarget := futureInstant_ok hinstant
      have hle := htarget.le_max
      rw [Instant.maxFourDigitYear_eq] at hle
      rw [Instant.minFourDigitYear_eq] at hmin
      have hinterval : Json.isSafeInteger (n * 1000) = true := by
        refine decide_eq_true ?_
        unfold MIN_EVERY_INTERVAL_SECONDS at hfrequency
        unfold Json.maxSafeInteger
        omega
      exact ⟨rfl, hid, ⟨not_lt.mp hfrequency, Json.isSafeInteger_of_safeInt? hsafe, hinterval⟩,
        isTrimmed_trim hprompt, _, htarget⟩

/-! ## Batches of changes -/

/-- The reminder that a change is about. -/
def ScheduleChange.target : ScheduleChange → String
  | .create schedule => schedule.id
  | .delete id => id
  | .dispatch id _ => id

/-- The transition authority admits the change. -/
def Ready (batch : Batch) : ScheduleChange → Prop
  | .create schedule => schedule.id ∉ batch.seen
  | .delete id => (batch.active.lookup id).isSome = true
  | .dispatch id acceptedAt =>
    ∃ record next, batch.active.lookup id = some record
      ∧ dispatchedRecord record acceptedAt = .ok next

/-- Changes of other reminders need the entries and the used ids as they are. -/
theorem ready_congr {next : Batch} {change : ScheduleChange}
    (hlookup : next.active.lookup change.target = batch.active.lookup change.target)
    (hseen : change.target ∈ next.seen → change.target ∈ batch.seen) (h : Ready batch change) :
    Ready next change := by
  cases change with
  | create schedule => exact fun hmem => h (hseen hmem)
  | delete id =>
    have hsame : next.active.lookup id = batch.active.lookup id := hlookup
    rw [Ready, hsame]
    exact h
  | dispatch id acceptedAt =>
    obtain ⟨record, moved, hrecord, hmoved⟩ := h
    exact ⟨record, moved, hlookup.trans hrecord, hmoved⟩

theorem apply_of_ready {change : ScheduleChange} (h : Ready batch change) :
    ∃ next, applyScheduleChange batch change = .ok next
      ∧ ∀ id ≠ change.target, next.active.lookup id = batch.active.lookup id
        ∧ (id ∈ next.seen → id ∈ batch.seen) := by
  cases change with
  | create schedule =>
    have hfresh : schedule.id ∉ batch.seen := h
    refine ⟨⟨OrderedMap.set schedule.id schedule batch.active, addSeen batch.seen schedule.id⟩,
      by simp [applyScheduleChange, hfresh], fun id hne => ⟨?_, fun hmem => ?_⟩⟩
    · rw [OrderedMap.lookup_set]
      exact if_neg hne
    · simp only [addSeen, if_neg hfresh, List.mem_append, List.mem_singleton] at hmem
      exact hmem.resolve_right hne
  | delete id =>
    have hactive : (batch.active.lookup id).isNone = false := by
      rw [Option.isNone_eq_false_iff]
      exact h
    refine ⟨{ batch with active := OrderedMap.delete id batch.active },
      by simp [applyScheduleChange, hactive], fun other hne => ⟨?_, fun hmem => hmem⟩⟩
    rw [OrderedMap.lookup_delete]
    exact if_neg hne
  | dispatch id acceptedAt =>
    obtain ⟨record, next, hrecord, hnext⟩ := h
    cases next with
    | none =>
      refine ⟨{ batch with active := OrderedMap.delete id batch.active },
        by simp [applyScheduleChange, hrecord, hnext],
        fun other hne => ⟨?_, fun hmem => hmem⟩⟩
      rw [OrderedMap.lookup_delete]
      exact if_neg hne
    | some moved =>
      refine ⟨{ batch with active := OrderedMap.set id moved batch.active },
        by simp [applyScheduleChange, hrecord, hnext],
        fun other hne => ⟨?_, fun hmem => hmem⟩⟩
      rw [OrderedMap.lookup_set]
      exact if_neg hne

variable {changes : List ScheduleChange}

/-- Ready changes of distinct reminders are applied one after another. -/
theorem run_of_ready (hready : ∀ change ∈ changes, Ready batch change)
    (hdistinct : (changes.map ScheduleChange.target).Nodup) :
    ∃ next, changes.foldlM applyScheduleChange batch = .ok next := by
  induction changes generalizing batch with
  | nil => exact ⟨batch, rfl⟩
  | cons change changes ih =>
    obtain ⟨next, happly, hframe⟩ := apply_of_ready (hready change List.mem_cons_self)
    obtain ⟨hfirst, hrest⟩ := List.nodup_cons.mp hdistinct
    rw [List.foldlM_cons, happly]
    refine ih (fun other hother => ?_) hrest
    have hne : other.target ≠ change.target := by
      intro heq
      exact hfirst (heq ▸ List.mem_map_of_mem hother)
    obtain ⟨hlookup, hseen⟩ := hframe other.target hne
    exact ready_congr hlookup hseen (hready other (List.mem_cons_of_mem change hother))

/-! ## Longer logs -/

/-- Every change is decoded as it was written, and a log that goes on with the events of these
changes, among events of other kinds, is accepted. -/
def Accepted (log : OwnedLog) (changes : List ScheduleChange) : Prop :=
  (∀ change ∈ changes, decodeScheduleChange change.toJson = .ok change) ∧
    ∀ (longer : OwnedLog) (more : List SessionEvent), longer.inherited = log.inherited →
      longer.own = log.own ++ more →
      (more.filter fun event => event.type = .scheduleChange).map SessionEvent.data
        = changes.map ScheduleChange.toJson →
      ∃ folded, longer.fold = .ok folded

theorem foldlM_events {more : List SessionEvent}
    (hdecode : ∀ change ∈ changes, decodeScheduleChange change.toJson = .ok change)
    (hdata : (more.filter fun event => event.type = .scheduleChange).map SessionEvent.data
      = changes.map ScheduleChange.toJson) (batch : Batch) :
    more.foldlM applyScheduleEvent batch = changes.foldlM applyScheduleChange batch := by
  induction more generalizing changes batch with
  | nil =>
    rw [List.filter_nil, List.map_nil, eq_comm, List.map_eq_nil_iff] at hdata
    rw [hdata]
    rfl
  | cons event more ih =>
    by_cases htype : event.type = .scheduleChange
    · rw [List.filter_cons_of_pos (by simpa using htype), List.map_cons] at hdata
      cases changes with
      | nil => cases hdata
      | cons change changes =>
        rw [List.map_cons, List.cons.injEq] at hdata
        rw [List.foldlM_cons, List.foldlM_cons, applyScheduleEvent, if_pos htype, hdata.1,
          hdecode change List.mem_cons_self, ok_bind]
        congr 1
        funext next
        exact ih (fun c hc => hdecode c (List.mem_cons_of_mem change hc)) hdata.2 next
    · rw [List.filter_cons_of_neg (by simpa using htype)] at hdata
      rw [List.foldlM_cons, applyScheduleEvent, if_neg htype]
      exact ih hdecode hdata batch

/-- A log goes on with ready changes of distinct reminders. -/
theorem accepted_of_ready {log : OwnedLog} (hbatch : log.batch = .ok batch)
    (hwell : ∀ change ∈ changes, change.WellFormed)
    (hready : ∀ change ∈ changes, Ready batch change)
    (hdistinct : (changes.map ScheduleChange.target).Nodup) : Accepted log changes := by
  have hdecode : ∀ change ∈ changes, decodeScheduleChange change.toJson = .ok change :=
    fun change hchange => decodeScheduleChange_toJson (hwell change hchange)
  refine ⟨hdecode, fun longer more _ hown hdata => ?_⟩
  obtain ⟨next, hnext⟩ := run_of_ready hready hdistinct
  refine ⟨next.folded, ?_⟩
  have hbatch' : log.own.foldlM applyScheduleEvent (Batch.ofFolded ⟨[], []⟩) = .ok batch := hbatch
  rw [OwnedLog.fold_eq, OwnedLog.batch, hown, List.foldlM_append, hbatch', ok_bind,
    foldlM_events hdecode hdata, hnext]
  rfl

namespace Batch.Valid

variable {batch : Batch} (h : batch.Valid)
include h

theorem lookup_of_mem (hmem : record ∈ batch.folded.active) :
    batch.active.lookup record.id = some record ∧ record.WellFormed := by
  obtain ⟨e, he, rfl⟩ := List.mem_map.mp hmem
  obtain ⟨hid, hwell, _⟩ := h.entry e he
  rw [hid]
  exact ⟨(OrderedMap.mem_iff_lookup h.keys_nodup e.1 e.2).mp he, hwell⟩

theorem active_nodup : (batch.folded.active.map ScheduleRecord.id).Nodup := by
  have hsame : batch.folded.active.map ScheduleRecord.id = OrderedMap.keys batch.active := by
    rw [Batch.folded, List.map_map]
    exact List.map_congr_left fun e he => (h.entry e he).1
  rw [hsame]
  exact h.keys_nodup

end Batch.Valid

/-! ## Due reminders -/

theorem ready_oneShot (h : batch.Valid) (hmem : record ∈ batch.folded.active)
    (hkind : record.everySeconds?.isNone = true) : Ready batch (.dispatch record.id none) := by
  refine ⟨record, none, (h.lookup_of_mem hmem).1, ?_⟩
  unfold ScheduleRecord.everySeconds? at hkind
  unfold dispatchedRecord
  cases hrule : record.rule with
  | after seconds => rfl
  | «at» => rfl
  | every seconds => simp [hrule] at hkind

theorem ready_every (h : batch.Valid) (hmem : record ∈ batch.folded.active)
    (hkind : record.everySeconds?.isSome = true) (hdue : isDue now record = true)
    (hmin : Instant.minFourDigitYear ≤ now) (hmax : now ≤ Instant.maxFourDigitYear) :
    (∃ text, everyDue now record = .ok (record, text)) ∧
      Ready batch (.dispatch record.id (some (Instant.toISOString now))) := by
  obtain ⟨hlookup, hwell⟩ := h.lookup_of_mem hmem
  obtain ⟨target, htarget⟩ := hwell.scheduledAt
  cases hrule : record.rule with
  | after seconds => simp [ScheduleRecord.everySeconds?, hrule] at hkind
  | «at» => simp [ScheduleRecord.everySeconds?, hrule] at hkind
  | every seconds =>
    have hseconds := hwell.rule
    rw [hrule] at hseconds
    have heveryDue : DueEvery record seconds target now :=
      ⟨hrule, hseconds, htarget, due_target hdue htarget, hmin, hmax⟩
    exact ⟨⟨_, heveryDue.everyDue⟩, record, _, hlookup, heveryDue.dispatchedRecord⟩

theorem dueDecision_ready (h : batch.Valid) (hmin : Instant.minFourDigitYear ≤ now)
    (hmax : now ≤ Instant.maxFourDigitYear) :
    ∃ decision, dueDecision batch.folded now = .ok decision
      ∧ (∀ change ∈ dispatchChanges decision, change.WellFormed)
      ∧ (∀ change ∈ dispatchChanges decision, Ready batch change)
      ∧ ((dispatchChanges decision).map ScheduleChange.target).Nodup := by
  unfold dueDecision
  have honeShot := byTargetThenCreate_perm (batch.folded.active.filter fun record =>
    record.everySeconds?.isNone && isDue now record)
  generalize byTargetThenCreate (batch.folded.active.filter fun record =>
    record.everySeconds?.isNone && isDue now record) = oneShots at honeShot
  cases oneShots with
  | cons record rest =>
    have hmem := honeShot.mem_iff.mp List.mem_cons_self
    rw [List.mem_filter, Bool.and_eq_true] at hmem
    refine ⟨.oneShot record, rfl, ?_, ?_, List.nodup_singleton _⟩
    · intro change hchange
      rw [dispatchChanges, List.mem_singleton] at hchange
      rw [hchange]
      exact ⟨(h.lookup_of_mem hmem.1).2.id, fun instant hinstant => by cases hinstant⟩
    · intro change hchange
      rw [dispatchChanges, List.mem_singleton] at hchange
      rw [hchange]
      exact ready_oneShot h hmem.1 hmem.2.1
  | nil =>
    have hevery := byTargetThenCreate_perm (batch.folded.active.filter fun record =>
      record.everySeconds?.isSome && isDue now record)
    generalize byTargetThenCreate (batch.folded.active.filter fun record =>
      record.everySeconds?.isSome && isDue now record) = every at hevery
    have hdue : ∀ record ∈ every, record ∈ batch.folded.active
        ∧ record.everySeconds?.isSome = true ∧ isDue now record = true := by
      intro record hrecord
      have hmem := hevery.mem_iff.mp hrecord
      rw [List.mem_filter, Bool.and_eq_true] at hmem
      exact hmem
    have hdistinct : (every.map ScheduleRecord.id).Nodup :=
      (hevery.map ScheduleRecord.id).nodup_iff.mpr
        (h.active_nodup.sublist (List.filter_sublist.map ScheduleRecord.id))
    cases every with
    | nil =>
      exact ⟨_, rfl, fun change hchange => absurd hchange List.not_mem_nil,
        fun change hchange => absurd hchange List.not_mem_nil, List.nodup_nil⟩
    | cons first rest =>
      have hmapM : ∃ reminders, (first :: rest).mapM (everyDue now) = .ok reminders
          ∧ reminders.map Prod.fst = first :: rest := by
        generalize first :: rest = records at hdue
        clear hevery hdistinct
        induction records with
        | nil => exact ⟨[], rfl, rfl⟩
        | cons record records ih =>
          obtain ⟨hmem, hkind, hrecord⟩ := hdue record List.mem_cons_self
          obtain ⟨text, htext⟩ := (ready_every h hmem hkind hrecord hmin hmax).1
          obtain ⟨reminders, hrest, hfst⟩ :=
            ih fun r hr => hdue r (List.mem_cons_of_mem record hr)
          refine ⟨(record, text) :: reminders, ?_, by rw [List.map_cons, hfst]⟩
          rw [List.mapM_cons, htext, ok_bind, hrest]
          rfl
      obtain ⟨reminders, hmap, hfst⟩ := hmapM
      have hof : ∀ change ∈ dispatchChanges (.every reminders (Instant.toISOString now)),
          ∃ record ∈ first :: rest,
            change = .dispatch record.id (some (Instant.toISOString now)) := by
        intro change hchange
        obtain ⟨reminder, hreminder, rfl⟩ := List.mem_map.mp hchange
        exact ⟨reminder.1, hfst ▸ List.mem_map_of_mem hreminder, rfl⟩
      refine ⟨.every reminders (Instant.toISOString now), ?_, ?_, ?_, ?_⟩
      · simp only [hmap]
        rfl
      · intro change hchange
        obtain ⟨record, hrecord, rfl⟩ := hof change hchange
        refine ⟨(h.lookup_of_mem (hdue record hrecord).1).2.id, fun instant hinstant => ?_⟩
        rw [← Option.mem_some_iff.mp hinstant]
        exact ⟨now, isInstant_toISOString hmin hmax⟩
      · intro change hchange
        obtain ⟨record, hrecord, rfl⟩ := hof change hchange
        obtain ⟨hmem, hkind, hrecord⟩ := hdue record hrecord
        exact (ready_every h hmem hkind hrecord hmin hmax).2
      · have htargets : (dispatchChanges (.every reminders (Instant.toISOString now))).map
            ScheduleChange.target = (reminders.map Prod.fst).map ScheduleRecord.id := by
          rw [dispatchChanges, List.map_map, List.map_map]
          rfl
        rw [htargets, hfst]
        exact hdistinct

/-! ## Agreement -/

/-- What the readers and the writers of a log agree on. -/
structure Agreement (zones : TimeZones) (log : OwnedLog) : Prop where
  /-- Event by event, the projection has the fold, or both reject with the same error. -/
  readers : ∀ n, (log.take n).project
    = (log.take n).fold.map fun folded => ⟨folded, log.inherited.length⟩
  schema : ∀ n state, (log.take n).project = .ok state → parseState state.toJson = .ok state
  /-- The used ids are the created ones, each once; active ids are distinct and used. -/
  once : ∀ n folded, (log.take n).fold = .ok folded →
    folded.seenIds = (log.own.take n).filterMap createdId ∧ folded.seenIds.Nodup
      ∧ (folded.active.map ScheduleRecord.id).Nodup
      ∧ ∀ record ∈ folded.active, record.id ∈ folded.seenIds
  create : ∀ folded args now change, log.fold = .ok folded → Instant.minFourDigitYear ≤ now →
    now ≤ Instant.maxFourDigitYear → createChange zones args folded now = .ok change →
    Accepted log [change]
  delete : ∀ folded id change, log.fold = .ok folded →
    deleteChange id folded = .ok (some change) → Accepted log [change]
  dispatch : ∀ folded now, log.fold = .ok folded → Instant.minFourDigitYear ≤ now →
    now ≤ Instant.maxFourDigitYear →
    ∃ decision, dueDecision folded now = .ok decision ∧ Accepted log (dispatchChanges decision)
  stop : ∀ folded, log.fold = .ok folded → Accepted log (stopChanges folded)

/-- An accepted fold is that of a valid batch. -/
theorem batch_of_fold {log : OwnedLog} {folded : FoldedSchedules} (h : log.fold = .ok folded) :
    ∃ batch, log.batch = .ok batch ∧ batch.Valid ∧ batch.folded = folded := by
  rw [OwnedLog.fold_eq] at h
  cases hbatch : log.batch with
  | error error => simp [hbatch, Except.map] at h
  | ok batch =>
    rw [hbatch] at h
    exact ⟨batch, rfl, log.batch_valid hbatch, Except.ok.inj h⟩

/-- The readers and the writers of every session log agree. -/
theorem reminders_agree (zones : TimeZones) (log : OwnedLog) : Agreement zones log where
  readers n := project_eq (log.take n)
  schema n state hstate := by
    rw [project_eq] at hstate
    cases hfold : (log.take n).fold with
    | error error => simp [hfold, Except.map] at hstate
    | ok folded =>
      obtain ⟨batch, _, hvalid, rfl⟩ := batch_of_fold hfold
      rw [hfold] at hstate
      rw [← Except.ok.inj hstate]
      refine parseState_toJson hvalid ?_
      have hle := log.length_le
      have harray := Json.maxArrayLength_le
      rw [List.length_append] at hle
      change log.inherited.length ≤ Json.maxSafeInteger
      omega
  once n folded hfold := by
    obtain ⟨batch, hbatch, hvalid, rfl⟩ := batch_of_fold hfold
    refine ⟨seen_eq_createdIds hbatch, hvalid.seen_nodup, hvalid.active_nodup, ?_⟩
    intro record hrecord
    exact (hvalid.lookup (hvalid.lookup_of_mem hrecord).1).2.2
  create folded args now change hfold hmin hmax hchange := by
    obtain ⟨batch, hbatch, hvalid, rfl⟩ := batch_of_fold hfold
    unfold createChange at hchange
    simp only [bind_ok_iff, pure_eq, Except.ok.injEq] at hchange
    obtain ⟨_, _, record, hrecord, rfl⟩ := hchange
    obtain ⟨hid, hwell⟩ := wellFormed_of_createRecord (isTrimmed_allocated _) hmin hrecord
    refine accepted_of_ready hbatch ?_ ?_ (List.nodup_singleton _)
    · intro c hc
      rw [List.mem_singleton.mp hc]
      exact hwell
    · intro c hc
      rw [List.mem_singleton.mp hc, Ready, hid]
      exact allocateScheduleId_fresh hvalid
  delete folded id change hfold hchange := by
    obtain ⟨batch, hbatch, hvalid, rfl⟩ := batch_of_fold hfold
    unfold deleteChange at hchange
    simp only [throw_eq] at hchange
    rw [guard_ok_iff] at hchange
    obtain ⟨hid, hchange⟩ := hchange
    rw [not_or, not_not] at hid
    split at hchange
    · rename_i hactive
      cases hchange
      obtain ⟨record, hrecord, heq⟩ := List.any_eq_true.mp hactive
      rw [decide_eq_true_eq] at heq
      refine accepted_of_ready hbatch ?_ ?_ (List.nodup_singleton _)
      · intro c hc
        rw [List.mem_singleton.mp hc]
        exact hid
      · intro c hc
        rw [List.mem_singleton.mp hc, ← heq]
        exact Option.isSome_iff_exists.mpr ⟨record, (hvalid.lookup_of_mem hrecord).1⟩
    · cases hchange
  dispatch folded now hfold hmin hmax := by
    obtain ⟨batch, hbatch, hvalid, rfl⟩ := batch_of_fold hfold
    obtain ⟨decision, hdecision, hwell, hready, hdistinct⟩ := dueDecision_ready hvalid hmin hmax
    exact ⟨decision, hdecision, accepted_of_ready hbatch hwell hready hdistinct⟩
  stop folded hfold := by
    obtain ⟨batch, hbatch, hvalid, rfl⟩ := batch_of_fold hfold
    have hof : ∀ change ∈ stopChanges batch.folded,
        ∃ record ∈ batch.folded.active, change = .delete record.id := by
      intro change hchange
      obtain ⟨record, hrecord, rfl⟩ := List.mem_map.mp hchange
      exact ⟨record, hrecord, rfl⟩
    refine accepted_of_ready hbatch ?_ ?_ ?_
    · intro change hchange
      obtain ⟨record, hrecord, rfl⟩ := hof change hchange
      exact (hvalid.lookup_of_mem hrecord).2.id
    · intro change hchange
      obtain ⟨record, hrecord, rfl⟩ := hof change hchange
      exact Option.isSome_iff_exists.mpr ⟨record, (hvalid.lookup_of_mem hrecord).1⟩
    · rw [stopChanges, List.map_map]
      exact hvalid.active_nodup

end Schedule

end TianmaCoder
