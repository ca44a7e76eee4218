import TianmaCoder.Schedule.Domain

/-!
# What the strict reminder decoder accepts

A change that keeps the rules of its fields is decoded to itself, and whatever the decoder
accepts keeps them.

## Main definitions

* `ScheduleRecord.WellFormed`, `ScheduleChange.WellFormed` — every field keeps its rule.

## Main results

* `decodeScheduleChange_toJson` — a well-formed change survives writing and reading.
* `wellFormed_of_decodeScheduleChange` — a decoded change is well formed.
-/

namespace TianmaCoder

namespace Schedule

open Checked

/-- A canonical text of an instant with a four-digit year. -/
structure IsInstant (s : String) (t : ℤ) : Prop where
  canonical : Instant.isUtcInstant s = true
  parse : Instant.parse s = some t
  text : Instant.toISOString t = s
  min_le : Instant.minFourDigitYear ≤ t
  le_max : t ≤ Instant.maxFourDigitYear

theorem isInstant_toISOString {t : ℤ} (hmin : Instant.minFourDigitYear ≤ t)
    (hmax : t ≤ Instant.maxFourDigitYear) : IsInstant (Instant.toISOString t) t where
  canonical := Instant.isUtcInstant_toISOString hmin hmax
  parse := Instant.parse_toISOString hmin hmax
  text := rfl
  min_le := hmin
  le_max := hmax

/-- The bounds of a four-digit year are safe integers. -/
theorem isSafeInteger_of_range {t : ℤ} (hmin : Instant.minFourDigitYear ≤ t)
    (hmax : t ≤ Instant.maxFourDigitYear) : Json.isSafeInteger t = true := by
  rw [Instant.minFourDigitYear_eq] at hmin
  rw [Instant.maxFourDigitYear_eq] at hmax
  refine decide_eq_true ?_
  unfold Json.maxSafeInteger
  omega

/-- A text that is not empty and already trimmed. -/
def IsTrimmed (s : String) : Prop := s ≠ "" ∧ Text.trim s = s

/-- The rule of the field that distinguishes a kind. -/
def Rule.WellFormed : Rule → Prop
  | .after seconds => 0 < seconds ∧ Json.isSafeInteger seconds = true
  | .at => True
  | .every seconds => MIN_EVERY_INTERVAL_SECONDS ≤ seconds ∧ Json.isSafeInteger seconds = true
      ∧ Json.isSafeInteger (seconds * 1000) = true

structure ScheduleRecord.WellFormed (record : ScheduleRecord) : Prop where
  id : IsTrimmed record.id
  rule : record.rule.WellFormed
  prompt : IsTrimmed record.prompt
  scheduledAt : ∃ t, IsInstant record.scheduledAt t

/-- Every field keeps its rule. -/
def ScheduleChange.WellFormed : ScheduleChange → Prop
  | .create schedule => schedule.WellFormed
  | .delete id => IsTrimmed id
  | .dispatch id acceptedAt => IsTrimmed id ∧ ∀ instant ∈ acceptedAt, ∃ t, IsInstant instant t

/-! ## Fields -/

theorem trimmed_str {s : String} (h : IsTrimmed s) (error : String) :
    trimmed (some (.str s)) error = .ok s := by
  simp [trimmed, h.1, h.2]

theorem trimmed_ok {value : Option Json} {error s : String} (h : trimmed value error = .ok s) :
    value = some (.str s) ∧ IsTrimmed s := by
  unfold trimmed at h
  split at h
  · rw [throw_eq, guard_ok_iff, not_or, not_not] at h
    cases h.2
    exact ⟨rfl, h.1⟩
  · cases h

theorem decodeInstant_str {s : String} {t : ℤ} (h : IsInstant s t) :
    decodeInstant (some (.str s)) = .ok s := by
  simp [decodeInstant, h.canonical, h.parse, h.text]

theorem decodeInstant_ok {value : Option Json} {s : String} (h : decodeInstant value = .ok s) :
    value = some (.str s) ∧ ∃ t, IsInstant s t := by
  unfold decodeInstant at h
  split at h
  · rename_i text
    by_cases hcanonical : Instant.isUtcInstant text = true
    · obtain ⟨t, hparse, hmin, hmax⟩ := Instant.parse_range hcanonical
      simp only [hcanonical, if_true, hparse, throw_eq, guard_ok_iff, not_not, pure_eq,
        Except.ok.injEq] at h
      obtain ⟨htext, rfl⟩ := h
      exact ⟨rfl, t, hcanonical, hparse, htext, hmin, hmax⟩
    · rw [if_neg hcanonical] at h
      cases h
  · cases h

theorem safeInt?_int {n : ℤ} (h : Json.isSafeInteger n = true) :
    Json.safeInt? (some (.int n)) = some n := by
  simp [Json.safeInt?, h]

/-! ## Reading back -/

/-- Every kind is written with exactly the keys its decoder expects. -/
theorem decodeScheduleRecord_toJson {record : ScheduleRecord} (h : record.WellFormed) :
    decodeScheduleRecord record.toJson = .ok record := by
  obtain ⟨id, rule, prompt, scheduledAt⟩ := record
  obtain ⟨hid, hrule, hprompt, t, hinstant⟩ := h
  simp only at hid hrule hprompt hinstant
  cases rule with
  | after seconds =>
    have hkeys : hasExactKeys (ScheduleRecord.toJson ⟨id, .after seconds, prompt, scheduledAt⟩)
        ["id", "kind", "prompt", "afterSeconds", "scheduledAt"] = true := by
      simp only [hasExactKeys, ScheduleRecord.toJson, Rule.members, List.map, List.cons_append,
        List.nil_append]
      decide +kernel
    have hpos : ¬seconds ≤ 0 := not_le.mpr hrule.1
    simp only [decodeScheduleRecord, decodeAfterRecord, hkeys]
    simp [ScheduleRecord.toJson, Rule.members, Rule.kind, Json.isObject, decodeId,
      trimmed_str hprompt, trimmed_str hid, decodeInstant_str hinstant,
      safeInt?_int hrule.2, hpos]
  | «at» =>
    have hkeys : hasExactKeys (ScheduleRecord.toJson ⟨id, .at, prompt, scheduledAt⟩)
        ["id", "kind", "prompt", "scheduledAt"] = true := by
      simp only [hasExactKeys, ScheduleRecord.toJson, Rule.members, List.map, List.cons_append,
        List.nil_append]
      decide +kernel
    simp only [decodeScheduleRecord, decodeAtRecord, hkeys]
    simp [ScheduleRecord.toJson, Rule.members, Rule.kind, Json.isObject, decodeId,
      trimmed_str hprompt, trimmed_str hid, decodeInstant_str hinstant]
  | every seconds =>
    have hkeys : hasExactKeys (ScheduleRecord.toJson ⟨id, .every seconds, prompt, scheduledAt⟩)
        ["id", "kind", "prompt", "everySeconds", "scheduledAt"] = true := by
      simp only [hasExactKeys, ScheduleRecord.toJson, Rule.members, List.map, List.cons_append,
        List.nil_append]
      decide +kernel
    have hmin : ¬seconds < MIN_EVERY_INTERVAL_SECONDS := not_lt.mpr hrule.1
    simp only [decodeScheduleRecord, decodeEveryRecord, hkeys]
    simp [ScheduleRecord.toJson, Rule.members, Rule.kind, Json.isObject, decodeId,
      trimmed_str hprompt, trimmed_str hid, decodeInstant_str hinstant,
      safeInt?_int hrule.2.1, hmin, hrule.2.2]

theorem decodeScheduleChange_toJson {change : ScheduleChange} (h : change.WellFormed) :
    decodeScheduleChange change.toJson = .ok change := by
  cases change with
  | create schedule =>
    have hkeys : hasExactKeys (ScheduleChange.create schedule).toJson
        ["version", "operation", "schedule"] = true := by
      simp only [hasExactKeys, ScheduleChange.toJson, List.map]
      decide +kernel
    simp only [decodeScheduleChange, decodeCreate, hkeys]
    simp [ScheduleChange.toJson, Json.isObject, decodeScheduleRecord_toJson h]
  | delete id =>
    have hkeys : hasExactKeys (ScheduleChange.delete id).toJson
        ["version", "operation", "id"] = true := by
      simp only [hasExactKeys, ScheduleChange.toJson, List.map]
      decide +kernel
    simp only [decodeScheduleChange, decodeDelete, hkeys]
    simp [ScheduleChange.toJson, Json.isObject, decodeId, trimmed_str h]
  | dispatch id acceptedAt =>
    cases acceptedAt with
    | none =>
      have hkeys : hasExactKeys (ScheduleChange.dispatch id none).toJson
          ["version", "operation", "id"] = true := by
        simp only [hasExactKeys, ScheduleChange.toJson, Option.toList_none, List.map,
          List.append_nil]
        decide +kernel
      simp only [decodeScheduleChange, decodeDispatch, hkeys]
      simp [ScheduleChange.toJson, Json.isObject, decodeId, trimmed_str h.1]
    | some instant =>
      obtain ⟨t, hinstant⟩ := h.2 instant rfl
      have hkeys : hasExactKeys (ScheduleChange.dispatch id (some instant)).toJson
          ["version", "operation", "id", "acceptedAt"] = true := by
        simp only [hasExactKeys, ScheduleChange.toJson, Option.toList_some, List.map,
          List.cons_append, List.nil_append]
        decide +kernel
      have hshort : ¬hasExactKeys (ScheduleChange.dispatch id (some instant)).toJson
          ["version", "operation", "id"] = true := by
        simp only [hasExactKeys, ScheduleChange.toJson, Option.toList_some, List.map,
          List.cons_append, List.nil_append, decide_eq_true_eq]
        decide +kernel
      simp only [decodeScheduleChange, decodeDispatch, hkeys, hshort]
      simp [ScheduleChange.toJson, Json.isObject, decodeId, trimmed_str h.1,
        decodeInstant_str hinstant]

/-! ## What is accepted -/

theorem wellFormed_of_decodeScheduleRecord {value : Json} {record : ScheduleRecord}
    (h : decodeScheduleRecord value = .ok record) : record.WellFormed := by
  unfold decodeScheduleRecord at h
  rw [throw_eq, guard_ok_iff] at h
  replace h := h.2
  split at h
  · rw [decodeAfterRecord, throw_eq, guard_ok_iff] at h
    simp only [bind_ok_iff] at h
    obtain ⟨_, prompt, hprompt, h⟩ := h
    cases hsafe : Json.safeInt? (value.get? "afterSeconds") with
    | none => simp [hsafe] at h
    | some seconds =>
      simp only [hsafe, throw_eq, guard_ok_iff, bind_ok_iff, pure_eq, Except.ok.injEq] at h
      obtain ⟨hpos, id, hid, scheduledAt, hinstant, rfl⟩ := h
      exact ⟨(trimmed_ok hid).2, ⟨not_le.mp hpos, Json.isSafeInteger_of_safeInt? hsafe⟩,
        (trimmed_ok hprompt).2, (decodeInstant_ok hinstant).2⟩
  · split at h
    · rw [decodeAtRecord, throw_eq, guard_ok_iff] at h
      simp only [bind_ok_iff, pure_eq, Except.ok.injEq] at h
      obtain ⟨_, prompt, hprompt, id, hid, scheduledAt, hinstant, rfl⟩ := h
      exact ⟨(trimmed_ok hid).2, trivial, (trimmed_ok hprompt).2, (decodeInstant_ok hinstant).2⟩
    · split at h
      · simp only [decodeEveryRecord] at h
        rw [throw_eq, guard_ok_iff] at h
        simp only [bind_ok_iff] at h
        obtain ⟨_, prompt, hprompt, h⟩ := h
        cases hsafe : Json.safeInt? (value.get? "everySeconds") with
        | none => simp [hsafe] at h
        | some seconds =>
          simp only [hsafe, throw_eq, guard_ok_iff, bind_ok_iff, pure_eq, Except.ok.injEq,
            not_or, not_not] at h
          obtain ⟨⟨hmin, hinterval⟩, id, hid, scheduledAt, hinstant, rfl⟩ := h
          exact ⟨(trimmed_ok hid).2,
            ⟨not_lt.mp hmin, Json.isSafeInteger_of_safeInt? hsafe, hinterval⟩,
            (trimmed_ok hprompt).2, (decodeInstant_ok hinstant).2⟩
      · cases h

theorem wellFormed_of_decodeScheduleChange {value : Json} {change : ScheduleChange}
    (h : decodeScheduleChange value = .ok change) : change.WellFormed := by
  unfold decodeScheduleChange at h
  rw [throw_eq, throw_eq, guard_ok_iff, guard_ok_iff] at h
  replace h := h.2.2
  split at h
  · rw [decodeCreate, throw_eq, guard_ok_iff] at h
    simp only [bind_ok_iff, pure_eq, Except.ok.injEq] at h
    obtain ⟨_, schedule, hschedule, rfl⟩ := h
    exact wellFormed_of_decodeScheduleRecord hschedule
  · split at h
    · rw [decodeDelete, throw_eq, guard_ok_iff] at h
      simp only [bind_ok_iff, pure_eq, Except.ok.injEq] at h
      obtain ⟨_, id, hid, rfl⟩ := h
      exact (trimmed_ok hid).2
    · split at h
      · unfold decodeDispatch at h
        split at h
        · simp only [bind_ok_iff, pure_eq, Except.ok.injEq] at h
          obtain ⟨id, hid, rfl⟩ := h
          exact ⟨(trimmed_ok hid).2, fun instant hi => by simp at hi⟩
        · split at h
          · simp only [bind_ok_iff, pure_eq, Except.ok.injEq] at h
            obtain ⟨id, hid, acceptedAt, hinstant, rfl⟩ := h
            refine ⟨(trimmed_ok hid).2, fun instant hi => ?_⟩
            rw [Option.mem_some_iff] at hi
            exact hi ▸ (decodeInstant_ok hinstant).2
          · cases h
      · cases h

end Schedule

end TianmaCoder
