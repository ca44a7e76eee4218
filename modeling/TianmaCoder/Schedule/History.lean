import TianmaCoder.Schedule.Codec
import TianmaCoder.Schedule.Fold

/-!
# The history of the reminders of a session

What every accepted log has: the active reminders have distinct ids and well-formed records, and
the used ids are those that the log creates, each once and in order. The session projection is
the fold of the log behind its inherited prefix, and its state passes its schema.

## Main definitions

* `Batch.Valid` — the invariant of the transition authority.
* `OwnedLog` — a session log with its inherited prefix.

## Main results

* `project_eq` — the projection is the fold.
* `parseState_toJson` — a valid state passes its schema unchanged.
* `seen_eq_createdIds` — the used ids are the created ones.
-/

namespace TianmaCoder

namespace Schedule

open Checked

/-- What holds of the map and the set between two changes. -/
structure Batch.Valid (batch : Batch) : Prop where
  keys_nodup : (OrderedMap.keys batch.active).Nodup
  entry : ∀ e ∈ batch.active, e.2.id = e.1 ∧ e.2.WellFormed ∧ e.1 ∈ batch.seen
  seen_nodup : batch.seen.Nodup
  seen_trimmed : ∀ id ∈ batch.seen, IsTrimmed id

/-! ## Reopening a batch -/

theorem foldl_addSeen {ids acc : List String} (hnodup : (acc ++ ids).Nodup) :
    ids.foldl addSeen acc = acc ++ ids := by
  induction ids generalizing acc with
  | nil => exact (List.append_nil acc).symm
  | cons id ids ih =>
    have hfresh : id ∉ acc := by
      intro hmem
      exact (List.nodup_append.mp hnodup).2.2 id hmem id (by simp) rfl
    have happend : acc ++ id :: ids = (acc ++ [id]) ++ ids := by simp
    rw [List.foldl_cons, addSeen, if_neg hfresh, happend]
    exact ih (happend ▸ hnodup)

/-- A batch is opened again from the arrays it wrote. -/
theorem Batch.Valid.ofFolded_folded {batch : Batch} (h : batch.Valid) :
    Batch.ofFolded batch.folded = batch := by
  have hactive : (batch.active.map Prod.snd).foldl
      (fun active record => OrderedMap.set record.id record active) [] = batch.active :=
    OrderedMap.foldl_set ScheduleRecord.id (fun e he => (h.entry e he).1) h.keys_nodup
  have hseen : batch.seen.foldl addSeen [] = batch.seen := foldl_addSeen h.seen_nodup
  rw [Batch.ofFolded, Batch.folded, hactive, hseen]

/-! ## One change -/

/-- The next target of a fixed-rate reminder has a four-digit year. -/
theorem isInstant_of_next {everySeconds : ℤ} {scheduledAt next : String} {acceptedAt : Option ℤ}
    {occurrence : EveryOccurrence} (hinstant : ∃ t, IsInstant scheduledAt t)
    (h : resolveEveryOccurrence everySeconds scheduledAt acceptedAt = .ok occurrence)
    (hnext : occurrence.nextScheduledAt = some next) : ∃ t, IsInstant next t := by
  obtain ⟨target, htarget⟩ := hinstant
  unfold resolveEveryOccurrence at h
  cases acceptedAt with
  | none => cases h
  | some acceptedAt =>
    simp only [htarget.parse, throw_eq, guard_ok_iff, not_or, not_lt, not_le] at h
    obtain ⟨_, ⟨_, hinterval⟩, _, ⟨_, hlow, _⟩, hresult⟩ := h
    split at hresult
    · cases hresult
      cases hnext
    · rename_i hfits
      rw [not_or, not_lt] at hfits
      cases hresult
      cases hnext
      have hmin := htarget.min_le
      exact ⟨_, isInstant_toISOString (by omega) hfits.2⟩

/-- A dispatched fixed-rate reminder keeps its id and its rules. -/
theorem wellFormed_of_dispatched {record next : ScheduleRecord} {acceptedAt : Option String}
    (hrecord : record.WellFormed) (h : dispatchedRecord record acceptedAt = .ok (some next)) :
    next.id = record.id ∧ next.WellFormed := by
  unfold dispatchedRecord at h
  split at h
  · simp only [bind_ok_iff, pure_eq, Except.ok.injEq] at h
    obtain ⟨occurrence, hoccurrence, hmap⟩ := h
    obtain ⟨instant, hinstant, rfl⟩ := Option.map_eq_some_iff.mp hmap
    refine ⟨rfl, ?_⟩
    exact
      { hrecord with
        scheduledAt := isInstant_of_next hrecord.scheduledAt hoccurrence hinstant }
  · cases h
  · cases h
  · cases h

namespace Batch.Valid

variable {batch next : Batch}

theorem delete (h : batch.Valid) (id : String) :
    Batch.Valid { batch with active := OrderedMap.delete id batch.active } where
  keys_nodup := OrderedMap.nodup_keys_delete h.keys_nodup id
  entry e he := h.entry e (List.mem_filter.mp he).1
  seen_nodup := h.seen_nodup
  seen_trimmed := h.seen_trimmed

theorem set (h : batch.Valid) {record : ScheduleRecord} (hrecord : record.WellFormed)
    (hseen : record.id ∈ batch.seen) :
    Batch.Valid { batch with active := OrderedMap.set record.id record batch.active } where
  keys_nodup := OrderedMap.nodup_keys_set h.keys_nodup record.id record
  entry e he := by
    rcases OrderedMap.mem_set he with rfl | he
    · exact ⟨rfl, hrecord, hseen⟩
    · exact h.entry e he
  seen_nodup := h.seen_nodup
  seen_trimmed := h.seen_trimmed

theorem see (h : batch.Valid) {id : String} (hid : IsTrimmed id) :
    Batch.Valid { batch with seen := addSeen batch.seen id } := by
  unfold addSeen
  by_cases hseen : id ∈ batch.seen
  · rw [if_pos hseen]
    exact h
  · rw [if_neg hseen]
    refine ⟨h.keys_nodup, fun e he => ?_, ?_, fun other hother => ?_⟩
    · obtain ⟨heid, hwell, hmem⟩ := h.entry e he
      exact ⟨heid, hwell, List.mem_append_left _ hmem⟩
    · exact List.Nodup.append h.seen_nodup (List.nodup_singleton id) (by simpa using hseen)
    · rcases List.mem_append.mp hother with hother | hother
      · exact h.seen_trimmed other hother
      · rw [List.mem_singleton.mp hother]
        exact hid

theorem lookup (h : batch.Valid) {id : String} {record : ScheduleRecord}
    (hlookup : batch.active.lookup id = some record) :
    record.id = id ∧ record.WellFormed ∧ id ∈ batch.seen :=
  h.entry (id, record) (OrderedMap.mem_of_lookup hlookup)

theorem change (h : batch.Valid) {change : ScheduleChange} (hchange : change.WellFormed)
    (happly : applyScheduleChange batch change = .ok next) : next.Valid := by
  cases change with
  | create schedule =>
    simp only [applyScheduleChange, throw_eq, guard_ok_iff, pure_eq, Except.ok.injEq] at happly
    obtain ⟨hfresh, rfl⟩ := happly
    refine (h.see hchange.id).set hchange ?_
    simp only [addSeen, if_neg hfresh, List.mem_append, List.mem_singleton, or_true]
  | delete id =>
    simp only [applyScheduleChange, throw_eq, guard_ok_iff, pure_eq, Except.ok.injEq] at happly
    rw [← happly.2]
    exact h.delete id
  | dispatch id acceptedAt =>
    unfold applyScheduleChange at happly
    cases hlookup : batch.active.lookup id with
    | none => simp [hlookup] at happly
    | some record =>
      obtain ⟨hid, hwell, hseen⟩ := h.lookup hlookup
      simp only [hlookup, bind_ok_iff] at happly
      obtain ⟨result, hdispatched, hresult⟩ := happly
      cases result with
      | none =>
        cases hresult
        exact h.delete id
      | some moved =>
        cases hresult
        obtain ⟨hsame, hmoved⟩ := wellFormed_of_dispatched hwell hdispatched
        have heq : moved.id = id := hsame.trans hid
        have hset := h.set hmoved (heq ▸ hseen)
        rwa [heq] at hset

theorem event (h : batch.Valid) {event : SessionEvent}
    (happly : applyScheduleEvent batch event = .ok next) : next.Valid := by
  unfold applyScheduleEvent at happly
  split at happly
  · rw [bind_ok_iff] at happly
    obtain ⟨change, hdecode, hchange⟩ := happly
    exact h.change (wellFormed_of_decodeScheduleChange hdecode) hchange
  · cases happly
    exact h

theorem empty : (Batch.ofFolded ⟨[], []⟩).Valid :=
  ⟨List.nodup_nil, fun _ he => absurd he List.not_mem_nil, List.nodup_nil,
    fun _ hid => absurd hid List.not_mem_nil⟩

/-- Every accepted log leads to a valid batch. -/
theorem events {events : List SessionEvent} (h : batch.Valid)
    (hrun : events.foldlM applyScheduleEvent batch = .ok next) : next.Valid :=
  foldlM_induction (motive := fun _ batch => batch.Valid) hrun h
    fun _ _ _ _ _ hvalid happly => hvalid.event happly

end Batch.Valid

/-! ## Logs -/

/-- A session log with its inherited prefix: events stand at their own numbers. -/
structure OwnedLog where
  inherited : List SessionEvent
  own : List SessionEvent
  seq_eq : ∀ (i : ℕ) (event : SessionEvent), (inherited ++ own)[i]? = some event → event.seq = i
  length_le : (inherited ++ own).length ≤ Json.maxArrayLength

namespace OwnedLog

/-- The whole log. -/
def events (log : OwnedLog) : List SessionEvent := log.inherited ++ log.own

/-- The log up to an own event. -/
def take (log : OwnedLog) (n : ℕ) : OwnedLog where
  inherited := log.inherited
  own := log.own.take n
  seq_eq i event hi := by
    refine log.seq_eq i event ?_
    have hprefix : log.inherited ++ log.own.take n <+: log.inherited ++ log.own :=
      (List.prefix_append_right_inj _).mpr (List.take_prefix n log.own)
    obtain ⟨rest, hrest⟩ := hprefix
    rw [← hrest, List.getElem?_append_left (List.getElem?_eq_some_iff.mp hi).1]
    exact hi
  length_le := by
    have hle := log.length_le
    rw [List.length_append] at hle ⊢
    rw [List.length_take]
    omega

theorem inherited_lt (log : OwnedLog) {event : SessionEvent} (h : event ∈ log.inherited) :
    event.seq < log.inherited.length := by
  obtain ⟨i, hi, rfl⟩ := List.getElem_of_mem h
  have hseq := log.seq_eq i log.inherited[i]
    (by rw [List.getElem?_append_left hi, List.getElem?_eq_getElem hi])
  rw [hseq]
  exact hi

theorem own_le (log : OwnedLog) {event : SessionEvent} (h : event ∈ log.own) :
    log.inherited.length ≤ event.seq := by
  obtain ⟨i, hi, rfl⟩ := List.getElem_of_mem h
  have hseq := log.seq_eq (log.inherited.length + i) log.own[i]
    (by rw [List.getElem?_append_right (by omega), Nat.add_sub_cancel_left,
      List.getElem?_eq_getElem hi])
  omega

/-- The batch after the own events. -/
def batch (log : OwnedLog) : Except String Batch :=
  log.own.foldlM applyScheduleEvent (Batch.ofFolded ⟨[], []⟩)

/-- The runtime's fold. -/
def fold (log : OwnedLog) : Except String FoldedSchedules :=
  foldScheduleEvents log.events log.inherited.length

/-- The projection, event by event. -/
def project (log : OwnedLog) : Except String ScheduleProjectionState :=
  log.events.foldlM ScheduleProjectionState.apply (.init log.inherited.length)

theorem fold_eq (log : OwnedLog) : log.fold = log.batch.map Batch.folded := by
  have hsafe : Json.isSafeInteger (log.inherited.length : ℤ) = true := by
    have hle := log.length_le
    have harray := Json.maxArrayLength_le
    rw [List.length_append] at hle
    refine decide_eq_true ?_
    omega
  have hlength : ¬(log.inherited ++ log.own).length < log.inherited.length := by
    rw [List.length_append]
    omega
  simp only [fold, foldScheduleEvents, events, hsafe, hlength, List.drop_left, not_true,
    or_self, if_false, batch]
  cases log.own.foldlM applyScheduleEvent (Batch.ofFolded ⟨[], []⟩) <;> rfl

theorem batch_valid (log : OwnedLog) {batch : Batch} (h : log.batch = .ok batch) : batch.Valid :=
  Batch.Valid.empty.events h

end OwnedLog

/-! ## The projection is the fold -/

/-- The projection step is the step of the fold, on the arrays of a valid batch. -/
theorem apply_folded {batch : Batch} (h : batch.Valid) {event : SessionEvent} {cut : ℕ}
    (hown : cut ≤ event.seq) :
    ScheduleProjectionState.apply ⟨batch.folded, cut⟩ event
      = (applyScheduleEvent batch event).map fun next => ⟨next.folded, cut⟩ := by
  have hcut : ¬event.seq < cut := not_lt.mpr hown
  unfold ScheduleProjectionState.apply applyScheduleEvent
  by_cases htype : event.type = .scheduleChange
  · have hskip : ¬(event.seq < cut ∨ event.type ≠ .scheduleChange) := by
      rw [not_or, not_not]
      exact ⟨hcut, htype⟩
    rw [if_neg hskip, if_pos htype]
    cases decodeScheduleChange event.data with
    | error error => rfl
    | ok change =>
      simp only [ok_bind, applyScheduleChanges, List.foldlM_cons, List.foldlM_nil,
        h.ofFolded_folded]
      cases applyScheduleChange batch change <;> rfl
  · rw [if_pos (.inr htype), if_neg htype]
    rfl

theorem project_own {own : List SessionEvent} {batch : Batch} {cut : ℕ} (h : batch.Valid)
    (hown : ∀ event ∈ own, cut ≤ event.seq) :
    own.foldlM ScheduleProjectionState.apply ⟨batch.folded, cut⟩
      = (own.foldlM applyScheduleEvent batch).map fun next => ⟨next.folded, cut⟩ := by
  induction own generalizing batch with
  | nil => rfl
  | cons event own ih =>
    rw [List.foldlM_cons, List.foldlM_cons, apply_folded h (hown event List.mem_cons_self)]
    cases happly : applyScheduleEvent batch event with
    | error error => rfl
    | ok next =>
      exact ih (h.event happly) fun e he => hown e (List.mem_cons_of_mem event he)

theorem project_inherited {inherited : List SessionEvent} {cut : ℕ}
    (h : ∀ event ∈ inherited, event.seq < cut) (state : ScheduleProjectionState)
    (hcut : state.inheritedEventCount = cut) :
    inherited.foldlM ScheduleProjectionState.apply state = .ok state := by
  induction inherited with
  | nil => rfl
  | cons event inherited ih =>
    have hskip : event.seq < state.inheritedEventCount := hcut ▸ h event List.mem_cons_self
    rw [List.foldlM_cons, ScheduleProjectionState.apply, if_pos (.inl hskip)]
    exact ih fun e he => h e (List.mem_cons_of_mem event he)

theorem project_eq (log : OwnedLog) :
    log.project = log.fold.map fun folded => ⟨folded, log.inherited.length⟩ := by
  rw [OwnedLog.fold_eq, OwnedLog.project, OwnedLog.events, List.foldlM_append,
    project_inherited (fun _ h => log.inherited_lt h) _ rfl, ok_bind]
  have hown := project_own Batch.Valid.empty fun _ h => log.own_le h
  have hinit : ScheduleProjectionState.init log.inherited.length
      = ⟨(Batch.ofFolded ⟨[], []⟩).folded, log.inherited.length⟩ := rfl
  rw [hinit, hown, OwnedLog.batch]
  cases log.own.foldlM applyScheduleEvent (Batch.ofFolded ⟨[], []⟩) <;> rfl

/-! ## The state schema -/

theorem scheduleId_str {id : String} (h : IsTrimmed id) : scheduleId (.str id) = .ok id := by
  have hdecode : decodeScheduleChange (ScheduleChange.delete id).toJson = .ok (.delete id) :=
    decodeScheduleChange_toJson h
  rw [ScheduleChange.toJson] at hdecode
  rw [scheduleId, hdecode]
  rfl

theorem scheduleRecord_toJson {record : ScheduleRecord} (h : record.WellFormed) :
    scheduleRecord record.toJson = .ok record := by
  have hdecode : decodeScheduleChange (ScheduleChange.create record).toJson
      = .ok (.create record) := decodeScheduleChange_toJson h
  rw [ScheduleChange.toJson] at hdecode
  rw [scheduleRecord, hdecode]
  rfl

theorem parseState_toJson {batch : Batch} (h : batch.Valid) {cut : ℕ}
    (hcut : cut ≤ Json.maxSafeInteger) :
    parseState (ScheduleProjectionState.toJson ⟨batch.folded, cut⟩) = .ok ⟨batch.folded, cut⟩ := by
  have hkeys : hasExactKeys (ScheduleProjectionState.toJson ⟨batch.folded, cut⟩)
      ["inheritedEventCount", "active", "seenIds"] = true := by
    simp only [hasExactKeys, ScheduleProjectionState.toJson, List.map]
    decide +kernel
  have hcount : (ScheduleProjectionState.toJson ⟨batch.folded, cut⟩).get? "inheritedEventCount"
      = some (.nat cut) := rfl
  have hactive : (ScheduleProjectionState.toJson ⟨batch.folded, cut⟩).get? "active"
      = some (.arr (batch.folded.active.map ScheduleRecord.toJson)) := rfl
  have hseen : (ScheduleProjectionState.toJson ⟨batch.folded, cut⟩).get? "seenIds"
      = some (.arr (batch.seen.map Json.str)) := rfl
  have hrecords : (batch.folded.active.map ScheduleRecord.toJson).mapM scheduleRecord
      = .ok batch.folded.active := by
    refine mapM_map_ok fun record hrecord => scheduleRecord_toJson ?_
    obtain ⟨e, he, rfl⟩ := List.mem_map.mp hrecord
    exact (h.entry e he).2.1
  have hids : (batch.seen.map Json.str).mapM scheduleId = .ok batch.seen :=
    mapM_map_ok fun id hid => scheduleId_str (h.seen_trimmed id hid)
  have hmember : ∀ record ∈ batch.folded.active, record.id ∈ batch.seen := by
    intro record hrecord
    obtain ⟨e, he, rfl⟩ := List.mem_map.mp hrecord
    rw [(h.entry e he).1]
    exact (h.entry e he).2.2
  have hdistinct : (batch.folded.active.map ScheduleRecord.id).Nodup := by
    have hsame : batch.folded.active.map ScheduleRecord.id = OrderedMap.keys batch.active := by
      rw [Batch.folded, List.map_map]
      exact List.map_congr_left fun e he => (h.entry e he).1
    rw [hsame]
    exact h.keys_nodup
  simp only [parseState, hkeys, hcount, hactive, hseen, Json.count?_nat, hcut, if_true,
    Json.arr?, hrecords, hids, ok_bind, not_true, if_false]
  rw [refineState, if_neg (not_not_intro h.seen_nodup), if_neg (not_not_intro hmember),
    if_neg (not_not_intro hdistinct)]
  rfl

/-! ## Created ids -/

/-- The id that an event creates. -/
def createdId (event : SessionEvent) : Option String :=
  if event.type = .scheduleChange then
    match decodeScheduleChange event.data with
    | .ok (.create schedule) => some schedule.id
    | _ => none
  else none

/-- An accepted event adds the id it creates, which was not used before. -/
theorem seen_of_event {batch next : Batch} {event : SessionEvent}
    (h : applyScheduleEvent batch event = .ok next) :
    next.seen = batch.seen ++ (createdId event).toList
      ∧ ∀ id ∈ createdId event, id ∉ batch.seen := by
  unfold applyScheduleEvent at h
  by_cases htype : event.type = .scheduleChange
  · rw [if_pos htype, bind_ok_iff] at h
    obtain ⟨change, hdecode, happly⟩ := h
    cases change with
    | create schedule =>
      have hcreated : createdId event = some schedule.id := by
        simp [createdId, htype, hdecode]
      simp only [applyScheduleChange, throw_eq, guard_ok_iff, pure_eq, Except.ok.injEq] at happly
      obtain ⟨hfresh, rfl⟩ := happly
      rw [hcreated]
      refine ⟨?_, fun id hid => ?_⟩
      · simp only [addSeen, if_neg hfresh, Option.toList_some]
      · rw [← Option.mem_some_iff.mp hid]
        exact hfresh
    | delete id =>
      have hcreated : createdId event = none := by simp [createdId, htype, hdecode]
      simp only [applyScheduleChange, throw_eq, guard_ok_iff, pure_eq, Except.ok.injEq] at happly
      rw [hcreated, ← happly.2]
      exact ⟨(List.append_nil _).symm, fun _ hid => by cases hid⟩
    | dispatch id acceptedAt =>
      have hcreated : createdId event = none := by simp [createdId, htype, hdecode]
      rw [hcreated]
      refine ⟨?_, fun _ hid => by cases hid⟩
      unfold applyScheduleChange at happly
      cases hlookup : batch.active.lookup id with
      | none => simp [hlookup] at happly
      | some record =>
        simp only [hlookup, bind_ok_iff] at happly
        obtain ⟨result, _, hresult⟩ := happly
        cases result with
        | none =>
          cases hresult
          exact (List.append_nil _).symm
        | some moved =>
          cases hresult
          exact (List.append_nil _).symm
  · rw [if_neg htype] at h
    cases h
    have hcreated : createdId event = none := by simp [createdId, htype]
    rw [hcreated]
    exact ⟨(List.append_nil _).symm, fun _ hid => by cases hid⟩

theorem seen_eq_createdIds {log : OwnedLog} {batch : Batch} (h : log.batch = .ok batch) :
    batch.seen = log.own.filterMap createdId := by
  refine foldlM_induction (motive := fun pre batch => batch.seen = pre.filterMap createdId) h rfl ?_
  intro pre event before next _ hseen happly
  rw [(seen_of_event happly).1, hseen, List.filterMap_append]
  cases hcreated : createdId event <;> simp [hcreated]

end Schedule

end TianmaCoder
