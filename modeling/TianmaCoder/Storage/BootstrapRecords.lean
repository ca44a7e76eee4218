import Mathlib.Data.List.Nodup
import Std.Data.String.ToNat
import TianmaCoder.Storage.BootstrapTree

/-!
# The records of a legacy file

The copy takes every record of the declared tables, each once; a table that is `null` ends it. A
document that was written reads back as the record that it was written for.

## Main definitions

* `PerRecord.IsLegacyRecord` — a legacy file has a record.

## Main results

* `PerRecord.mem_legacyRecords_iff` — the records that are copied.
* `PerRecord.find_setRecords` — the state after the copy.
-/

namespace TianmaCoder

namespace PerRecord

variable {descriptor : KvUnitDescriptor}

/-! ## Entries -/

theorem nodup_foldl_set (members : List (String × Json)) {acc : OrderedMap String Json}
    (h : (OrderedMap.keys acc).Nodup) :
    (OrderedMap.keys
      (members.foldl (fun entries member => entries.set member.1 member.2) acc)).Nodup := by
  induction members generalizing acc with
  | nil => exact h
  | cons member members ih => exact ih (OrderedMap.nodup_keys_set h member.1 member.2)

theorem nodup_indexed {α : Type} (items : List α) (value : α → Json) :
    (OrderedMap.keys (items.zipIdx.map fun item => (toString item.2, value item.1))).Nodup := by
  have hkeys : OrderedMap.keys (items.zipIdx.map fun item => (toString item.2, value item.1)) =
      (List.range' 0 items.length).map toString := by
    rw [← List.zipIdx_map_snd 0 items, OrderedMap.keys, List.map_map, List.map_map]
    rfl
  rw [hkeys]
  refine List.Nodup.map ?_ List.nodup_range'
  intro m n h
  exact Nat.repr_injective h

theorem nodup_objectEntries {value : Json} {entries : OrderedMap String Json}
    (h : objectEntries value = .ok entries) : (OrderedMap.keys entries).Nodup := by
  cases value with
  | obj members =>
    cases h
    exact nodup_foldl_set members List.nodup_nil
  | arr items =>
    cases h
    exact nodup_indexed items id
  | str s =>
    cases h
    exact nodup_indexed s.toList fun c => .str (String.singleton c)
  | null => cases h
  | _ =>
    cases h
    exact List.nodup_nil

theorem nodup_tableEntries (tables : Json) : (OrderedMap.keys (tableEntries tables)).Nodup := by
  unfold tableEntries
  split
  · next entries h => exact nodup_objectEntries h
  · exact List.nodup_nil

theorem objectEntries_error_iff (value : Json) :
    (∃ message, objectEntries value = .error message) ↔ value = .null := by
  cases value <;> simp [objectEntries]

/-! ## The records of declared tables -/

/-- A legacy file with these tables has a record of a declared table. -/
def IsLegacyRecord (descriptor : KvUnitDescriptor) (tables : Json) (table key : String)
    (value : Json) : Prop :=
  table ∈ descriptor.tables ∧ ∃ records entries, (table, records) ∈ tableEntries tables ∧
    objectEntries records = .ok entries ∧ (key, value) ∈ entries

variable {tables : List (String × Json)}

theorem mem_declaredRecords {record : LegacyRecord}
    (h : record ∈ (declaredRecords descriptor tables).1) :
    record.table ∈ descriptor.tables ∧ ∃ records entries, (record.table, records) ∈ tables ∧
      objectEntries records = .ok entries ∧ (record.key, record.value) ∈ entries := by
  induction tables with
  | nil => cases h
  | cons entry tables ih =>
    obtain ⟨table, records⟩ := entry
    rw [declaredRecords] at h
    split at h
    · next htable =>
        split at h
        · cases h
        · next entries hentries =>
            rcases List.mem_append.mp h with h | h
            · obtain ⟨found, hfound, rfl⟩ := List.mem_map.mp h
              exact ⟨htable, records, entries, List.mem_cons_self, hentries, hfound⟩
            · obtain ⟨hdeclared, records', entries', hmem, hrest⟩ := ih h
              exact ⟨hdeclared, records', entries', List.mem_cons_of_mem _ hmem, hrest⟩
    · obtain ⟨hdeclared, records', entries', hmem, hrest⟩ := ih h
      exact ⟨hdeclared, records', entries', List.mem_cons_of_mem _ hmem, hrest⟩

/-- The copy reaches its end when no declared table is `null`. -/
theorem declaredRecords_ends_iff (tables : List (String × Json)) :
    (declaredRecords descriptor tables).2 = false ↔
      ∀ table, (table, Json.null) ∈ tables → table ∉ descriptor.tables := by
  induction tables with
  | nil => simp [declaredRecords]
  | cons entry tables ih =>
    obtain ⟨table, records⟩ := entry
    rw [declaredRecords]
    split
    · next htable =>
        split
        · next message hentries =>
            have hnull := (objectEntries_error_iff records).mp ⟨message, hentries⟩
            refine iff_of_false (by simp) ?_
            intro h
            exact h table (by rw [hnull]; exact List.mem_cons_self) htable
        · next entries hentries =>
            have hnull : records ≠ .null := by
              rintro rfl
              cases hentries
            rw [ih]
            constructor
            · intro h other hmem
              rcases List.mem_cons.mp hmem with heq | hmem
              · cases heq
                exact absurd rfl hnull
              · exact h other hmem
            · exact fun h other hmem => h other (List.mem_cons_of_mem _ hmem)
    · next htable =>
        rw [ih]
        constructor
        · intro h other hmem
          rcases List.mem_cons.mp hmem with heq | hmem
          · cases heq
            exact htable
          · exact h other hmem
        · exact fun h other hmem => h other (List.mem_cons_of_mem _ hmem)

theorem declaredRecords_of_mem {table : String} {records : Json} {entries : OrderedMap String Json}
    {entry : String × Json} (hend : (declaredRecords descriptor tables).2 = false)
    (htable : table ∈ descriptor.tables) (hmem : (table, records) ∈ tables)
    (hentries : objectEntries records = .ok entries) (hentry : entry ∈ entries) :
    ⟨table, entry.1, entry.2⟩ ∈ (declaredRecords descriptor tables).1 := by
  induction tables with
  | nil => cases hmem
  | cons first tables ih =>
    obtain ⟨name, values⟩ := first
    rw [declaredRecords] at hend ⊢
    rcases List.mem_cons.mp hmem with heq | hmem
    · cases heq
      rw [if_pos htable, hentries]
      exact List.mem_append.mpr (.inl (List.mem_map.mpr ⟨entry, hentry, rfl⟩))
    · split at hend
      · next hname =>
          rw [if_pos hname]
          split at hend
          · cases hend
          · next others hothers =>
              exact List.mem_append.mpr (.inr (ih hend hmem))
      · next hname =>
          rw [if_neg hname]
          exact ih hend hmem

theorem mem_legacyRecords_iff {tables : Json} (hend : (legacyRecords descriptor tables).2 = false)
    (table key : String) (value : Json) :
    ⟨table, key, value⟩ ∈ (legacyRecords descriptor tables).1 ↔
      IsLegacyRecord descriptor tables table key value := by
  constructor
  · intro h
    exact mem_declaredRecords h
  · rintro ⟨htable, records, entries, hmem, hentries, hentry⟩
    exact declaredRecords_of_mem hend htable hmem hentries hentry

theorem nodup_declaredRecords (h : (OrderedMap.keys tables).Nodup) :
    ((declaredRecords descriptor tables).1.map fun record =>
      (record.table, record.key)).Nodup := by
  induction tables with
  | nil => exact List.nodup_nil
  | cons first tables ih =>
    obtain ⟨table, records⟩ := first
    rw [OrderedMap.keys_cons, List.nodup_cons] at h
    rw [declaredRecords]
    split
    · split
      · exact List.nodup_nil
      · next entries hentries =>
          have hkeys := nodup_objectEntries hentries
          rw [List.map_append, List.nodup_append]
          refine ⟨?_, ih h.2, ?_⟩
          · rw [List.map_map]
            have hpair : ((fun record : LegacyRecord => (record.table, record.key)) ∘
                fun entry : String × Json => (⟨table, entry.1, entry.2⟩ : LegacyRecord)) =
                (fun key => (table, key)) ∘ Prod.fst := rfl
            rw [hpair, ← List.map_map]
            exact hkeys.map fun a b hab => (Prod.mk.inj hab).2
          · intro a ha b hb heq
            obtain ⟨record, hrecord, rfl⟩ := List.mem_map.mp ha
            obtain ⟨entry, -, rfl⟩ := List.mem_map.mp hrecord
            obtain ⟨other, hother, rfl⟩ := List.mem_map.mp hb
            obtain ⟨-, values, -, hmem, -⟩ := mem_declaredRecords hother
            have htable : other.table = table := (Prod.mk.inj heq).1.symm
            rw [htable] at hmem
            exact h.1 (List.mem_map.mpr ⟨_, hmem, rfl⟩)
    · exact ih h.2

theorem nodup_legacyRecords (descriptor : KvUnitDescriptor) (tables : Json) :
    ((legacyRecords descriptor tables).1.map fun record => (record.table, record.key)).Nodup :=
  nodup_declaredRecords (nodup_tableEntries tables)

/-! ## The state after the copy -/

theorem find_setRecord (state : UnitState) (record : LegacyRecord) (table key : String) :
    (state.setRecords [record]).find table key =
      if table = record.table ∧ key = record.key then some record.value
      else state.find table key := by
  rw [UnitState.find, UnitState.setRecords]
  simp only [List.foldl_cons, List.foldl_nil]
  rw [OrderedMap.lookup_set]
  by_cases htable : table = record.table
  · rw [if_pos htable, Option.bind_some, OrderedMap.lookup_set]
    by_cases hkey : key = record.key
    · rw [if_pos hkey, if_pos ⟨htable, hkey⟩]
    · rw [if_neg hkey, if_neg (fun h => hkey h.2), UnitState.find, htable]
      cases state.tables.lookup record.table <;> rfl
  · rw [if_neg htable, if_neg (fun h => htable h.1), UnitState.find]

variable {records : List LegacyRecord}

theorem find_setRecords (hnodup : (records.map fun record => (record.table, record.key)).Nodup)
    (state : UnitState) (table key : String) (value : Json) :
    (state.setRecords records).find table key = some value ↔
      ⟨table, key, value⟩ ∈ records ∨
        (∀ record ∈ records, ¬(table = record.table ∧ key = record.key)) ∧
          state.find table key = some value := by
  induction records generalizing state with
  | nil => simp [UnitState.setRecords]
  | cons record records ih =>
    rw [List.map_cons, List.nodup_cons] at hnodup
    have hsplit : state.setRecords (record :: records) =
        (state.setRecords [record]).setRecords records := rfl
    rw [hsplit, ih hnodup.2, find_setRecord, List.forall_mem_cons]
    have hmem : (⟨table, key, value⟩ : LegacyRecord) ∈ record :: records ↔
        ⟨table, key, value⟩ = record ∨ ⟨table, key, value⟩ ∈ records := List.mem_cons
    rw [hmem]
    by_cases hsame : table = record.table ∧ key = record.key
    · rw [if_pos hsame, Option.some.injEq]
      have hnone : ∀ other ∈ records, ¬(table = other.table ∧ key = other.key) := by
        rintro other hother ⟨rfl, rfl⟩
        exact hnodup.1 (List.mem_map.mpr ⟨other, hother, by rw [hsame.1, hsame.2]⟩)
      obtain ⟨rfl, rfl⟩ := hsame
      constructor
      · rintro (hrest | ⟨-, rfl⟩)
        · exact .inl (.inr hrest)
        · exact .inl (.inl rfl)
      · rintro ((heq | hrest) | ⟨⟨hnot, -⟩, -⟩)
        · exact .inr ⟨hnone, by rw [← heq]⟩
        · exact .inl hrest
        · exact absurd ⟨rfl, rfl⟩ hnot
    · rw [if_neg hsame]
      have hne : (⟨table, key, value⟩ : LegacyRecord) ≠ record := by
        rintro rfl
        exact hsame ⟨rfl, rfl⟩
      constructor
      · rintro (hrest | ⟨hnone, hfind⟩)
        · exact .inl (.inr hrest)
        · exact .inr ⟨⟨hsame, hnone⟩, hfind⟩
      · rintro ((heq | hrest) | ⟨⟨-, hnone⟩, hfind⟩)
        · exact absurd heq hne
        · exact .inl hrest
        · exact .inr ⟨hnone, hfind⟩

theorem find_emptyState (descriptor : KvUnitDescriptor) (table key : String) :
    (emptyState descriptor).find table key = none := by
  rw [UnitState.find, emptyState, lookup_map_tables descriptor.tables fun _ => []]
  split <;> rfl

/-- The state of a copy that ends holds the legacy records and nothing else. -/
theorem find_copied {tables : Json} (hend : (legacyRecords descriptor tables).2 = false)
    (table key : String) (value : Json) :
    ((emptyState descriptor).setRecords (legacyRecords descriptor tables).1).find table key =
      some value ↔ IsLegacyRecord descriptor tables table key value := by
  rw [find_setRecords (nodup_legacyRecords descriptor tables), find_emptyState,
    mem_legacyRecords_iff hend]
  simp

/-! ## Documents -/

/-- A document reads back as its record. -/
theorem parse_serializeRecord (descriptor : KvUnitDescriptor) (value : Json) :
    parseRecord (serializeRecord descriptor.version value) descriptor.acceptedStamps =
      some value := by
  have hstamp : isStamp descriptor.acceptedStamps (some (.nat descriptor.version)) = true := by
    simp [isStamp, KvUnitDescriptor.acceptedStamps]
  simp [parseRecord, serializeRecord, Json.parse_stringify, hstamp]

variable {root : List String} {tables : Json}

theorem mem_recordDocuments {document : RecordDocument} :
    document ∈ recordDocuments descriptor root records ↔ ∃ record ∈ records,
      document = ⟨recordPath (unitDir descriptor root) record.table record.key,
        serializeRecord descriptor.version record.value⟩ := by
  unfold recordDocuments
  rw [List.mem_map]
  constructor
  · rintro ⟨record, hrecord, rfl⟩
    exact ⟨record, hrecord, rfl⟩
  · rintro ⟨record, hrecord, rfl⟩
    exact ⟨record, hrecord, rfl⟩

theorem key_injective {key key' : String} (h : key ++ ".json" = key' ++ ".json") : key = key' := by
  have hkey := documentKey_append key
  rw [h, documentKey_append, Option.some.injEq] at hkey
  exact hkey.symm

theorem tail_injective {dir : List String} {table key table' key' : String}
    (h : dir ++ [table, key ++ ".json"] = dir ++ [table', key' ++ ".json"]) :
    table = table' ∧ key = key' := by
  have htail := List.append_cancel_left h
  simp only [List.cons.injEq, and_true] at htail
  exact ⟨htail.1, key_injective htail.2⟩

theorem nodup_paths (hnodup : (records.map fun record => (record.table, record.key)).Nodup)
    (hsafe : ∀ record ∈ records, isSafeKey record.key = true) :
    ((recordDocuments descriptor root records).map RecordDocument.path).Nodup := by
  induction records with
  | nil => exact List.nodup_nil
  | cons record records ih =>
    rw [List.map_cons, List.nodup_cons] at hnodup
    rw [List.forall_mem_cons] at hsafe
    have hrest := ih hnodup.2 hsafe.2
    rw [show recordDocuments descriptor root (record :: records) =
      ⟨recordPath (unitDir descriptor root) record.table record.key,
        serializeRecord descriptor.version record.value⟩ ::
        recordDocuments descriptor root records from rfl, List.map_cons, List.nodup_cons]
    refine ⟨?_, hrest⟩
    intro hmem
    obtain ⟨document, hdocument, hpath⟩ := List.mem_map.mp hmem
    obtain ⟨other, hother, rfl⟩ := mem_recordDocuments.mp hdocument
    dsimp only at hpath
    rw [recordPath_of_safe (hsafe.2 other hother), recordPath_of_safe hsafe.1] at hpath
    obtain ⟨htable, hkey⟩ := tail_injective hpath
    exact hnodup.1 (List.mem_map.mpr ⟨other, hother, by rw [htable, hkey]⟩)

end PerRecord

end TianmaCoder
