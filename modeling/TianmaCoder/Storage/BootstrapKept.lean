import Mathlib.Data.Nat.Pairing
import TianmaCoder.Storage.BootstrapLoads

/-!
# What a bootstrap keeps

A legacy file survives its bootstrap, also one that stops on the way, exactly when the copy reaches
its end in the directory of the unit and either writes no document path at all, so that every load
copies again, or has only path-safe keys and stops before its first document or after its last. A key
that the tree refuses is lost with the second load, and the records after the first stop are lost with
the next.

## Main definitions

* `PerRecord.BootstrapKeeps` — every load gives the legacy records.
* `PerRecord.BootstrapSafe` — the legacy files, and the interruptions, of which this holds.

## Main results

* `PerRecord.bootstrapKeeps_iff` — the two agree.
-/

namespace TianmaCoder

namespace PerRecord

/-- The paths that an operation writes. -/
def FileOperation.paths : FileOperation → List (List String)
  | .makeDirectory path => [path]
  | .openTemp path => [path]
  | .writeTemp path _ => [path]
  | .publish temp path => [temp, path]

/-- The disk after the first load, which may be interrupted. -/
def firstDisk (descriptor : KvUnitDescriptor) (root : List String) (uuids : ℕ → ℕ → String)
    (disk : Disk FileText) : Option Interruption → Disk FileText
  | none => (loadAll descriptor root (uuids 0) disk).disk
  | some interruption => interruptedLoad descriptor root (uuids 0) disk interruption

/-- The disk that a later load finds. -/
def laterDisk (descriptor : KvUnitDescriptor) (root : List String) (uuids : ℕ → ℕ → String)
    (first : Disk FileText) : ℕ → Disk FileText
  | 0 => first
  | n + 1 => (loadAll descriptor root (uuids (n + 1)) (laterDisk descriptor root uuids first n)).disk

/-- The first load and every later one give the legacy records, also when the first is interrupted,
and every file is written in the directory of the unit. -/
structure BootstrapKeeps (descriptor : KvUnitDescriptor) (root : List String) (tables : Json)
    (uuids : ℕ → ℕ → String) (disk : Disk FileText) (interruption : Option Interruption) : Prop where
  first : GivesLegacy descriptor tables (loadAll descriptor root (uuids 0) disk)
  later : ∀ n, GivesLegacy descriptor tables (loadAll descriptor root (uuids (n + 1))
    (laterDisk descriptor root uuids (firstDisk descriptor root uuids disk interruption) n))
  inside : ∀ i, ∀ operation ∈ bootstrapOperations descriptor root (uuids i) tables,
    ∀ path ∈ operation.paths, unitDir descriptor root <+: path

/-- No document is written that suppresses a bootstrap. -/
def Unmarked (descriptor : KvUnitDescriptor) (root : List String) (tables : Json) : Prop :=
  ∀ document ∈ documentsOf descriptor root tables, ∀ q, q <+: document.path →
    ¬IsDocumentPath descriptor (unitDir descriptor root) q

/-- The legacy files of which nothing is lost, with the interruptions. -/
structure BootstrapSafe (descriptor : KvUnitDescriptor) (root : List String) (tables : Json)
    (disk : Disk FileText) (interruption : Option Interruption) : Prop where
  nonNull : ∀ table ∈ descriptor.tables, (table, Json.null) ∉ tableEntries tables
  clear : Unobstructed disk ((documentsOf descriptor root tables).map RecordDocument.path)
  inside : Inside descriptor root tables
  kept : Unmarked descriptor root tables ∨
    (∀ record ∈ (legacyRecords descriptor tables).1, isSafeKey record.key = true) ∧
      ∀ stop, interruption = some stop → stop.operations / 4 = 0 ∨
        (legacyRecords descriptor tables).1.length ≤ stop.operations / 4

variable {descriptor : KvUnitDescriptor} {root : List String} {tables : Json}
  {uuids : ℕ → ℕ → String} {disk disk' : Disk FileText} {interruption : Option Interruption}
  {done : List RecordDocument} {i : ℕ}

theorem nonNull_iff : (∀ table ∈ descriptor.tables, (table, Json.null) ∉ tableEntries tables) ↔
    (legacyRecords descriptor tables).2 = false := by
  rw [legacyRecords, declaredRecords_ends_iff]
  constructor
  · exact fun h table hmem hdeclared => h table hdeclared hmem
  · exact fun h table hdeclared hmem => h table hmem hdeclared

/-! ## A safe bootstrap -/

/-- A disk on which a load gives the legacy records. -/
def Kept (descriptor : KvUnitDescriptor) (root : List String) (tables : Json)
    (uuids : ℕ → ℕ → String) (disk : Disk FileText) (i : ℕ) (disk' : Disk FileText) : Prop :=
  ∃ done, Stage descriptor root tables uuids disk i done disk' ∧
    (TreeEmpty descriptor disk' (unitDir descriptor root) ∨
      done = documentsOf descriptor root tables ∧ documentsOf descriptor root tables ≠ [] ∧
        ∀ record ∈ (legacyRecords descriptor tables).1, isSafeKey record.key = true)

theorem Stage.refl (disk : Disk FileText) : Stage descriptor root tables uuids disk 0 [] disk :=
  ⟨List.nil_subset _, Grown.refl _ _ _⟩

theorem Stage.succ (h : Stage descriptor root tables uuids disk i done disk') :
    Stage descriptor root tables uuids disk (i + 1) done disk' where
  subset := h.subset
  grown := h.grown.mono fun _ ⟨j, hj, n, hname⟩ => ⟨j, by omega, n, hname⟩

variable {record : LegacyRecord}

/-- The document of a path-safe key suppresses a bootstrap. -/
theorem isDocumentPath_of_safe (hrecord : record ∈ (legacyRecords descriptor tables).1)
    (hsafe : isSafeKey record.key = true) :
    IsDocumentPath descriptor (unitDir descriptor root)
      (recordPath (unitDir descriptor root) record.table record.key) := by
  rw [recordPath_of_safe hsafe]
  exact .record _ _ (mem_declaredRecords hrecord).1 (documentKey_isSome_iff.mpr ⟨_, rfl⟩)

theorem directory_not_marked {q : List String}
    (hrecord : record ∈ (legacyRecords descriptor tables).1) (hsafe : isSafeKey record.key = true)
    (hq : q <+: (recordPath (unitDir descriptor root) record.table record.key).dropLast) :
    ¬IsDocumentPath descriptor (unitDir descriptor root) q := by
  have hlast : [record.table, record.key ++ ".json"].dropLast = [record.table] := rfl
  rw [recordPath_of_safe hsafe, List.dropLast_append_cons, hlast] at hq
  intro hmarks
  cases hmarks with
  | record table name =>
    have hlength := hq.length_le
    simp only [List.length_append, List.length_cons, List.length_nil] at hlength
    omega
  | global =>
    rw [List.prefix_append_right_inj] at hq
    have hname := hq.eq_of_length rfl
    have hnamed := descriptor.tablesNamed _ (mem_declaredRecords hrecord).1
    simp only [List.cons.injEq, and_true] at hname
    rw [← hname] at hnamed
    revert hnamed
    decide

section

variable (hfirst : FirstOpen descriptor root tables uuids disk)
include hfirst

/-- All documents are written, or none that suppresses a bootstrap. -/
theorem Stage.kept
    (hstage : Stage descriptor root tables uuids disk i done disk')
    (hinside : Inside descriptor root tables) (hkept : Unmarked descriptor root tables ∨
      (∀ record ∈ (legacyRecords descriptor tables).1, isSafeKey record.key = true) ∧
        (done = [] ∨ done = documentsOf descriptor root tables)) :
    Kept descriptor root tables uuids disk i disk' := by
  refine ⟨done, hstage, ?_⟩
  rcases hkept with hunmarked | ⟨hsafe, hdone⟩
  · refine .inl (hstage.empty hfirst hinside ?_ ?_)
    · exact fun d hd => hunmarked d (hstage.subset hd) d.path (List.prefix_refl _)
    · exact fun d hd q hq => hunmarked d hd q (hq.trans (List.dropLast_prefix _))
  · have hempty : done = [] → TreeEmpty descriptor disk' (unitDir descriptor root) := by
      rintro rfl
      refine hstage.empty hfirst hinside (List.forall_mem_nil _) fun d hd q hq => ?_
      obtain ⟨record, hrecord, rfl⟩ := mem_recordDocuments.mp hd
      exact directory_not_marked hrecord (hsafe record hrecord) hq
    rcases hdone with hnone | hall
    · exact .inl (hempty hnone)
    · by_cases hnone : documentsOf descriptor root tables = []
      · exact .inl (hempty (hall.trans hnone))
      · exact .inr ⟨hall, hnone, hsafe⟩

theorem Kept.load
    (hsafe : BootstrapSafe descriptor root tables disk interruption)
    (h : Kept descriptor root tables uuids disk i disk') :
    GivesLegacy descriptor tables (loadAll descriptor root (uuids i) disk') ∧
      Kept descriptor root tables uuids disk (i + 1)
        (loadAll descriptor root (uuids i) disk').disk := by
  have hend := nonNull_iff.mp hsafe.nonNull
  obtain ⟨done, hstage, hempty | ⟨rfl, hsome, hkeys⟩⟩ := h
  · obtain ⟨hgives, hnext⟩ := hstage.copies hfirst hsafe.clear hsafe.inside hend hempty
    refine ⟨hgives, hnext.kept hfirst hsafe.inside ?_⟩
    rcases hsafe.kept with hunmarked | ⟨hkeys, -⟩
    · exact .inl hunmarked
    · exact .inr ⟨hkeys, .inr rfl⟩
  · obtain ⟨document, hdocument⟩ := List.exists_mem_of_ne_nil _ hsome
    obtain ⟨record, hrecord, rfl⟩ := mem_recordDocuments.mp hdocument
    obtain ⟨hdirectory, hmarked⟩ := hstage.marked hdocument
      (isDocumentPath_of_safe hrecord (hkeys record hrecord)) (List.prefix_refl _)
    obtain ⟨state, hload, hfind⟩ := loadAll_marked (uuids i) hdirectory hmarked
    rw [hload]
    refine ⟨⟨state, rfl, fun table key value => ?_⟩, _, hstage.succ, .inr ⟨rfl, hsome, hkeys⟩⟩
    rw [hfind]
    exact hstage.find_tree hfirst hkeys hend table key value

theorem Stage.interrupted
    (hclear : Unobstructed disk ((documentsOf descriptor root tables).map RecordDocument.path))
    (stop : Interruption) :
    Stage descriptor root tables uuids disk 1
      ((documentsOf descriptor root tables).take (stop.operations / 4))
      (interruptedLoad descriptor root (uuids 0) disk stop) := by
  have hfresh := (Stage.refl disk).fresh hfirst
  have hout := hfirst.undrawn_before 1
  have hdrawn : ∀ n, drawnBefore uuids 1 (tempName (uuids 0 n)) :=
    fun n => ⟨0, by omega, n, rfl⟩
  have hsubset := List.take_subset (stop.operations / 4) (documentsOf descriptor root tables)
  obtain ⟨disk', hexec, hgrown⟩ := grown_take documentsOf_ne_nil hclear hfresh hdrawn hout 0
    stop.operations
  refine ⟨hsubset, ?_⟩
  simp only [interruptedLoad, load_empty hfirst.empty, hfirst.legacy, bootstrapOperations]
  rw [hexec]
  cases stop with
  | crash n => exact hgrown
  | failure n =>
    refine hgrown.removeTemps hsubset hout fun p hp => ?_
    obtain ⟨m, hm⟩ := mem_documentOperations (List.take_subset _ _ hp)
    exact ⟨_, hm, hdrawn m⟩

end

theorem BootstrapSafe.firstDisk (hfirst : FirstOpen descriptor root tables uuids disk)
    (hsafe : BootstrapSafe descriptor root tables disk interruption)
    (hkept : Kept descriptor root tables uuids disk 0 disk) :
    Kept descriptor root tables uuids disk 1
      (firstDisk descriptor root uuids disk interruption) := by
  cases interruption with
  | none => exact (hkept.load hfirst hsafe).2
  | some stop =>
    refine (Stage.interrupted hfirst hsafe.clear stop).kept hfirst hsafe.inside ?_
    rcases hsafe.kept with hunmarked | ⟨hkeys, hstop⟩
    · exact .inl hunmarked
    · refine .inr ⟨hkeys, ?_⟩
      rcases hstop stop rfl with hzero | hall
      · rw [hzero]
        exact .inl rfl
      · refine .inr (List.take_of_length_le ?_)
        rw [documentsOf, recordDocuments, List.length_map]
        exact hall

/-! ## What is lost -/

variable {ids : ℕ → String}

theorem publish_mem_documentOperations {documents : List RecordDocument} {document : RecordDocument}
    (h : document ∈ documents) (k : ℕ) :
    ∃ temp, .publish temp document.path ∈ documentOperations ids k documents := by
  induction documents generalizing k with
  | nil => cases h
  | cons first documents ih =>
    rw [documentOperations]
    rcases List.mem_cons.mp h with rfl | h
    · exact ⟨document.path.dropLast ++ [tempName (ids k)],
        List.mem_append_left _ (by simp [recordOperations])⟩
    · obtain ⟨temp, htemp⟩ := ih h (k + 1)
      exact ⟨temp, List.mem_append_right _ htemp⟩

/-- Every path that is written is that of a document, of its directory, or in this directory. -/
theorem paths_documentOperations {documents : List RecordDocument} {operation : FileOperation}
    {path : List String} {k : ℕ} (h : operation ∈ documentOperations ids k documents)
    (hpath : path ∈ operation.paths) :
    ∃ document ∈ documents, path = document.path ∨ document.path.dropLast <+: path := by
  induction documents generalizing k with
  | nil => cases h
  | cons first documents ih =>
    rw [documentOperations] at h
    rcases List.mem_append.mp h with h | h
    · refine ⟨first, List.mem_cons_self, ?_⟩
      simp only [recordOperations, List.mem_cons, List.not_mem_nil, or_false] at h
      rcases h with rfl | rfl | rfl | rfl
      · exact .inr (List.mem_singleton.mp hpath ▸ List.prefix_refl _)
      · exact .inr (List.mem_singleton.mp hpath ▸ List.prefix_append _ _)
      · exact .inr (List.mem_singleton.mp hpath ▸ List.prefix_append _ _)
      · rcases List.mem_cons.mp hpath with rfl | hpath
        · exact .inr (List.prefix_append _ _)
        · exact .inl (List.mem_singleton.mp hpath)
    · obtain ⟨document, hdocument, hwhere⟩ := ih h
      exact ⟨document, List.mem_cons_of_mem _ hdocument, hwhere⟩

/-- The files are written in the directory of the unit when the documents are. -/
theorem inside_iff : Inside descriptor root tables ↔
    ∀ i, ∀ operation ∈ bootstrapOperations descriptor root (uuids i) tables,
      ∀ path ∈ operation.paths, unitDir descriptor root <+: path := by
  constructor
  · intro h i operation hoperation path hpath
    obtain ⟨document, hdocument, hwhere⟩ := paths_documentOperations hoperation hpath
    have hinside := h document hdocument
    rcases hwhere with rfl | habove
    · exact hinside
    · rcases prefix_path (documentsOf_ne_nil document hdocument) hinside with heq | hpre
      · exact absurd heq.symm (document_ne_above hdocument hinside (List.prefix_refl _))
      · exact hpre.trans habove
  · intro h document hdocument
    obtain ⟨temp, htemp⟩ := publish_mem_documentOperations hdocument 0
    exact h 0 _ htemp document.path (List.mem_cons_of_mem _ (List.mem_singleton.mpr rfl))

theorem GivesLegacy.clear (hfirst : FirstOpen descriptor root tables uuids disk)
    (h : GivesLegacy descriptor tables (loadAll descriptor root (uuids 0) disk)) :
    Unobstructed disk ((documentsOf descriptor root tables).map RecordDocument.path) ∧
      (legacyRecords descriptor tables).2 = false := by
  obtain ⟨state, hresult, -⟩ := h
  rw [loadAll_empty hfirst.empty, bootstrap_ok_iff hfirst.legacy] at hresult
  exact ⟨unobstructed_of_execAll documentsOf_ne_nil ((Stage.refl disk).fresh hfirst) hresult.1,
    hresult.2.1⟩

/-- A tree with a document path does not give a record that it does not hold. -/
theorem not_givesLegacy (hdirectory : disk'.isDirectory (unitDir descriptor root) = true)
    (hmarked : (disk'.names (unitDir descriptor root)).any
      (isDocumentEntry descriptor disk' (unitDir descriptor root)) = true)
    (hend : (legacyRecords descriptor tables).2 = false)
    (hrecord : record ∈ (legacyRecords descriptor tables).1)
    (hlost : isSafeKey record.key = false ∨ readRecord disk'
      (unitDir descriptor root ++ [record.table, record.key ++ ".json"])
        descriptor.acceptedStamps = none) :
    ¬GivesLegacy descriptor tables (loadAll descriptor root ids disk') := by
  obtain ⟨state, hload, hfind⟩ := loadAll_marked ids hdirectory hmarked
  rintro ⟨state', hresult, hgives⟩
  rw [hload] at hresult
  cases hresult
  have hsome := (hgives record.table record.key record.value).mpr
    ((mem_legacyRecords_iff hend _ _ _).mp hrecord)
  rw [hfind] at hsome
  split at hsome
  · next hread =>
      rcases hlost with hkey | hnone
      · rw [hread.2.2] at hkey
        cases hkey
      · rw [hnone] at hsome
        cases hsome
  · cases hsome

theorem lost_of_unsafe (hfirst : FirstOpen descriptor root tables uuids disk)
    (hstage : Stage descriptor root tables uuids disk i done disk')
    (hclear : Unobstructed disk ((documentsOf descriptor root tables).map RecordDocument.path))
    (hinside : Inside descriptor root tables) (hend : (legacyRecords descriptor tables).2 = false)
    (hmarks : ¬Unmarked descriptor root tables)
    (hrecord : record ∈ (legacyRecords descriptor tables).1)
    (hescaped : isSafeKey record.key = false)
    (h : GivesLegacy descriptor tables (loadAll descriptor root (uuids i) disk')) :
    ¬GivesLegacy descriptor tables (loadAll descriptor root (uuids (i + 1))
      (loadAll descriptor root (uuids i) disk').disk) := by
  have hlost : ∀ {disk' : Disk FileText} {ids : ℕ → String},
      disk'.isDirectory (unitDir descriptor root) = true →
      (disk'.names (unitDir descriptor root)).any
        (isDocumentEntry descriptor disk' (unitDir descriptor root)) = true →
      ¬GivesLegacy descriptor tables (loadAll descriptor root ids disk') :=
    fun hdirectory hmarked => not_givesLegacy hdirectory hmarked hend hrecord (.inl hescaped)
  cases hload : loadPerRecordState descriptor disk' (unitDir descriptor root) with
  | error message =>
    obtain ⟨state, hresult, -⟩ := h
    rw [loadAll, hload] at hresult
    cases hresult
  | ok loaded =>
    obtain ⟨state, marked⟩ := loaded
    cases marked with
    | true =>
      by_cases hdirectory : disk'.isDirectory (unitDir descriptor root) = true
      · obtain ⟨state', hload', -⟩ := load_tree descriptor hdirectory
        rw [hload, Except.ok.injEq, Prod.mk.injEq] at hload'
        exact absurd h (hlost hdirectory hload'.2.symm)
      · unfold loadPerRecordState at hload
        rw [if_neg hdirectory] at hload
        split at hload
        · cases hload
        · cases hload
    | false =>
      -- the load bootstraps, and what it writes suppresses the next bootstrap
      obtain ⟨disk'', hexec, hnext⟩ := hstage.run hfirst hclear
      have hdisk : (loadAll descriptor root (uuids i) disk').disk = disk'' := by
        rw [loadAll, hload]
        exact bootstrap_disk (hstage.legacy hfirst hinside) hexec
      unfold Unmarked at hmarks
      push Not at hmarks
      obtain ⟨document, hdocument, q, hpre, hq⟩ := hmarks
      obtain ⟨hdirectory, hmarked⟩ := hnext.marked hdocument hq hpre
      rw [hdisk]
      exact hlost hdirectory hmarked

theorem lost_of_between (hfirst : FirstOpen descriptor root tables uuids disk) {k : ℕ}
    (hstage : Stage descriptor root tables uuids disk i
      ((documentsOf descriptor root tables).take k) disk')
    (hend : (legacyRecords descriptor tables).2 = false)
    (hsafe : ∀ record ∈ (legacyRecords descriptor tables).1, isSafeKey record.key = true)
    (hpos : 0 < k) (hlt : k < (legacyRecords descriptor tables).1.length) :
    ¬GivesLegacy descriptor tables (loadAll descriptor root (uuids i) disk') := by
  have hmem : ∀ n (hn : n < (legacyRecords descriptor tables).1.length),
      (legacyRecords descriptor tables).1[n] ∈ (legacyRecords descriptor tables).1 :=
    fun n hn => List.getElem_mem hn
  have hdocument : ∀ n (hn : n < (legacyRecords descriptor tables).1.length),
      (documentsOf descriptor root tables)[n]? =
        some ⟨recordPath (unitDir descriptor root) (legacyRecords descriptor tables).1[n].table
          (legacyRecords descriptor tables).1[n].key,
          serializeRecord descriptor.version (legacyRecords descriptor tables).1[n].value⟩ := by
    intro n hn
    rw [documentsOf, recordDocuments, List.getElem?_map, List.getElem?_eq_getElem hn]
    rfl
  have hwritten := List.mem_of_getElem?
    ((List.getElem?_take_of_lt hpos).trans (hdocument 0 (by omega)))
  have hlast := List.mem_of_getElem? (List.getElem?_drop.trans (hdocument (k + 0) hlt))
  obtain ⟨hdirectory, hmarked⟩ := hstage.marked hwritten
    (isDocumentPath_of_safe (hmem 0 (by omega)) (hsafe _ (hmem 0 (by omega))))
    (List.prefix_refl _)
  refine not_givesLegacy hdirectory hmarked hend (hmem k hlt) (.inr ?_)
  rw [← Option.not_isSome_iff_eq_none]
  intro hsome
  obtain ⟨value, hread⟩ := Option.isSome_iff_exists.mp hsome
  obtain ⟨-, document, hfound, hpath⟩ := hstage.readRecord_eq_some hfirst hsafe
    (mem_declaredRecords (hmem k hlt)).1 hread
  have hnodup : ((documentsOf descriptor root tables).map RecordDocument.path).Nodup :=
    nodup_paths (nodup_legacyRecords descriptor tables) hsafe
  rw [← List.take_append_drop k (documentsOf descriptor root tables), List.map_append,
    List.nodup_append] at hnodup
  refine hnodup.2.2 _ (List.mem_map_of_mem hfound) _ (List.mem_map_of_mem hlast) ?_
  rw [hpath]
  exact (recordPath_of_safe (hsafe _ (hmem k hlt)) _ _).symm

/-- All legacy records are kept exactly when the bootstrap is safe. -/
theorem bootstrapKeeps_iff (hfirst : FirstOpen descriptor root tables uuids disk)
    (interruption : Option Interruption) :
    BootstrapKeeps descriptor root tables uuids disk interruption ↔
      BootstrapSafe descriptor root tables disk interruption := by
  constructor
  · intro h
    obtain ⟨hclear, hend⟩ := h.first.clear hfirst
    have hinside := inside_iff.mpr h.inside
    refine ⟨nonNull_iff.mpr hend, hclear, hinside, ?_⟩
    by_cases hmarks : Unmarked descriptor root tables
    · exact .inl hmarks
    · have hstage : ∃ done, Stage descriptor root tables uuids disk 1 done
          (firstDisk descriptor root uuids disk interruption) := by
        cases interruption with
        | none =>
          exact ⟨_, ((Stage.refl disk).copies hfirst hclear hinside hend hfirst.empty).2⟩
        | some stop => exact ⟨_, Stage.interrupted hfirst hclear stop⟩
      obtain ⟨done, hstage⟩ := hstage
      have hsafe : ∀ record ∈ (legacyRecords descriptor tables).1,
          isSafeKey record.key = true := by
        intro record hrecord
        by_contra hescaped
        exact lost_of_unsafe hfirst hstage hclear hinside hend hmarks hrecord
          (by simpa using hescaped) (h.later 0) (h.later 1)
      refine .inr ⟨hsafe, ?_⟩
      rintro stop rfl
      by_contra hbetween
      push Not at hbetween
      exact lost_of_between hfirst (Stage.interrupted hfirst hclear stop) hend hsafe
        (by omega) (by omega) (h.later 0)
  · intro hsafe
    have hkept : Kept descriptor root tables uuids disk 0 disk :=
      ⟨[], Stage.refl disk, .inl hfirst.empty⟩
    have hlater : ∀ n, Kept descriptor root tables uuids disk (n + 1) (laterDisk descriptor root
        uuids (firstDisk descriptor root uuids disk interruption) n) := by
      intro n
      induction n with
      | zero => exact hsafe.firstDisk hfirst hkept
      | succ n ih => exact (ih.load hfirst hsafe).2
    exact {
      first := (hkept.load hfirst hsafe).1
      later := fun n => ((hlater n).load hfirst hsafe).1
      inside := inside_iff.mp hsafe.inside }

/-! ## One unit -/

/-- A unit with one table, in a store that has a legacy file of it. -/
def notesUnit : KvUnitDescriptor where
  name := "unit"
  version := 1
  tables := ["notes"]
  hasGlobal := false
  compatibleVersions := []
  named := by decide
  tablesNamed := by decide

def notesTables (keys : List String) : Json :=
  .obj [("notes", .obj (keys.map fun key => (key, .nat 7)))]

def notesDisk (keys : List String) : Disk FileText :=
  ⟨[(["store"], .directory), (["store", "unit.json"], .file (Json.stringify
    (.obj [("unit", .obj [("name", .str "unit"), ("version", .nat 1)]),
      ("tables", notesTables keys)])))]⟩

def notesIds (i n : ℕ) : String := String.ofList (List.replicate (Nat.pair i n) 'a')

theorem toList_notesTemp (i n : ℕ) :
    (tempName (notesIds i n)).toList = '.' :: (List.replicate (Nat.pair i n) 'a' ++ ".tmp".toList) := by
  simp [tempName, notesIds, String.toList_append]

theorem read_notesDisk {keys : List String} {q : List String} (hstore : q ≠ ["store"])
    (hfile : q ≠ ["store", "unit.json"]) : (notesDisk keys).read q = none := by
  simp [Disk.read, notesDisk, hstore.symm, hfile.symm]

theorem notes_firstOpen {keys : List String}
    (hlegacy : legacyTables notesUnit (notesDisk keys) ["store"] = .ok (some (notesTables keys)))
    (hpaths : ∀ document ∈ documentsOf notesUnit ["store"] (notesTables keys),
      ∀ name ∈ document.path, name.toList.head? ≠ some '.') :
    FirstOpen notesUnit ["store"] (notesTables keys) notesIds (notesDisk keys) where
  empty := by
    refine ⟨fun q hq => ?_, fun q hq => ?_⟩
    · have hread : (notesDisk keys).read ["store"] = some .directory := rfl
      by_cases hstore : q = ["store"]
      · rw [hstore, Disk.isFile, hread]
      · have hfile : q ≠ ["store", "unit.json"] := by
          rintro rfl
          revert hq
          decide
        rw [Disk.isFile, read_notesDisk hstore hfile]
    · cases hq with
      | record table name => exact read_notesDisk (by simp [unitDir]) (by simp [unitDir])
      | global hhas => cases hhas
  legacy := hlegacy
  distinct i n i' n' h := by
    have hlength := congrArg (fun name => name.toList.length) h
    simp only [notesIds, String.toList_ofList, List.length_replicate] at hlength
    exact Nat.pair_eq_pair.mp hlength
  unused i n q hname := by
    have hhead : (tempName (notesIds i n)).toList.head? = some '.' := by
      rw [toList_notesTemp]
      rfl
    refine read_notesDisk ?_ ?_
    · rintro rfl
      rw [List.mem_singleton.mp hname] at hhead
      revert hhead
      decide
    · rintro rfl
      rcases List.mem_cons.mp hname with heq | hname
      · rw [heq] at hhead
        revert hhead
        decide
      · rw [List.mem_singleton.mp hname] at hhead
        revert hhead
        decide
  outside i n document hdocument hname := by
    have hhead := hpaths document hdocument _ hname
    rw [toList_notesTemp] at hhead
    exact hhead rfl
  valid i n := by
    simp [isPath, toList_notesTemp]

theorem notes_safe :
    BootstrapSafe notesUnit ["store"] (notesTables ["a"]) (notesDisk ["a"]) none := by
  have hpath : (documentsOf notesUnit ["store"] (notesTables ["a"])).map RecordDocument.path =
      [["store", "unit", "notes", "a.json"]] := rfl
  refine ⟨by decide, ?_, ?_, .inr ⟨by decide, fun stop hstop => by cases hstop⟩⟩
  · rw [hpath]
    refine ⟨List.forall_mem_singleton.mpr ⟨by decide, fun q hq => ?_, rfl⟩, by decide⟩
    rw [← List.mem_inits] at hq
    revert q
    decide
  · intro document hdocument
    have hmem := List.mem_map_of_mem (f := RecordDocument.path) hdocument
    rw [hpath, List.mem_singleton] at hmem
    rw [hmem]
    decide

/-- A safe key is kept by every load. -/
theorem notes_kept : BootstrapKeeps notesUnit ["store"] (notesTables ["a"]) notesIds
    (notesDisk ["a"]) none :=
  (bootstrapKeeps_iff (notes_firstOpen rfl (by decide)) none).mpr notes_safe

/-- A key with a blank is given by the first load and by no later one; of two records the second is
lost when the first load stops after the first document. -/
theorem records_lost :
    (FirstOpen notesUnit ["store"] (notesTables ["a b"]) notesIds (notesDisk ["a b"]) ∧
      ¬BootstrapKeeps notesUnit ["store"] (notesTables ["a b"]) notesIds (notesDisk ["a b"])
        none) ∧
    FirstOpen notesUnit ["store"] (notesTables ["a", "b"]) notesIds (notesDisk ["a", "b"]) ∧
      ¬BootstrapKeeps notesUnit ["store"] (notesTables ["a", "b"]) notesIds
        (notesDisk ["a", "b"]) (some (.crash 4)) := by
  have hlost : ∀ {load : Load} {keys : List String} {key : String},
      (match load.result with
        | .ok state => (state.find "notes" key).isNone
        | .error _ => true) = true →
      IsLegacyRecord notesUnit (notesTables keys) "notes" key (.nat 7) →
      ¬GivesLegacy notesUnit (notesTables keys) load := by
    rintro load keys key hnone hrecord ⟨state, hresult, hgives⟩
    have hsome := (hgives "notes" key (.nat 7)).mpr hrecord
    simp only [hresult, hsome, Option.isNone_some, Bool.false_eq_true] at hnone
  have hrecord : ∀ {keys : List String} {key : String},
      objectEntries (.obj (keys.map fun key => (key, .nat 7))) =
        .ok (keys.map fun key => (key, .nat 7)) → key ∈ keys →
      IsLegacyRecord notesUnit (notesTables keys) "notes" key (.nat 7) := by
    intro keys key hentries hkey
    exact ⟨by decide, _, _, List.mem_singleton.mpr rfl, hentries, List.mem_map_of_mem hkey⟩
  refine ⟨⟨notes_firstOpen rfl (by decide), fun h => ?_⟩, notes_firstOpen rfl (by decide),
    fun h => ?_⟩
  · have hkey : "a b" ∈ ["a b"] := by decide
    exact hlost (by decide +kernel) (hrecord rfl hkey) (h.later 0)
  · have hkey : "b" ∈ ["a", "b"] := by decide
    exact hlost (by decide +kernel) (hrecord rfl hkey) (h.later 0)

end PerRecord

end TianmaCoder
