import TianmaCoder.Storage.BootstrapRecords

/-!
# Loads after a bootstrap

A load of a tree without documents copies the whole legacy file again; one of a tree with a document
path reads only that tree. Neither changes the legacy file, so what a later load gives follows from
what the loads before it have written.

## Main definitions

* `PerRecord.FirstOpen` — a legacy file beside a tree without documents.
* `PerRecord.Stage` — a disk that the loads before a load may leave.

## Main results

* `PerRecord.Stage.bootstrap` — a load of a tree without documents.
* `PerRecord.find_tree` — what is read when all documents are written.
-/

namespace TianmaCoder

namespace PerRecord

variable {descriptor : KvUnitDescriptor} {root : List String} {tables : Json}
  {uuids : ℕ → ℕ → String} {disk disk' : Disk FileText} {done : List RecordDocument}
  {drawn drawn' : String → Prop} {q : List String}

/-- The documents of a bootstrap. -/
abbrev documentsOf (descriptor : KvUnitDescriptor) (root : List String) (tables : Json) :
    List RecordDocument :=
  recordDocuments descriptor root (legacyRecords descriptor tables).1

/-- A legacy file with these tables beside a tree without documents; the identities that a load draws
are in use nowhere, and no two draws give the same. -/
structure FirstOpen (descriptor : KvUnitDescriptor) (root : List String) (tables : Json)
    (uuids : ℕ → ℕ → String) (disk : Disk FileText) : Prop where
  empty : TreeEmpty descriptor disk (unitDir descriptor root)
  legacy : legacyTables descriptor disk root = .ok (some tables)
  distinct : ∀ i n i' n', uuids i n = uuids i' n' → i = i' ∧ n = n'
  unused : ∀ i n, Unused disk (tempName (uuids i n))
  outside : ∀ i n, ∀ document ∈ documentsOf descriptor root tables,
    tempName (uuids i n) ∉ document.path
  valid : ∀ i n, isPath [tempName (uuids i n)] = true

/-- The names of the temporary files of the loads before one. -/
def drawnBefore (uuids : ℕ → ℕ → String) (i : ℕ) (name : String) : Prop :=
  ∃ j < i, ∃ n, name = tempName (uuids j n)

/-! ## Names -/

theorem tempName_injective {a b : String} (h : tempName a = tempName b) : a = b := by
  unfold tempName at h
  rw [← String.toList_inj] at h ⊢
  simpa [String.toList_append] using h

theorem getLast?_tempName (uuid : String) : (tempName uuid).toList.getLast? = some 'p' := by
  have hlast : ".tmp".toList = ['.', 't', 'm'] ++ ['p'] := rfl
  rw [tempName, String.toList_append, hlast, ← List.append_assoc, List.getLast?_concat]

theorem document_ne_tempName {name : String} (h : (documentKey name).isSome = true)
    (uuid : String) : name ≠ tempName uuid := by
  rintro rfl
  obtain ⟨key, hkey⟩ := documentKey_isSome_iff.mp h
  have hlast := getLast?_tempName uuid
  have hjson : ".json".toList = ['.', 'j', 's', 'o'] ++ ['n'] := rfl
  rw [hkey, String.toList_append, hjson, ← List.append_assoc, List.getLast?_concat] at hlast
  revert hlast
  decide

theorem unit_ne_tempName {name : String} (h : isUnitName name = true) (uuid : String) :
    name ≠ tempName uuid := by
  rintro rfl
  have hdot : (tempName uuid).toList = '.' :: (uuid.toList ++ ".tmp".toList) := by
    rw [tempName, String.toList_append, String.toList_append]
    rfl
  have hfirst : isLowerLetter '.' = false := by decide
  simp only [isUnitName, hdot, hfirst, Bool.false_and] at h
  cases h

theorem not_unitName_json (cs : List Char) :
    isUnitName (String.ofList (cs ++ ".json".toList)) = false := by
  have hdot : (isLowerLetter '.' || isDigit '.' || '.' == '_') = false := by decide
  unfold isUnitName
  rw [String.toList_ofList]
  cases cs with
  | nil => rfl
  | cons c cs =>
    have hall : (cs ++ ".json".toList).all
        (fun c => isLowerLetter c || isDigit c || c == '_') = false := by
      rw [List.all_append, toList_json, List.all_cons, hdot, Bool.false_and, Bool.and_false]
    simp only [List.cons_append, hall, Bool.and_false]

/-- The names on these paths are those of no temporary file. -/
def Undrawn (uuids : ℕ → ℕ → String) (path : List String) : Prop :=
  ∀ name ∈ path, ∀ i n, name ≠ tempName (uuids i n)

theorem Undrawn.before {path : List String} (h : Undrawn uuids path) (i : ℕ) :
    ∀ name ∈ path, ¬drawnBefore uuids i name := by
  rintro name hname ⟨j, -, n, rfl⟩
  exact h _ hname j n rfl

variable (h : FirstOpen descriptor root tables uuids disk)

include h

theorem FirstOpen.undrawn_legacy : Undrawn uuids (legacyPath descriptor root) := by
  rintro name hname i n rfl
  have hnone := h.unused i n _ hname
  have hlegacy := h.legacy
  simp only [legacyTables, hnone, Except.ok.injEq, reduceCtorEq] at hlegacy

theorem FirstOpen.undrawn_unitDir : Undrawn uuids (unitDir descriptor root) := by
  intro name hname i n
  rcases List.mem_append.mp hname with hroot | hunit
  · exact h.undrawn_legacy name (List.mem_append_left _ hroot) i n
  · rw [List.mem_singleton.mp hunit]
    exact unit_ne_tempName descriptor.named _

variable {document : RecordDocument}

theorem FirstOpen.undrawn_document (hdocument : document ∈ documentsOf descriptor root tables) :
    Undrawn uuids document.path := by
  rintro name hname i n rfl
  exact h.outside i n document hdocument hname

theorem FirstOpen.undrawn_before (i : ℕ) : ∀ d ∈ documentsOf descriptor root tables,
    ∀ name ∈ d.path, ¬drawnBefore uuids i name :=
  fun _ hd => (h.undrawn_document hd).before i

theorem FirstOpen.undrawn_documentPath (hq : IsDocumentPath descriptor (unitDir descriptor root) q) :
    Undrawn uuids q := by
  intro name hname i n
  cases hq with
  | record table file htable hfile =>
    rcases List.mem_append.mp hname with hunit | hrest
    · exact h.undrawn_unitDir name hunit i n
    · rcases List.mem_cons.mp hrest with rfl | hrest
      · exact unit_ne_tempName (descriptor.tablesNamed _ htable) _
      · rw [List.mem_singleton.mp hrest]
        exact document_ne_tempName hfile _
  | global hhas =>
    rcases List.mem_append.mp hname with hunit | hrest
    · exact h.undrawn_unitDir name hunit i n
    · rw [List.mem_singleton.mp hrest]
      exact document_ne_tempName (documentKey_isSome_iff.mpr ⟨"global", rfl⟩) _

omit h

/-! ## What the operations leave alone -/

theorem Grown.mono {documents : List RecordDocument} (hgrown : Grown done documents drawn disk disk')
    (hdrawn : ∀ name, drawn name → drawn' name) : Grown done documents drawn' disk disk' where
  read q hq := hgrown.read q fun name hname hold => hq name hname (hdrawn name hold)
  unused name hname := hgrown.unused name fun hold => hname (hdrawn name hold)
  written := hgrown.written
  above := hgrown.above
  exact := hgrown.exact

/-- The bootstrap writes in the directory of the unit. -/
def Inside (descriptor : KvUnitDescriptor) (root : List String) (tables : Json) : Prop :=
  ∀ document ∈ documentsOf descriptor root tables, unitDir descriptor root <+: document.path

theorem documentsOf_ne_nil (document : RecordDocument)
    (hdocument : document ∈ documentsOf descriptor root tables) : document.path ≠ [] := by
  obtain ⟨record, -, rfl⟩ := mem_recordDocuments.mp hdocument
  exact recordPath_ne_nil _ _ _

/-- What is above a path, or it. -/
theorem prefix_path {path : List String} (hpath : path ≠ []) (h : q <+: path) :
    q = path ∨ q <+: path.dropLast := by
  rw [← List.dropLast_append_getLast hpath, List.prefix_concat_iff] at h
  rw [List.dropLast_append_getLast] at h
  exact h

theorem document_ne_above (hdocument : document ∈ documentsOf descriptor root tables)
    (hinside : unitDir descriptor root <+: document.path) (hq : q <+: unitDir descriptor root) :
    document.path ≠ q := by
  rintro rfl
  obtain ⟨record, -, rfl⟩ := mem_recordDocuments.mp hdocument
  have heq := hinside.eq_of_length (Nat.le_antisymm hinside.length_le hq.length_le)
  obtain ⟨above, last, hpath⟩ :=
    recordPath_eq_append (unitDir descriptor root) record.table record.key
  dsimp only at heq
  rw [hpath] at heq
  have hname : descriptor.name = String.ofList (last ++ ".json".toList) := by
    have hlast := congrArg List.getLast? heq
    rw [unitDir, List.getLast?_concat, List.getLast?_concat] at hlast
    exact Option.some.inj hlast
  have hnamed := descriptor.named
  rw [hname] at hnamed
  rw [not_unitName_json] at hnamed
  cases hnamed

theorem length_documentOperations (ids : ℕ → String) (k : ℕ) (documents : List RecordDocument) :
    (documentOperations ids k documents).length = 4 * documents.length := by
  induction documents generalizing k with
  | nil => rfl
  | cons document documents ih =>
    rw [documentOperations, List.length_append, ih, List.length_cons]
    simp only [recordOperations, List.length_cons, List.length_nil]
    omega

/-! ## Stages -/

/-- A disk that the loads before one may leave: the first documents are written. -/
structure Stage (descriptor : KvUnitDescriptor) (root : List String) (tables : Json)
    (uuids : ℕ → ℕ → String) (disk : Disk FileText) (i : ℕ) (done : List RecordDocument)
    (disk' : Disk FileText) : Prop where
  subset : done ⊆ documentsOf descriptor root tables
  grown : Grown done (documentsOf descriptor root tables) (drawnBefore uuids i) disk disk'

section Stages

variable {i : ℕ} (hfirst : FirstOpen descriptor root tables uuids disk)
  (hstage : Stage descriptor root tables uuids disk i done disk')

include hfirst hstage

theorem Stage.fresh :
    FreshTemps disk' (documentsOf descriptor root tables) fun n => tempName (uuids i n) where
  unused n := by
    refine hstage.grown.unused _ ?_ (hfirst.unused i n) (hfirst.outside i n)
    rintro ⟨j, hj, m, heq⟩
    have hsame := (hfirst.distinct i n j m (tempName_injective heq)).1
    omega
  outside := hfirst.outside i
  valid := hfirst.valid i

/-- The legacy file is retained unchanged. -/
theorem Stage.legacy (hinside : Inside descriptor root tables) :
    legacyTables descriptor disk' root = .ok (some tables) := by
  have hsame : disk'.read (legacyPath descriptor root) = disk.read (legacyPath descriptor root) := by
    rcases hstage.grown.read _ (hfirst.undrawn_legacy.before i) with
      hsame | ⟨document, hdocument, hpath, -⟩ | ⟨hnone, -⟩
    · exact hsame
    · have hpre := hinside document (hstage.subset hdocument)
      rw [hpath, unitDir, legacyPath, List.prefix_append_right_inj] at hpre
      have hname := hpre.eq_of_length rfl
      simp only [List.cons.injEq, and_true] at hname
      have hnamed := descriptor.named
      have hjson : descriptor.name ++ ".json" =
          String.ofList (descriptor.name.toList ++ ".json".toList) := by
        rw [String.ofList_append, String.ofList_toList, String.ofList_toList]
      rw [hname, hjson, not_unitName_json] at hnamed
      cases hnamed
    · have hlegacy := hfirst.legacy
      simp only [legacyTables, hnone, Except.ok.injEq, reduceCtorEq] at hlegacy
  have hlegacy := hfirst.legacy
  unfold legacyTables at hlegacy ⊢
  rw [hsame]
  exact hlegacy

/-- The tree has no documents yet when none is written at a path that suppresses a bootstrap. -/
theorem Stage.empty (hinside : Inside descriptor root tables)
    (hdone : ∀ d ∈ done, ¬IsDocumentPath descriptor (unitDir descriptor root) d.path)
    (hmade : ∀ d ∈ documentsOf descriptor root tables, ∀ q, q <+: d.path.dropLast →
      ¬IsDocumentPath descriptor (unitDir descriptor root) q) :
    TreeEmpty descriptor disk' (unitDir descriptor root) where
  readable q hq := by
    have hundrawn : ∀ name ∈ q, ¬drawnBefore uuids i name :=
      fun name hname => hfirst.undrawn_unitDir.before i name (hq.subset hname)
    have hold := hfirst.empty.readable q hq
    rcases hstage.grown.read q hundrawn with hsame | ⟨d, hd, hpath, -⟩ | ⟨-, hdirectory, -⟩
    · unfold Disk.isFile at hold ⊢
      rw [hsame]
      exact hold
    · exact absurd hpath (document_ne_above (hstage.subset hd) (hinside d (hstage.subset hd)) hq)
    · unfold Disk.isFile
      rw [hdirectory]
  documents q hq := by
    rcases hstage.grown.read q ((hfirst.undrawn_documentPath hq).before i) with
      hsame | ⟨d, hd, rfl, -⟩ | ⟨-, -, d, hd, hpre⟩
    · rw [hsame]
      exact hfirst.empty.documents q hq
    · exact absurd hq (hdone d hd)
    · exact absurd hq (hmade d hd q hpre)

theorem Stage.run
    (hclear : Unobstructed disk ((documentsOf descriptor root tables).map RecordDocument.path)) :
    ∃ disk'', execAll disk' (bootstrapOperations descriptor root (uuids i) tables) =
        (disk'', true) ∧
      Stage descriptor root tables uuids disk (i + 1) (documentsOf descriptor root tables) disk'' := by
  have hout := hfirst.undrawn_before (i + 1)
  have hclear' := hstage.grown.unobstructed hclear hstage.subset (hfirst.undrawn_before i)
  obtain ⟨disk'', hexec, hgrown⟩ := grown_take documentsOf_ne_nil hclear' (hstage.fresh hfirst)
    (fun n => (⟨i, Nat.lt_succ_self i, n, rfl⟩ : drawnBefore uuids (i + 1) _)) hout 0
    (bootstrapOperations descriptor root (uuids i) tables).length
  have hall : (bootstrapOperations descriptor root (uuids i) tables).length / 4 =
      (documentsOf descriptor root tables).length := by
    rw [bootstrapOperations, length_documentOperations]
    exact Nat.mul_div_cancel_left _ (by omega)
  rw [hall, List.take_length] at hgrown
  refine ⟨disk'', by rw [← hexec]; exact congrArg _ (List.take_length).symm, fun _ h => h, ?_⟩
  refine (hstage.grown.mono ?_).trans hstage.subset hgrown
  rintro name ⟨j, hj, n, rfl⟩
  exact ⟨j, by omega, n, rfl⟩

omit hfirst in
/-- A document that is written under a path that suppresses a bootstrap. -/
theorem Stage.marked (hdocument : document ∈ done)
    (hq : IsDocumentPath descriptor (unitDir descriptor root) q) (hpre : q <+: document.path) :
    disk'.isDirectory (unitDir descriptor root) = true ∧
      (disk'.names (unitDir descriptor root)).any
        (isDocumentEntry descriptor disk' (unitDir descriptor root)) = true := by
  have hwhere := prefix_path (documentsOf_ne_nil document (hstage.subset hdocument)) hpre
  have habove : ∀ p, p <+: q.dropLast → disk'.isDirectory p = true := by
    intro p hp
    refine hstage.grown.above document hdocument p (hp.trans ?_)
    rcases hwhere with rfl | hpre
    · exact List.prefix_refl _
    · exact (List.dropLast_prefix q).trans hpre
  have hunit : unitDir descriptor root <+: q.dropLast := by
    cases hq with
    | record table name =>
      rw [List.dropLast_append_cons]
      exact List.prefix_append _ _
    | global =>
      rw [List.dropLast_concat]
  refine ⟨habove _ hunit, any_isDocumentEntry hq ?_ fun p _ hp => habove p hp⟩
  rcases hwhere with rfl | hpre
  · obtain ⟨text, hread⟩ := Disk.isFile_iff.mp (hstage.grown.written document hdocument)
    rw [hread]
    rfl
  · rw [Disk.isDirectory_iff.mp (hstage.grown.above document hdocument q hpre)]
    rfl

end Stages

/-! ## What is read -/

/-- A load that gives the records of the legacy file, and no others. -/
def GivesLegacy (descriptor : KvUnitDescriptor) (tables : Json) (load : Load) : Prop :=
  ∃ state, load.result = .ok state ∧ ∀ table key value,
    state.find table key = some value ↔ IsLegacyRecord descriptor tables table key value

variable {ids : ℕ → String}

/-- A load that bootstraps gives a state exactly when the copy ends. -/
theorem bootstrap_ok_iff {state state' : UnitState}
    (hlegacy : legacyTables descriptor disk root = .ok (some tables)) :
    (bootstrapLegacyUnit descriptor root ids disk state).result = .ok state' ↔
      (execAll disk (bootstrapOperations descriptor root ids tables)).2 = true ∧
        (legacyRecords descriptor tables).2 = false ∧
        state' = state.setRecords (legacyRecords descriptor tables).1 := by
  simp only [bootstrapLegacyUnit, hlegacy]
  split
  · next done hexec =>
      rw [hexec]
      split
      · next hnull => simp [hnull]
      · next hnull => simpa [hnull] using eq_comm
  · next done hexec =>
      rw [hexec]
      simp

theorem bootstrap_disk {state : UnitState}
    (hlegacy : legacyTables descriptor disk root = .ok (some tables))
    (hexec : execAll disk (bootstrapOperations descriptor root ids tables) = (disk', true)) :
    (bootstrapLegacyUnit descriptor root ids disk state).disk = disk' := by
  simp only [bootstrapLegacyUnit, hlegacy, hexec]
  split <;> rfl

theorem loadAll_empty (hempty : TreeEmpty descriptor disk (unitDir descriptor root)) :
    loadAll descriptor root ids disk =
      bootstrapLegacyUnit descriptor root ids disk (emptyState descriptor) := by
  rw [loadAll, load_empty hempty]

theorem Stage.copies {i : ℕ} (hfirst : FirstOpen descriptor root tables uuids disk)
    (hstage : Stage descriptor root tables uuids disk i done disk')
    (hclear : Unobstructed disk ((documentsOf descriptor root tables).map RecordDocument.path))
    (hinside : Inside descriptor root tables) (hend : (legacyRecords descriptor tables).2 = false)
    (hempty : TreeEmpty descriptor disk' (unitDir descriptor root)) :
    GivesLegacy descriptor tables (loadAll descriptor root (uuids i) disk') ∧
      Stage descriptor root tables uuids disk (i + 1) (documentsOf descriptor root tables)
        (loadAll descriptor root (uuids i) disk').disk := by
  have hlegacy := hstage.legacy hfirst hinside
  obtain ⟨disk'', hexec, hnext⟩ := hstage.run hfirst hclear
  rw [loadAll_empty hempty]
  refine ⟨⟨_, (bootstrap_ok_iff hlegacy).mpr ⟨by rw [hexec], hend, rfl⟩, find_copied hend⟩, ?_⟩
  rw [bootstrap_disk hlegacy hexec]
  exact hnext

variable (ids) in
theorem loadAll_marked (hdirectory : disk.isDirectory (unitDir descriptor root) = true)
    (hmarked : (disk.names (unitDir descriptor root)).any
      (isDocumentEntry descriptor disk (unitDir descriptor root)) = true) :
    ∃ state, loadAll descriptor root ids disk = ⟨disk, .ok state⟩ ∧ ∀ table key,
      state.find table key =
        if table ∈ descriptor.tables ∧
            disk.isDirectory (unitDir descriptor root ++ [table]) = true ∧
            isSafeKey key = true then
          readRecord disk (unitDir descriptor root ++ [table, key ++ ".json"])
            descriptor.acceptedStamps
        else none := by
  obtain ⟨state, hload, hfind⟩ := load_tree descriptor hdirectory
  refine ⟨state, ?_, hfind⟩
  rw [loadAll, hload, hmarked]

theorem readRecord_eq_some {versions : List ℕ} {value : Json}
    (hread : readRecord disk q versions = some value) :
    ∃ text, disk.read q = some (.file text) ∧ parseRecord text versions = some value := by
  unfold readRecord at hread
  split at hread
  · next text hfile => exact ⟨text, hfile, hread⟩
  · cases hread

theorem Stage.readRecord_eq_some {i : ℕ} (hfirst : FirstOpen descriptor root tables uuids disk)
    (hstage : Stage descriptor root tables uuids disk i done disk')
    (hsafe : ∀ record ∈ (legacyRecords descriptor tables).1, isSafeKey record.key = true)
    {table key : String} {value : Json} (htable : table ∈ descriptor.tables)
    (hread : readRecord disk' (unitDir descriptor root ++ [table, key ++ ".json"])
      descriptor.acceptedStamps = some value) :
    ⟨table, key, value⟩ ∈ (legacyRecords descriptor tables).1 ∧
      ∃ document ∈ done, document.path = unitDir descriptor root ++ [table, key ++ ".json"] := by
  have hq : IsDocumentPath descriptor (unitDir descriptor root)
      (unitDir descriptor root ++ [table, key ++ ".json"]) :=
    .record table _ htable (documentKey_isSome_iff.mpr ⟨key, rfl⟩)
  obtain ⟨text, hfile, hparse⟩ := PerRecord.readRecord_eq_some hread
  rcases hstage.grown.read _ ((hfirst.undrawn_documentPath hq).before i) with
    hsame | ⟨document, hdocument, hpath, htext⟩ | ⟨-, hdirectory, -⟩
  · rw [hsame, hfirst.empty.documents _ hq] at hfile
    cases hfile
  · refine ⟨?_, document, hdocument, hpath⟩
    rw [htext] at hfile
    cases hfile
    obtain ⟨record, hrecord, rfl⟩ := mem_recordDocuments.mp (hstage.subset hdocument)
    dsimp only at hpath hparse
    rw [recordPath_of_safe (hsafe record hrecord)] at hpath
    obtain ⟨rfl, rfl⟩ := tail_injective hpath
    rw [parse_serializeRecord, Option.some.injEq] at hparse
    rw [← hparse]
    exact hrecord
  · rw [hdirectory] at hfile
    cases hfile

theorem Stage.find_tree {i : ℕ} (hfirst : FirstOpen descriptor root tables uuids disk)
    (hstage : Stage descriptor root tables uuids disk i (documentsOf descriptor root tables) disk')
    (hsafe : ∀ record ∈ (legacyRecords descriptor tables).1, isSafeKey record.key = true)
    (hend : (legacyRecords descriptor tables).2 = false) (table key : String) (value : Json) :
    (if table ∈ descriptor.tables ∧
        disk'.isDirectory (unitDir descriptor root ++ [table]) = true ∧
        isSafeKey key = true then
      readRecord disk' (unitDir descriptor root ++ [table, key ++ ".json"])
        descriptor.acceptedStamps
    else none) = some value ↔ IsLegacyRecord descriptor tables table key value := by
  rw [← mem_legacyRecords_iff hend]
  constructor
  · intro hfind
    split at hfind
    · next hread => exact (hstage.readRecord_eq_some hfirst hsafe hread.1 hfind).1
    · cases hfind
  · intro hrecord
    have hpath := recordPath_of_safe (hsafe _ hrecord) (unitDir descriptor root) table
    have hdocument : ⟨unitDir descriptor root ++ [table, key ++ ".json"],
        serializeRecord descriptor.version value⟩ ∈ documentsOf descriptor root tables :=
      mem_recordDocuments.mpr ⟨_, hrecord, by rw [← hpath]⟩
    have hfile := hstage.grown.exact
      (nodup_paths (nodup_legacyRecords descriptor tables) hsafe) _ hdocument
    have hdirectory : disk'.isDirectory (unitDir descriptor root ++ [table]) = true := by
      refine hstage.grown.above _ hdocument _ ?_
      rw [List.dropLast_append_cons]
      exact List.prefix_refl _
    have htable := ((mem_legacyRecords_iff hend _ _ _).mp hrecord).1
    rw [if_pos ⟨htable, hdirectory, hsafe _ hrecord⟩]
    simp only [readRecord, hfile, parse_serializeRecord]

end PerRecord

end TianmaCoder
