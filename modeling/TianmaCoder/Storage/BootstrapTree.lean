import TianmaCoder.Storage.BootstrapRun

/-!
# The tree of a per-record unit

What a load reads from a tree: nothing from one without documents, and otherwise the readable records
under path-safe keys of the declared tables, whatever the legacy file holds.

## Main definitions

* `PerRecord.IsDocumentPath` — the paths that suppress a bootstrap.
* `PerRecord.TreeEmpty` — a tree without documents.

## Main results

* `PerRecord.load_empty`, `PerRecord.load_tree` — what is read.
* `PerRecord.recordPath_of_safe` — where the document of a path-safe key is.
-/

namespace TianmaCoder

namespace PerRecord

/-! ## Paths of documents -/

theorem splitSlash_of_not_mem {cs : List Char} (h : '/' ∉ cs) : splitSlash cs = [cs] := by
  induction cs with
  | nil => rfl
  | cons c cs ih =>
    rw [List.mem_cons, not_or] at h
    rw [splitSlash, if_neg (fun heq => h.1 heq.symm), ih h.2]

theorem splitSlash_append {suffix : List Char} (h : '/' ∉ suffix) (cs : List Char) :
    ∃ segments last, splitSlash (cs ++ suffix) = segments ++ [last ++ suffix] := by
  induction cs with
  | nil => exact ⟨[], [], by simp [splitSlash_of_not_mem h]⟩
  | cons c cs ih =>
    obtain ⟨segments, last, heq⟩ := ih
    rw [List.cons_append, splitSlash, heq]
    split
    · exact ⟨[] :: segments, last, rfl⟩
    · cases segments with
      | nil => exact ⟨[], c :: last, rfl⟩
      | cons segment segments => exact ⟨(c :: segment) :: segments, last, rfl⟩

theorem pushSegment_of_length {path : List String} {segment : List Char}
    (h : 2 < segment.length) : pushSegment path segment = path ++ [String.ofList segment] := by
  unfold pushSegment
  rw [if_neg, if_neg]
  · rintro rfl
    simp at h
  · rintro (rfl | rfl)
    · simp at h
    · simp at h

theorem toList_json : ".json".toList = ['.', 'j', 's', 'o', 'n'] := rfl

theorem recordPath_eq_append (dir : List String) (table key : String) :
    ∃ above last, recordPath dir table key = above ++ [String.ofList (last ++ ".json".toList)] := by
  have hslash : '/' ∉ ".json".toList := by simp
  obtain ⟨segments, last, heq⟩ := splitSlash_append hslash key.toList
  refine ⟨segments.foldl pushSegment (dir ++ [table]), last, ?_⟩
  rw [recordPath, joinPath, String.toList_append, heq, List.foldl_append, List.foldl_cons,
    List.foldl_nil, pushSegment_of_length (by simp [toList_json])]

theorem recordPath_ne_nil (dir : List String) (table key : String) :
    recordPath dir table key ≠ [] := by
  obtain ⟨above, last, heq⟩ := recordPath_eq_append dir table key
  rw [heq]
  simp

theorem slash_not_mem_of_safe {key : String} (h : isSafeKey key = true) : '/' ∉ key.toList := by
  intro hmem
  unfold isSafeKey at h
  rw [Bool.and_eq_true, List.all_eq_true] at h
  have hslash := h.2 '/' hmem
  revert hslash
  decide

theorem recordPath_of_safe {key : String} (h : isSafeKey key = true) (dir : List String)
    (table : String) : recordPath dir table key = dir ++ [table, key ++ ".json"] := by
  have hslash : '/' ∉ (key ++ ".json").toList := by
    rw [String.toList_append, List.mem_append, not_or]
    exact ⟨slash_not_mem_of_safe h, by simp⟩
  rw [recordPath, joinPath, splitSlash_of_not_mem hslash, List.foldl_cons, List.foldl_nil,
    pushSegment_of_length]
  · simp
  · have hnonempty : 0 < key.toList.length := by
      rw [List.length_pos_iff]
      rintro heq
      simp [isSafeKey, heq] at h
    rw [String.toList_append, List.length_append, toList_json]
    simp

theorem documentKey_append (key : String) : documentKey (key ++ ".json") = some key := by
  unfold documentKey
  rw [String.toList_append, if_pos (List.suffix_append _ _)]
  simp [toList_json]

theorem eq_of_documentKey {name key : String} (h : documentKey name = some key) :
    name = key ++ ".json" := by
  unfold documentKey at h
  split at h
  · next hsuffix =>
      obtain ⟨front, hfront⟩ := hsuffix
      cases h
      rw [← String.toList_inj, String.toList_append, String.toList_ofList, ← hfront]
      simp [toList_json]
  · cases h

theorem documentKey_isSome_iff {name : String} :
    (documentKey name).isSome = true ↔ ∃ key, name = key ++ ".json" := by
  constructor
  · intro h
    obtain ⟨key, hkey⟩ := Option.isSome_iff_exists.mp h
    exact ⟨key, eq_of_documentKey hkey⟩
  · rintro ⟨key, rfl⟩
    rw [documentKey_append]
    rfl

/-! ## Trees -/

variable {descriptor : KvUnitDescriptor} {disk : Disk FileText} {dir q : List String}

/-- A path that suppresses a bootstrap: that of a document of a declared table, or of the global. -/
inductive IsDocumentPath (descriptor : KvUnitDescriptor) (dir : List String) :
    List String → Prop where
  | record (table name : String) (htable : table ∈ descriptor.tables)
      (hname : (documentKey name).isSome = true) :
      IsDocumentPath descriptor dir (dir ++ [table, name])
  | global (h : descriptor.hasGlobal = true) :
      IsDocumentPath descriptor dir (dir ++ ["global.json"])

/-- A tree without documents. -/
structure TreeEmpty (descriptor : KvUnitDescriptor) (disk : Disk FileText) (dir : List String) :
    Prop where
  readable : ∀ q, q <+: dir → disk.isFile q = false
  documents : ∀ q, IsDocumentPath descriptor dir q → disk.read q = none

/-- The state of a unit without records. -/
def emptyState (descriptor : KvUnitDescriptor) : UnitState :=
  ⟨.null, descriptor.tables.map fun table => (table, [])⟩

theorem read_child (disk : Disk FileText) (dir : List String) (table name : String) :
    disk.read (dir ++ [table] ++ [name]) = disk.read (dir ++ [table, name]) := by simp

theorem loadTableRecords_empty {table : String} (h : TreeEmpty descriptor disk dir)
    (htable : table ∈ descriptor.tables) (versions : List ℕ) :
    loadTableRecords disk versions (dir ++ [table]) = [] := by
  unfold loadTableRecords
  have hnames : ∀ name ∈ disk.names (dir ++ [table]), documentKey name = none := by
    intro name hname
    by_contra hkey
    rw [Disk.mem_names, read_child] at hname
    rw [h.documents _ (.record table name htable (Option.isSome_iff_ne_none.mpr hkey))] at hname
    cases hname
  generalize disk.names (dir ++ [table]) = names at hnames
  induction names with
  | nil => rfl
  | cons name names ih =>
    rw [List.forall_mem_cons] at hnames
    have hsame : loadDocument disk versions (dir ++ [table]) [] name = [] := by
      simp only [loadDocument, hnames.1]
    rw [List.foldl_cons, hsame]
    exact ih hnames.2

theorem hasDocuments_empty {table : String} (h : TreeEmpty descriptor disk dir)
    (htable : table ∈ descriptor.tables) : hasDocuments disk (dir ++ [table]) = false := by
  unfold hasDocuments
  rw [List.any_eq_false]
  intro name hname hkey
  rw [Disk.mem_names, read_child, h.documents _ (.record table name htable hkey)] at hname
  cases hname

/-- A tree without documents reads as the empty unit. -/
theorem load_empty (h : TreeEmpty descriptor disk dir) :
    loadPerRecordState descriptor disk dir = .ok (emptyState descriptor, false) := by
  unfold loadPerRecordState
  split
  · have htables : (descriptor.tables.map fun table => (table,
        if disk.isDirectory (dir ++ [table]) then
          loadTableRecords disk descriptor.acceptedStamps (dir ++ [table]) else [])) =
        descriptor.tables.map fun table => (table, []) := by
      refine List.map_congr_left ?_
      intro table htable
      rw [loadTableRecords_empty h htable]
      simp
    have hglobal : (if descriptor.hasGlobal then
        (readRecord disk (dir ++ ["global.json"]) descriptor.acceptedStamps).getD .null
        else .null) = Json.null := by
      split
      · next hhas =>
          rw [readRecord, h.documents _ (.global hhas)]
          rfl
      · rfl
    have hnone : (disk.names dir).any (isDocumentEntry descriptor disk dir) = false := by
      rw [List.any_eq_false]
      intro name hname
      unfold isDocumentEntry
      split
      · next htable => simp [hasDocuments_empty h htable.2]
      · intro hglobal
        rw [Bool.and_eq_true, decide_eq_true_eq] at hglobal
        rw [Disk.mem_names, hglobal.1, h.documents _ (.global hglobal.2)] at hname
        cases hname
    simp only [htables, hglobal, hnone, emptyState]
  · rw [if_neg]
    · rfl
    · rw [List.any_eq_true]
      rintro ⟨q, hq, hfile⟩
      rw [h.readable q ((List.mem_inits _ _).mp hq)] at hfile
      cases hfile

theorem lookup_loadDocument (disk : Disk FileText) (versions : List ℕ) (dir : List String)
    (records : OrderedMap String Json) (name key : String) :
    (loadDocument disk versions dir records name).lookup key =
      if name = key ++ ".json" ∧ isSafeKey key = true then
        (readRecord disk (dir ++ [name]) versions).or (records.lookup key)
      else records.lookup key := by
  unfold loadDocument
  cases hkey : documentKey name with
  | none =>
    have hne : name ≠ key ++ ".json" := by
      rintro rfl
      rw [documentKey_append] at hkey
      cases hkey
    simp [hne]
  | some other =>
    have hname := eq_of_documentKey hkey
    dsimp only
    by_cases hsame : other = key
    · subst hsame
      by_cases hsafe : isSafeKey other = true
      · rw [if_pos hsafe, if_pos ⟨hname, hsafe⟩]
        cases readRecord disk (dir ++ [name]) versions with
        | none => rfl
        | some record => simp [OrderedMap.lookup_set]
      · rw [if_neg hsafe, if_neg (fun h => hsafe h.2)]
    · have hne : name ≠ key ++ ".json" := by
        intro heq
        rw [heq, documentKey_append, Option.some.injEq] at hkey
        exact hsame hkey.symm
      have hother : ¬key = other := fun heq => hsame heq.symm
      have hright : (if name = key ++ ".json" ∧ isSafeKey key = true then
          (readRecord disk (dir ++ [name]) versions).or (records.lookup key)
          else records.lookup key) = records.lookup key := if_neg (fun h => hne h.1)
      rw [hright]
      split
      · split
        · rw [OrderedMap.lookup_set, if_neg hother]
        · rfl
      · rfl

theorem lookup_loadTableRecords (disk : Disk FileText) (versions : List ℕ) (dir : List String)
    (key : String) :
    (loadTableRecords disk versions dir).lookup key =
      if isSafeKey key then readRecord disk (dir ++ [key ++ ".json"]) versions else none := by
  have hfold : ∀ (names : List String) (acc : OrderedMap String Json),
      (names.foldl (loadDocument disk versions dir) acc).lookup key =
        if key ++ ".json" ∈ names ∧ isSafeKey key = true then
          (readRecord disk (dir ++ [key ++ ".json"]) versions).or (acc.lookup key)
        else acc.lookup key := by
    intro names
    induction names with
    | nil => simp
    | cons name names ih =>
      intro acc
      rw [List.foldl_cons, ih, lookup_loadDocument]
      by_cases hsafe : isSafeKey key = true
      · by_cases hname : name = key ++ ".json"
        · subst hname
          by_cases hmem : key ++ ".json" ∈ names
          · cases hread : readRecord disk (dir ++ [key ++ ".json"]) versions with
            | none => simp [hsafe, hmem]
            | some record => simp [hsafe, hmem]
          · simp [hsafe, hmem]
        · have hne : ¬key ++ ".json" = name := fun heq => hname heq.symm
          simp [hsafe, hname, hne]
      · simp [hsafe]
  rw [loadTableRecords, hfold]
  by_cases hsafe : isSafeKey key = true
  · rw [if_pos hsafe]
    by_cases hmem : key ++ ".json" ∈ disk.names dir
    · simp [hsafe, hmem]
    · have hread : disk.read (dir ++ [key ++ ".json"]) = none := by
        rw [Disk.mem_names] at hmem
        exact Option.not_isSome_iff_eq_none.mp hmem
      simp [hmem, readRecord, hread]
  · simp [hsafe]

theorem lookup_map_tables (tables : List String) (records : String → OrderedMap String Json)
    (table : String) :
    (tables.map fun table => (table, records table)).lookup table =
      if table ∈ tables then some (records table) else none := by
  induction tables with
  | nil => rfl
  | cons first tables ih =>
    rw [List.map_cons, OrderedMap.lookup_cons_ite, ih]
    by_cases h : table = first
    · simp [h]
    · simp [h]

variable (descriptor) in
theorem load_tree (h : disk.isDirectory dir = true) :
    ∃ state, loadPerRecordState descriptor disk dir =
        .ok (state, (disk.names dir).any (isDocumentEntry descriptor disk dir)) ∧
      ∀ table key, state.find table key =
        if table ∈ descriptor.tables ∧ disk.isDirectory (dir ++ [table]) = true ∧
            isSafeKey key = true then
          readRecord disk (dir ++ [table, key ++ ".json"]) descriptor.acceptedStamps
        else none := by
  refine ⟨_, by rw [loadPerRecordState, if_pos h], fun table key => ?_⟩
  rw [UnitState.find, lookup_map_tables]
  by_cases htable : table ∈ descriptor.tables
  · by_cases hdir : disk.isDirectory (dir ++ [table]) = true
    · simp [htable, hdir, lookup_loadTableRecords]
    · simp [htable, hdir]
  · simp [htable]

theorem any_isDocumentEntry (hq : IsDocumentPath descriptor dir q)
    (hread : (disk.read q).isSome = true)
    (habove : ∀ p, dir <+: p → p <+: q.dropLast → disk.isDirectory p = true) :
    (disk.names dir).any (isDocumentEntry descriptor disk dir) = true := by
  rw [List.any_eq_true]
  cases hq with
  | record table name htable hname =>
    have hdir : disk.isDirectory (dir ++ [table]) = true := by
      refine habove _ (List.prefix_append _ _) ?_
      rw [List.dropLast_append_cons]
      exact ⟨[], by simp⟩
    refine ⟨table, ?_, ?_⟩
    · rw [Disk.mem_names, Disk.isDirectory_iff.mp hdir]
      rfl
    · rw [isDocumentEntry, if_pos ⟨hdir, htable⟩, hasDocuments, List.any_eq_true]
      refine ⟨name, ?_, hname⟩
      rw [Disk.mem_names, read_child]
      exact hread
  | global hhas =>
    have hnot : "global.json" ∉ descriptor.tables := by
      intro hmem
      have hnamed := descriptor.tablesNamed _ hmem
      revert hnamed
      decide
    refine ⟨"global.json", Disk.mem_names.mpr hread, ?_⟩
    rw [isDocumentEntry, if_neg (fun h => hnot h.2)]
    simp [hhas]

end PerRecord

end TianmaCoder
