import TianmaCoder.Lib.Disk
import TianmaCoder.Lib.JsonText

/-!
# One unit in per-record layout

A unit is a directory with one version-stamped document for each record. A load reads the tree
again; when no document path is in it, the records of a legacy whole-unit file are copied into
documents, each by a few durable file operations: the directory is made, a temporary file is written
beside the document, and it is renamed over it.

## Main definitions

* `PerRecord.loadPerRecordState` — what the tree holds.
* `PerRecord.bootstrapOperations` — the file operations of a bootstrap.
* `PerRecord.loadAll`, `PerRecord.interruptedLoad` — a load, and one that stops on the way.
-/

namespace TianmaCoder

namespace PerRecord

/-- The text of a file, as the tokens of its JSON. -/
abbrev FileText := List JsonToken

/-! ## Names and paths -/

def isLowerLetter (c : Char) : Bool := 'a' ≤ c && c ≤ 'z'

def isDigit (c : Char) : Bool := '0' ≤ c && c ≤ '9'

/-- `UNIT_NAME_RE`. -/
def isUnitName (name : String) : Bool :=
  match name.toList with
  | c :: cs => isLowerLetter c && cs.all fun c => isLowerLetter c || isDigit c || c == '_'
  | [] => false

/-- `SAFE_KEY_RE`. -/
def isSafeKey (key : String) : Bool :=
  !key.toList.isEmpty && key.toList.all fun c =>
    isLowerLetter c || ('A' ≤ c && c ≤ 'Z') || isDigit c || c == '_' || c == '-'

/-- Static identity and shape of a unit, as the backend admits it. -/
structure KvUnitDescriptor where
  name : String
  version : ℕ
  tables : List String
  hasGlobal : Bool
  compatibleVersions : List ℕ
  named : isUnitName name = true
  tablesNamed : ∀ table ∈ tables, isUnitName table = true

/-- The version stamps a unit reads as its own. -/
def KvUnitDescriptor.acceptedStamps (descriptor : KvUnitDescriptor) : List ℕ :=
  descriptor.version :: descriptor.compatibleVersions

/-- `relative.split('/')`. -/
def splitSlash : List Char → List (List Char)
  | [] => [[]]
  | c :: cs =>
    if c = '/' then [] :: splitSlash cs
    else
      match splitSlash cs with
      | [] => [[c]]
      | segment :: segments => (c :: segment) :: segments

/-- Walk one segment on. -/
def pushSegment (path : List String) (segment : List Char) : List String :=
  if segment = [] ∨ segment = ['.'] then path
  else if segment = ['.', '.'] then path.dropLast
  else path ++ [String.ofList segment]

/-- `join(base, relative)`. -/
def joinPath (base : List String) (relative : String) : List String :=
  (splitSlash relative.toList).foldl pushSegment base

def unitDir (descriptor : KvUnitDescriptor) (root : List String) : List String :=
  root ++ [descriptor.name]

/-- `join(dir, table, key + '.json')`. -/
def recordPath (dir : List String) (table key : String) : List String :=
  joinPath (dir ++ [table]) (key ++ ".json")

/-- The name of a document without its extension; `none` of any other name. -/
def documentKey (name : String) : Option String :=
  if ".json".toList <:+ name.toList then
    some (String.ofList (name.toList.take (name.toList.length - 5)))
  else none

/-! ## Documents -/

/-- Serialize one per-record document. -/
def serializeRecord (version : ℕ) (value : Json) : FileText :=
  Json.stringify (.obj [("version", .nat version), ("record", value)])

/-- Whether a value is one of the stamps. -/
def isStamp (versions : List ℕ) (stamped : Option Json) : Bool :=
  versions.any fun version => stamped = some (.nat version)

/-- Parse one per-record document; `none` for a foreign one. -/
def parseRecord (text : FileText) (versions : List ℕ) : Option Json :=
  match Json.parse text with
  | some document =>
    if isStamp versions (document.get? "version") then document.get? "record" else none
  | none => none

/-- Read one record document; an unreadable or stale one reads as absent. -/
def readRecord (disk : Disk FileText) (path : List String) (versions : List ℕ) : Option Json :=
  match disk.read path with
  | some (.file text) => parseRecord text versions
  | _ => none

/-! ## The tree -/

/-- The state reconstructed from the tree; a global that was never written is `null`. -/
structure UnitState where
  global : Json
  tables : OrderedMap String (OrderedMap String Json)

/-- The value of a record. -/
def UnitState.find (state : UnitState) (table key : String) : Option Json :=
  (state.tables.lookup table).bind (·.lookup key)

/-- Whether a directory contains any document path. -/
def hasDocuments (disk : Disk FileText) (dir : List String) : Bool :=
  (disk.names dir).any fun name => (documentKey name).isSome

/-- Read one file of a table. -/
def loadDocument (disk : Disk FileText) (versions : List ℕ) (dir : List String)
    (records : OrderedMap String Json) (name : String) : OrderedMap String Json :=
  match documentKey name with
  | some key =>
    if isSafeKey key then
      match readRecord disk (dir ++ [name]) versions with
      | some record => records.set key record
      | none => records
    else records
  | none => records

/-- Read the documents of one table. -/
def loadTableRecords (disk : Disk FileText) (versions : List ℕ) (dir : List String) :
    OrderedMap String Json :=
  (disk.names dir).foldl (loadDocument disk versions dir) []

/-- Whether an entry of the unit directory is or holds a document path. -/
def isDocumentEntry (descriptor : KvUnitDescriptor) (disk : Disk FileText) (dir : List String)
    (name : String) : Bool :=
  if disk.isDirectory (dir ++ [name]) ∧ name ∈ descriptor.tables then
    hasDocuments disk (dir ++ [name])
  else name = "global.json" && descriptor.hasGlobal

/-- Read every record document under the unit directory, and tell whether there is any document
path. A missing directory is the empty unit. -/
def loadPerRecordState (descriptor : KvUnitDescriptor) (disk : Disk FileText) (dir : List String) :
    Except String (UnitState × Bool) :=
  let versions := descriptor.acceptedStamps
  if disk.isDirectory dir then
    let tables := descriptor.tables.map fun table =>
      (table, if disk.isDirectory (dir ++ [table]) then
        loadTableRecords disk versions (dir ++ [table]) else [])
    let global := if descriptor.hasGlobal then
      (readRecord disk (dir ++ ["global.json"]) versions).getD .null else .null
    .ok (⟨global, tables⟩, (disk.names dir).any (isDocumentEntry descriptor disk dir))
  else if dir.inits.any disk.isFile then .error "ENOTDIR"
  else .ok (⟨.null, descriptor.tables.map fun table => (table, [])⟩, false)

/-! ## The legacy file -/

def legacyPath (descriptor : KvUnitDescriptor) (root : List String) : List String :=
  root ++ [descriptor.name ++ ".json"]

/-- The tables of a legacy whole-unit file of this unit with an accepted version; `none` for a file
that is missing or left alone. -/
def legacyTables (descriptor : KvUnitDescriptor) (disk : Disk FileText) (root : List String) :
    Except String (Option Json) :=
  match disk.read (legacyPath descriptor root) with
  | none => .ok none
  | some .directory => .error "EISDIR"
  | some (.file text) =>
    match Json.parse text with
    | none => .ok none
    | some .null => .error "Cannot read properties of null (reading 'unit')"
    | some document =>
      if document.path ["unit", "name"] = some (.str descriptor.name) ∧
          isStamp descriptor.acceptedStamps (document.path ["unit", "version"]) then
        match document.get? "tables" with
        | some (.obj tables) => .ok (some (.obj tables))
        | some (.arr tables) => .ok (some (.arr tables))
        | _ => .ok none
      else .ok none

/-- `Object.entries(value)`; a parsed object has the last of the members under one key. -/
def objectEntries : Json → Except String (OrderedMap String Json)
  | .null => .error "Cannot convert undefined or null to object"
  | .obj members => .ok (members.foldl (fun entries member => entries.set member.1 member.2) [])
  | .arr items => .ok (items.zipIdx.map fun item => (toString item.2, item.1))
  | .str s => .ok (s.toList.zipIdx.map fun c => (toString c.2, .str (String.singleton c.1)))
  | _ => .ok []

structure LegacyRecord where
  table : String
  key : String
  value : Json

/-- The records of declared tables in the order of the copy, and whether it ends at a table that is
`null`. -/
def declaredRecords (descriptor : KvUnitDescriptor) :
    List (String × Json) → List LegacyRecord × Bool
  | [] => ([], false)
  | (table, records) :: rest =>
    if table ∈ descriptor.tables then
      match objectEntries records with
      | .error _ => ([], true)
      | .ok entries =>
        let later := declaredRecords descriptor rest
        (entries.map (fun entry => ⟨table, entry.1, entry.2⟩) ++ later.1, later.2)
    else declaredRecords descriptor rest

/-- The entries of the tables of a legacy file. -/
def tableEntries (tables : Json) : OrderedMap String Json :=
  match objectEntries tables with
  | .ok entries => entries
  | .error _ => []

def legacyRecords (descriptor : KvUnitDescriptor) (tables : Json) : List LegacyRecord × Bool :=
  declaredRecords descriptor (tableEntries tables)

/-! ## The bootstrap -/

/-- One durable file operation. -/
inductive FileOperation where
  | makeDirectory (path : List String)
  | openTemp (path : List String)
  | writeTemp (path : List String) (text : FileText)
  | publish (temp path : List String)

/-- No name on the path has a null character, which the file system refuses. -/
def isPath (path : List String) : Bool := path.all fun name => !name.toList.contains '\x00'

/-- `none` where the file system refuses. -/
def FileOperation.exec (disk : Disk FileText) : FileOperation → Option (Disk FileText)
  | .makeDirectory path => if isPath path then disk.makeDirs path else none
  | .openTemp path => if isPath path then disk.create path [] else none
  | .writeTemp path text => disk.replace path text
  | .publish temp path => if isPath path then disk.rename temp path else none

/-- Do the operations up to the first that is refused, and tell whether all were done. -/
def execAll (disk : Disk FileText) : List FileOperation → Disk FileText × Bool
  | [] => (disk, true)
  | operation :: operations =>
    match operation.exec disk with
    | some disk' => execAll disk' operations
    | none => (disk, false)

def tempName (uuid : String) : String := "." ++ uuid ++ ".tmp"

/-- `writeAtomic`, with the directory made before. -/
def recordOperations (path : List String) (temp : String) (text : FileText) :
    List FileOperation :=
  [.makeDirectory path.dropLast, .openTemp (path.dropLast ++ [temp]),
    .writeTemp (path.dropLast ++ [temp]) text, .publish (path.dropLast ++ [temp]) path]

/-- A document that the bootstrap writes. -/
structure RecordDocument where
  path : List String
  text : FileText

def recordDocuments (descriptor : KvUnitDescriptor) (root : List String)
    (records : List LegacyRecord) : List RecordDocument :=
  records.map fun record => ⟨recordPath (unitDir descriptor root) record.table record.key,
    serializeRecord descriptor.version record.value⟩

/-- The file operations for some documents, with an identity drawn for each. -/
def documentOperations (uuids : ℕ → String) : ℕ → List RecordDocument → List FileOperation
  | _, [] => []
  | n, document :: documents =>
    recordOperations document.path (tempName (uuids n)) document.text ++
      documentOperations uuids (n + 1) documents

def bootstrapOperations (descriptor : KvUnitDescriptor) (root : List String)
    (uuids : ℕ → String) (tables : Json) : List FileOperation :=
  documentOperations uuids 0
    (recordDocuments descriptor root (legacyRecords descriptor tables).1)

/-- `target.set(key, value)` for every record that was copied. -/
def UnitState.setRecords (state : UnitState) (records : List LegacyRecord) : UnitState where
  global := state.global
  tables := records.foldl
    (fun tables record =>
      tables.set record.table (((tables.lookup record.table).getD []).set record.key record.value))
    state.tables

/-- What a load leaves on the disk, and what it returns. -/
structure Load where
  disk : Disk FileText
  result : Except String UnitState

/-- An operation that fails leaves no temporary file. -/
def removeTemps (root : Disk FileText) (operations : List FileOperation) : Disk FileText :=
  operations.foldl
    (fun disk operation =>
      match operation with
      | .openTemp path => disk.remove path
      | _ => disk) root

def bootstrapLegacyUnit (descriptor : KvUnitDescriptor) (root : List String)
    (uuids : ℕ → String) (disk : Disk FileText) (state : UnitState) : Load :=
  match legacyTables descriptor disk root with
  | .error message => ⟨disk, .error message⟩
  | .ok none => ⟨disk, .ok state⟩
  | .ok (some tables) =>
    let operations := bootstrapOperations descriptor root uuids tables
    match execAll disk operations with
    | (disk', true) =>
      if (legacyRecords descriptor tables).2 then
        ⟨disk', .error "Cannot convert undefined or null to object"⟩
      else ⟨disk', .ok (state.setRecords (legacyRecords descriptor tables).1)⟩
    | (disk', false) => ⟨removeTemps disk' operations, .error "EIO"⟩

/-- Re-read the tree: the directory is the authoritative state. -/
def loadAll (descriptor : KvUnitDescriptor) (root : List String) (uuids : ℕ → String)
    (disk : Disk FileText) : Load :=
  match loadPerRecordState descriptor disk (unitDir descriptor root) with
  | .error message => ⟨disk, .error message⟩
  | .ok (state, true) => ⟨disk, .ok state⟩
  | .ok (state, false) => bootstrapLegacyUnit descriptor root uuids disk state

/-- How a bootstrap stops after some of its file operations: the process ends, or the next operation
fails and the temporary file is removed. -/
inductive Interruption where
  | crash (operations : ℕ)
  | failure (operations : ℕ)

/-- How many operations were done. -/
def Interruption.operations : Interruption → ℕ
  | .crash n => n
  | .failure n => n

/-- The disk after a load of which the bootstrap is interrupted. -/
def interruptedLoad (descriptor : KvUnitDescriptor) (root : List String) (uuids : ℕ → String)
    (disk : Disk FileText) (interruption : Interruption) : Disk FileText :=
  match loadPerRecordState descriptor disk (unitDir descriptor root),
      legacyTables descriptor disk root with
  | .ok (_, false), .ok (some tables) =>
    let operations := (bootstrapOperations descriptor root uuids tables).take
      interruption.operations
    let done := (execAll disk operations).1
    match interruption with
    | .crash _ => done
    | .failure _ => removeTemps done operations
  | _, _ => disk

end PerRecord

end TianmaCoder
