import TianmaCoder.Compaction.FallbackCheckpoint
import TianmaCoder.Lib.Touches
import TianmaCoder.Session.Event

/-!
# The ledger of read files

After a compaction the model is told which files it has read. The ledger is rebuilt from the
whole log: the calls are resolved by their ids, the last record of an id first, and every result
of a read or of an edit is counted for the path of its call. The section lists the files from the
newest touch on, as long as the lines fit.

## Main definitions

* `pathFromArguments` — the path a tool call names.
* `buildFileStateView` — the ledger.
* `renderRehydrationSection` — the section.

## Main results

* `entryLines_eq` — the lines of the entries that fit, and the overflow line.
* `length_renderRehydrationSection` — the length of the section.
-/

namespace TianmaCoder

namespace FileRehydrator

open Touches Fidelity

/-! ## Calls -/

def READ_TOOLS : List String := ["read", "tool-read", "view"]

def WRITE_TOOLS : List String :=
  ["write", "edit", "tool-write", "tool-edit", "applypatch", "multiedit"]

/-- The array index that a property name spells. -/
def indexOf? (key : String) : Option ℕ :=
  match key.toNat? with
  | some n => if toString n = key ∧ n < 2 ^ 32 - 1 then some n else none
  | none => none

/-- A path, in code units. -/
structure Path where
  units : List ℕ
  deriving DecidableEq

/-- `Object.values(value)`: the indices of an object in ascending order, then the other members;
a string has its code units. -/
def stringValues : Json → List (Option (List ℕ))
  | .obj members =>
    let indexed := members.filterMap fun (key, value) => (indexOf? key).map fun n => (n, value)
    let others := members.filter fun (key, _) => indexOf? key = none
    ((indexed.mergeSort fun a b => a.1 ≤ b.1).map Prod.snd ++ others.map Prod.snd).map
      fun value => (Json.str? (some value)).map codeUnits
  | .arr items => items.map fun value => (Json.str? (some value)).map codeUnits
  | .str s => (codeUnits s).map fun unit => some [unit]
  | _ => []

/-- Extract a file path from the arguments of a tool call, as `JSON.parse` reads them. -/
def pathFromArguments (parse : String → Option Json) (argumentsJson : Option String) :
    Option Path :=
  match argumentsJson.bind parse with
  | none | some .null => none
  | some parsed =>
    match ["path", "file_path", "filePath", "file"].findSome? fun key =>
        (Json.nonEmptyStr? (parsed.get? key)).map codeUnits with
    | some units => some ⟨units⟩
    | none =>
      match (stringValues parsed).reduceOption.head? with
      | some units => if units.length > 0 then some ⟨units⟩ else none
      | none => none

/-- The id that a `tool/call` is recorded under. -/
def callIdOf (event : SessionEvent) : Option String :=
  if event.type = .toolCall then Json.str? (event.field "callId") else none

/-- The id of the call that a `tool/result` is for. -/
def resultIdOf (event : SessionEvent) : Option String :=
  if event.type = .toolResult then Json.str? (event.data.path ["message", "source", "callId"])
  else none

/-! ## The ledger -/

/-- One tracked file, as it is counted. -/
structure FileCount where
  readCount : ℕ
  editsSinceLastRead : ℕ
  lastSeq : ℕ
  deriving DecidableEq

/-- One tracked file. -/
structure FileStateEntry where
  path : Path
  readCount : ℕ
  editsSinceLastRead : ℕ
  lastSeq : ℕ
  deriving DecidableEq

structure FileStateView where
  entries : List FileStateEntry
  skippedUnreadable : ℕ
  deriving DecidableEq

variable (parse : String → Option Json)

/-- The recorded names and arguments of the calls, by id. -/
def nameByCall (events : List SessionEvent) : OrderedMap String String :=
  events.foldl (fun names event =>
    match callIdOf event with
    | some callId => OrderedMap.set callId ((Json.str? (event.field "name")).getD "") names
    | none => names) []

def argsByCall (events : List SessionEvent) : OrderedMap String (Option String) :=
  events.foldl (fun args event =>
    match callIdOf event with
    | some callId => OrderedMap.set callId (Json.str? (event.field "arguments")) args
    | none => args) []

/-- One result, with the maps of the calls. -/
def countResult (names : OrderedMap String String) (args : OrderedMap String (Option String))
    (acc : OrderedMap Path FileCount × ℕ) (entry : SessionEvent × ℕ) :
    OrderedMap Path FileCount × ℕ :=
  match resultIdOf entry.1 with
  | none => acc
  | some callId =>
    let name := ((names.lookup callId).getD "").toLower
    let isRead := READ_TOOLS.contains name
    let isWrite := WRITE_TOOLS.contains name
    if !isRead && !isWrite then acc
    else
      match pathFromArguments parse ((args.lookup callId).getD none) with
      | none => if isRead then (acc.1, acc.2 + 1) else acc
      | some path =>
        let count := (acc.1.lookup path).getD ⟨0, 0, entry.2⟩
        let count :=
          if isRead then { count with readCount := count.readCount + 1 }
          else { count with editsSinceLastRead := count.editsSinceLastRead + 1 }
        (OrderedMap.set path { count with lastSeq := entry.2 } acc.1, acc.2)

/-- Rebuild the ledger from the events of a session. -/
def buildFileStateView (events : List SessionEvent) : FileStateView :=
  let names := nameByCall events
  let args := argsByCall events
  let counted := events.zipIdx.foldl (countResult parse names args) ([], 0)
  let entries := ((counted.1.filter fun entry => entry.2.readCount > 0).mergeSort
    fun a b => b.2.lastSeq ≤ a.2.lastSeq).map fun (path, count) =>
      ⟨path, count.readCount, count.editsSinceLastRead, count.lastSeq⟩
  { entries := entries, skippedUnreadable := counted.2 }

/-! ## The section -/

def sectionHead : List (List ℕ) :=
  [codeUnits "# Files you have read this session (rebuilt after compaction)", [],
    codeUnits ("Re-read any file before editing it if its content is not otherwise in your context. "
      ++ "Files marked STALE were changed after your last read."), []]

def FileStateEntry.stale (entry : FileStateEntry) : Bool := entry.editsSinceLastRead > 0

def lineOf (entry : FileStateEntry) : List ℕ :=
  codeUnits "- " ++ (if entry.stale then codeUnits "STALE: " else []) ++ entry.path.units
    ++ codeUnits (s!" (reads: {entry.readCount}, edits since last read: {entry.editsSinceLastRead})")

def overflowLine (omitted : ℕ) : List ℕ :=
  codeUnits s!"- … {omitted} more files omitted (re-read by path as needed)"

/-- The lines of the loop over the entries, `used` code units being taken. -/
def entryLines (maxChars : ℤ) : ℕ → List FileStateEntry → List (List ℕ)
  | _, [] => []
  | used, entry :: rest =>
    let line := lineOf entry
    if (used : ℤ) + line.length + 1 > maxChars then [overflowLine (rest.length + 1)]
    else line :: entryLines maxChars (used + line.length + 1) rest

/-- Render the ledger as a bounded context section. -/
def renderRehydrationSection (view : FileStateView) (maxChars : ℤ) : List ℕ :=
  if view.entries.length = 0 then []
  else joinLines (sectionHead ++ entryLines maxChars (joinLines sectionHead).length view.entries)

/-! ## What the section lists -/

/-- How many entries fit, `used` code units being taken. -/
def fitting (maxChars : ℤ) : ℕ → List FileStateEntry → ℕ
  | _, [] => 0
  | used, entry :: rest =>
    if (used : ℤ) + (lineOf entry).length + 1 > maxChars then 0
    else fitting maxChars (used + (lineOf entry).length + 1) rest + 1

/-- The code units of the lines, each with its line end. -/
def size (lines : List (List ℕ)) : ℕ := (lines.map fun line => line.length + 1).sum

variable {maxChars : ℤ}

theorem fitting_le (maxChars : ℤ) (used : ℕ) (entries : List FileStateEntry) :
    fitting maxChars used entries ≤ entries.length := by
  induction entries generalizing used with
  | nil => exact Nat.le_refl _
  | cons entry rest ih =>
    rw [fitting]
    split
    · exact Nat.zero_le _
    · exact Nat.succ_le_succ (ih _)

/-- The lines of the entries that fit, and the overflow line for the others. -/
theorem entryLines_eq (used : ℕ) (entries : List FileStateEntry) :
    entryLines maxChars used entries = (entries.take (fitting maxChars used entries)).map lineOf
      ++ if fitting maxChars used entries < entries.length then
          [overflowLine (entries.length - fitting maxChars used entries)]
        else [] := by
  induction entries generalizing used with
  | nil => rfl
  | cons entry rest ih =>
    rw [entryLines, fitting]
    by_cases hover : (used : ℤ) + (lineOf entry).length + 1 > maxChars
    · simp [hover]
    · simp only [if_neg hover, List.take_succ_cons, List.map_cons, List.cons_append,
        List.length_cons, Nat.add_lt_add_iff_right, Nat.add_sub_add_right]
      rw [← ih]

/-- Entries that all fit stay in the budget. -/
theorem size_le_of_fitting {used : ℕ} {entries : List FileStateEntry} (hne : entries ≠ [])
    (hall : fitting maxChars used entries = entries.length) :
    (used : ℤ) + size (entries.map lineOf) ≤ maxChars := by
  induction entries generalizing used with
  | nil => exact absurd rfl hne
  | cons entry rest ih =>
    rw [fitting] at hall
    by_cases hover : (used : ℤ) + (lineOf entry).length + 1 > maxChars
    · rw [if_pos hover] at hall
      cases hall
    · rw [if_neg hover] at hall
      have hsize : size ((entry :: rest).map lineOf)
          = (lineOf entry).length + 1 + size (rest.map lineOf) := by
        simp [size]
      rw [hsize]
      cases rest with
      | nil =>
        simp only [size, List.map_nil, List.sum_nil]
        omega
      | cons next rest =>
        have hrest := ih (List.cons_ne_nil next rest) (Nat.succ.inj hall)
        push_cast at hrest ⊢
        omega

theorem length_renderRehydrationSection {view : FileStateView} (hne : view.entries ≠ []) :
    (renderRehydrationSection view maxChars).length = (joinLines sectionHead).length
      + size (entryLines maxChars (joinLines sectionHead).length view.entries) := by
  have hpos : view.entries.length ≠ 0 := by
    intro hzero
    exact hne (List.eq_nil_of_length_eq_zero hzero)
  rw [renderRehydrationSection, if_neg hpos]
  generalize entryLines maxChars (joinLines sectionHead).length view.entries = lines
  rw [sectionHead, List.cons_append, length_joinLines_cons, length_joinLines_cons,
    List.map_append, List.sum_append, size]
  omega

end FileRehydrator

end TianmaCoder
