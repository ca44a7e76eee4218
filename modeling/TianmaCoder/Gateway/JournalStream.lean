import Mathlib.Data.List.Sort
import TianmaCoder.Lib.Checked
import TianmaCoder.Lib.Consecutive
import TianmaCoder.Lib.Effect
import TianmaCoder.Lib.Transition

/-!
# The journal stream of the client

A client follows an append-only journal of the Host through a stream that reconnects. Each
physical generation opens with a page of the journal and goes on with live entries and
notifications. A gap before a live entry is repaired by reading a page, while further frames
are queued, and older pages are prepended on demand. What a consumer sees is the sequence of
published changes.

A step of the model is what runs between two awaits: the continuation of the background
consumer with the result it waited for, or of one call of `prepend`. The iterator, the page
reads and the two abort signals are the environment's, which also appends to the journal.

## Main definitions

* `JournalStream.acceptEntry`, `JournalStream.afterPage`, `JournalStream.prependPage` — the
  segments of the code.
* `JournalStream.step` — one step of the consumer, a call or the journal.
* `JournalStream.Admits` — what the environment may do.
-/

namespace TianmaCoder

open Checked

namespace JournalStream

/-- What a stream, a page read or a check fails with. -/
inductive Failure
  | violation (message : String)
  | aborted
  | thrown (message : String)
  deriving DecidableEq, Repr

/-- The domain's cursor operations. The cursors are linearly ordered, and one follows another
when there is no cursor between them. -/
structure Options (Page Entry Cursor Request : Type) [LinearOrder Cursor] where
  name : String
  emptyCursor : Cursor
  entries : Page → List Entry
  hasMore : Page → Bool
  first : Entry → Cursor
  last : Entry → Cursor
  follows : Cursor → Cursor → Bool
  follows_iff : ∀ left right, follows left right = true ↔ left ⋖ right
  repairRequest : Request → Request

inductive Frame (Page Entry Cursor Notification : Type)
  | opened (cursor : Cursor) (page : Page)
  | entry (entry : Entry)
  | notification (notification : Notification)
  deriving DecidableEq, Repr

/-- A frame with the physical generation that delivered it. -/
structure Item (Page Entry Cursor Notification : Type) where
  generation : ℕ
  value : Frame Page Entry Cursor Notification
  deriving DecidableEq, Repr

inductive Change (Page Entry Notification : Type)
  | replace (page : Page) (entries : List Entry) (hasMore : Bool)
  | prepend (page : Page) (entries : List Entry) (hasMore : Bool)
  | append (entry : Entry)
  | notification (notification : Notification)
  deriving DecidableEq, Repr

/-- The fields of the stream, and what its sinks were called with: every published change with
the generation it was published in, and the failures reported. -/
structure Stream (Page Entry Cursor Request Notification : Type) where
  initialRequest : Option Request
  resumeCursor : Option Cursor
  generation : ℕ
  firstCursor : Option Cursor
  lastCursor : Option Cursor
  started : Bool
  opened : Bool
  disposed : Bool
  published : List (ℕ × Change Page Entry Notification)
  failed : List Failure
  deriving DecidableEq, Repr

/-- A gap repair that waits for its page: what `replaceThrough` was called with, the cursor
that the page is read through, and whether it is the second page. -/
structure Repair (Entry Cursor Request Notification : Type) where
  request : Option Request
  requiredCursor : Cursor
  through : Cursor
  second : Bool
  generation : ℕ
  queued : List Entry
  notifications : List Notification
  deriving DecidableEq, Repr

variable {Page Entry Cursor Request Notification : Type} [LinearOrder Cursor]

section Checks

variable (o : Options Page Entry Cursor Request)

/-- Host-side stream protocol violation. -/
def protocolViolation (message : String) : Failure := .violation message

def entryRange (entry : Entry) : Except Failure (Cursor × Cursor) :=
  let first := o.first entry
  let last := o.last entry
  if last < first then
    throw (protocolViolation s!"{o.name} entry has an inverted cursor range")
  else
    pure (first, last)

/-- The loop of `assertPage`, after an entry that ends at `previous`. -/
def assertPageAfter (previous : Cursor) : List Entry → Except Failure Unit
  | [] => pure ()
  | entry :: rest => do
      let range ← entryRange o entry
      if o.follows previous range.1 then
        assertPageAfter range.2 rest
      else
        throw (protocolViolation s!"{o.name} page contains discontinuous entries")

def assertPage : List Entry → Except Failure Unit
  | [] => pure ()
  | entry :: rest => do
      let range ← entryRange o entry
      assertPageAfter o range.2 rest

def tailCursor (entries : List Entry) : Cursor :=
  match entries.getLast? with
  | none => o.emptyCursor
  | some tail => o.last tail

def assertPageThrough (page : Page) (through : Cursor) : Except Failure Unit :=
  if tailCursor o (o.entries page) ≠ through then
    throw (protocolViolation s!"{o.name} page did not end at its requested cursor")
  else
    pure ()

def maxCursor (cursor : Cursor) (entries : List Entry) : Cursor :=
  entries.foldl (fun result entry =>
    if result < o.last entry then o.last entry else result) cursor

/-- The loop of `mergeReplacement` over the sorted entries. -/
def mergeSorted (entries : List Entry) (tail : Cursor) :
    List Entry → Except Failure (Option (List Entry))
  | [] => pure (some entries)
  | entry :: rest =>
    let first := o.first entry
    let last := o.last entry
    if last ≤ tail then
      mergeSorted entries tail rest
    else if first ≤ tail then
      throw (protocolViolation
        s!"{o.name} replacement contains a partially overlapping entry")
    else if o.follows tail first then
      mergeSorted (entries ++ [entry]) last rest
    else
      pure none

def mergeReplacement (page : Page) (queued : List Entry) :
    Except Failure (Option (List Entry)) := do
  let entries := o.entries page
  assertPage o entries
  queued.forM fun entry => do
    let _ ← entryRange o entry
  let sorted := queued.mergeSort fun left right => decide (o.first left ≤ o.first right)
  mergeSorted o entries (tailCursor o entries) sorted

end Checks

/-- The segments change the fields and may throw. -/
abbrev M (Page Entry Cursor Request Notification : Type) :=
  EStateM Failure (Stream Page Entry Cursor Request Notification)

/-- A check inside a segment. -/
def check {α : Type} (x : Except Failure α) : M Page Entry Cursor Request Notification α :=
  match x with
  | .ok a => pure a
  | .error error => throw error

section Segments

variable (o : Options Page Entry Cursor Request)

def setResumeCursor (cursor : Cursor) : M Page Entry Cursor Request Notification Unit :=
  modify fun s => { s with resumeCursor := some cursor }

/-- The cast of `this.resumeCursor`, which every opening sets. -/
def currentCursor (s : Stream Page Entry Cursor Request Notification) : Cursor :=
  s.resumeCursor.getD o.emptyCursor

def repairPageRequest (s : Stream Page Entry Cursor Request Notification) : Option Request :=
  s.initialRequest.map o.repairRequest

def publish (change : Change Page Entry Notification) :
    M Page Entry Cursor Request Notification Unit :=
  modify fun s => { s with published := s.published ++ [(s.generation, change)] }

def publishNotification (notification : Notification) :
    M Page Entry Cursor Request Notification Unit :=
  publish (.notification notification)

def opening (item : Item Page Entry Cursor Notification) (resumed : Bool) :
    M Page Entry Cursor Request Notification (Cursor × Page) :=
  match item.value with
  | .opened cursor page => do
      let s ← get
      if resumed = true ∧ ∃ last ∈ s.lastCursor, cursor < last then
        throw (protocolViolation s!"{o.name} resumed at a cursor behind the last applied entry")
      else
        modify fun s => { s with generation := item.generation }
        pure (cursor, page)
  | _ =>
    let resumption := if resumed then "resumed " else ""
    throw (protocolViolation
      s!"{resumption}{o.name} emitted an entry before its opening cursor")

/-- The assignments and the publication at the end of a replacement. -/
def replaceWindow (page : Page) (entries : List Entry) (cursor : Cursor) :
    M Page Entry Cursor Request Notification Unit := do
  modify fun s => { s with
    firstCursor := entries.head?.map o.first
    lastCursor := some cursor }
  setResumeCursor cursor
  publish (.replace page entries (o.hasMore page))

def replaceFromOpening (page : Page) (cursor : Cursor) :
    M Page Entry Cursor Request Notification Unit := do
  check (assertPageThrough o page cursor)
  check (assertPage o (o.entries page))
  replaceWindow o page (o.entries page) cursor

def replaceGeneration (initial : Item Page Entry Cursor Notification) (resumed : Bool) :
    M Page Entry Cursor Request Notification Unit := do
  let opening ← opening o initial resumed
  replaceFromOpening o opening.2 opening.1

/-- A live entry is dropped, appended, or starts a repair. -/
def acceptEntry (entry : Entry) (generation : ℕ) :
    M Page Entry Cursor Request Notification
      (Option (Repair Entry Cursor Request Notification)) := do
  let range ← check (entryRange o entry)
  let s ← get
  -- the cast of `this.lastCursor`, which the opening has set
  let last := s.lastCursor.getD o.emptyCursor
  if range.2 ≤ last then
    pure none
  else if range.1 ≤ last then
    throw (protocolViolation s!"{o.name} emitted a partially overlapping entry")
  else if o.follows last range.1 then do
    modify fun s => { s with
      firstCursor := some (s.firstCursor.getD range.1)
      lastCursor := some range.2 }
    setResumeCursor range.2
    publish (.append entry)
    pure none
  else
    pure (some {
      request := repairPageRequest o s
      requiredCursor := range.2
      through := range.2
      second := false
      generation := generation
      queued := [entry]
      notifications := [] })

/-- What `replaceThrough` publishes once the merged entries reach the target. -/
def commitReplacement (page : Page) (entries : List Entry) (notifications : List Notification) :
    M Page Entry Cursor Request Notification Unit := do
  replaceWindow o page entries (tailCursor o entries)
  notifications.forM publishNotification

/-- `replaceThrough` after a page read: publish, read a second page, or fail. -/
def afterPage (repair : Repair Entry Cursor Request Notification) (page : Page) :
    M Page Entry Cursor Request Notification
      (Option (Repair Entry Cursor Request Notification)) := do
  check (assertPageThrough o page repair.through)
  let merged ← check (mergeReplacement o page repair.queued)
  let target := maxCursor o repair.requiredCursor repair.queued
  match merged.filter fun entries => decide (target ≤ tailCursor o entries) with
  | some entries => do
      commitReplacement o page entries repair.notifications
      pure none
  | none =>
    if repair.second then
      throw (protocolViolation s!"{o.name} page did not reach its opening cursor")
    else do
      let s ← get
      pure (some { repair with
        request := repairPageRequest o s
        through := target
        second := true })

/-- `prepend` after its page read. The discontinuous page is published empty before the call
is rejected. -/
def prependPage (page : Page) (aborted : Bool) : M Page Entry Cursor Request Notification Unit :=
  do
  if aborted then throw .aborted
  else do
    let entries := o.entries page
    check (assertPage o entries)
    let s ← get
    let accepted :=
      match s.firstCursor with
      | none => entries
      | some before => entries.filter fun entry => decide (o.first entry < before)
    match accepted.getLast?, s.firstCursor with
    | some tail, some before =>
      if o.follows (o.last tail) before then publishPrepend page accepted
      else do
        publish (.prepend page [] false)
        throw (protocolViolation s!"{o.name} history page is discontinuous")
    | _, _ => publishPrepend page accepted
where
  publishPrepend (page : Page) (accepted : List Entry) :
      M Page Entry Cursor Request Notification Unit := do
    modify fun s => { s with
      firstCursor := (accepted.head?.map o.first).or s.firstCursor }
    publish (.prepend page accepted (o.hasMore page))

/-- Where the background consumer waits. -/
inductive Point (Entry Cursor Request Notification : Type)
  | unopened
  | opening
  | idle
  | reading (repair : Repair Entry Cursor Request Notification)
  | replacing (generation : ℕ)
  | closed (error : Option Failure)
  deriving DecidableEq, Repr

/-- What a pull of the iterator settles with. -/
inductive Next (Page Entry Cursor Notification : Type)
  | item (item : Item Page Entry Cursor Notification)
  | done
  | failed (error : Failure)
  deriving DecidableEq, Repr

/-- `open` after its first pull. -/
def openFirst (next : Next Page Entry Cursor Notification) :
    M Page Entry Cursor Request Notification (Point Entry Cursor Request Notification) :=
  match next with
  | .failed error => throw error
  | .done => throw (protocolViolation s!"{o.name} ended before its opening cursor")
  | .item item => do
      replaceGeneration o item false
      modify fun s => { s with opened := true }
      pure .idle

/-- One round of the loop of `consume`. -/
def consume (next : Next Page Entry Cursor Notification) :
    M Page Entry Cursor Request Notification (Point Entry Cursor Request Notification) :=
  match next with
  | .failed error => throw error
  | .done => pure (.closed none)
  | .item item => do
      let s ← get
      if item.generation ≠ s.generation then do
        replaceGeneration o item true
        pure .idle
      else
        match item.value with
        | .opened _ _ =>
          throw (protocolViolation s!"{o.name} emitted more than one opening cursor")
        | .notification notification => do
            publishNotification notification
            pure .idle
        | .entry entry => do
            let repair ← acceptEntry o entry item.generation
            pure (repair.elim .idle .reading)

/-- `readPageWhileFollowing` when the pull settles before the page. -/
def readNext (repair : Repair Entry Cursor Request Notification)
    (next : Next Page Entry Cursor Notification) (aborted : Bool) :
    M Page Entry Cursor Request Notification (Point Entry Cursor Request Notification) :=
  match next with
  | .failed error => throw error
  | .done =>
    if aborted then throw .aborted
    else throw (protocolViolation s!"{o.name} ended while reading its replacement page")
  | .item item =>
    if item.generation ≠ repair.generation then do
      replaceGeneration o item true
      pure .idle
    else
      match item.value with
      | .opened _ _ =>
        throw (protocolViolation s!"{o.name} emitted more than one opening cursor")
      | .notification notification =>
        pure (.reading { repair with notifications := repair.notifications ++ [notification] })
      | .entry entry => pure (.reading { repair with queued := repair.queued ++ [entry] })

/-- `awaitReplacementGeneration` drops what the aborted generation still delivers. -/
def awaitNext (generation : ℕ) (next : Next Page Entry Cursor Notification)
    (streamAborted : Bool) :
    M Page Entry Cursor Request Notification (Point Entry Cursor Request Notification) :=
  match next with
  | .failed error => throw error
  | .done =>
    if streamAborted then throw .aborted
    else
      throw (protocolViolation s!"{o.name} ended while replacing an aborted page generation")
  | .item item =>
    if item.generation ≠ generation then do
      replaceGeneration o item true
      pure .idle
    else
      match item.value with
      | .opened _ _ =>
        throw (protocolViolation s!"{o.name} emitted more than one opening cursor")
      | _ => pure (.replacing generation)

/-- The continuation of the consumer with the result of its pull. -/
def onNext (point : Point Entry Cursor Request Notification)
    (next : Next Page Entry Cursor Notification) (aborted streamAborted : Bool) :
    Option (M Page Entry Cursor Request Notification (Point Entry Cursor Request Notification)) :=
  match point with
  | .opening => some (openFirst o next)
  | .idle => some (consume o next)
  | .reading repair => some (readNext o repair next aborted)
  | .replacing generation => some (awaitNext o generation next streamAborted)
  | .unopened | .closed _ => none

/-- `readPageWhileFollowing` when the page settles before the pull. -/
def readPage (repair : Repair Entry Cursor Request Notification) (page : Except Failure Page)
    (aborted streamAborted : Bool) :
    M Page Entry Cursor Request Notification (Point Entry Cursor Request Notification) :=
  match page with
  | .ok page =>
    if aborted then throw .aborted
    else do
      let again ← afterPage o repair page
      pure (again.elim .idle .reading)
  | .error error =>
    if aborted = false ∨ streamAborted = true then throw error
    else pure (.replacing repair.generation)

end Segments

/-- The stream with its consumer and the calls of `prepend` that wait for their page, each with
the cursor that it reads through. Beside them the Host's journal, and what the consumer has
taken from the iterator: the live entries, and the notifications with their generation. -/
structure State (Page Entry Cursor Request Notification : Type) where
  stream : Stream Page Entry Cursor Request Notification
  consumer : Point Entry Cursor Request Notification
  prepends : List (Request × Cursor)
  journal : List Entry
  delivered : List Entry
  arrived : List (ℕ × Notification)
  deriving DecidableEq, Repr

inductive Action (Page Entry Cursor Request Notification : Type)
  | append (entry : Entry)
  | open (request : Request)
  | next (result : Next Page Entry Cursor Notification) (aborted streamAborted : Bool)
  | page (result : Except Failure Page) (aborted streamAborted : Bool)
  | prepend (request : Request)
  | prepended (index : ℕ) (result : Except Failure Page) (aborted : Bool)
  | dispose
  deriving Repr

/-- A stream that was not opened, and an empty journal. -/
def init : State Page Entry Cursor Request Notification where
  stream := {
    initialRequest := none
    resumeCursor := none
    generation := 0
    firstCursor := none
    lastCursor := none
    started := false
    opened := false
    disposed := false
    published := []
    failed := [] }
  consumer := .unopened
  prepends := []
  journal := []
  delivered := []
  arrived := []

/-- A segment of the consumer is run. What it throws rejects `open`, or is reported unless the
stream is being disposed, and ends the consumer. -/
def settle (s : State Page Entry Cursor Request Notification)
    (segment : M Page Entry Cursor Request Notification
      (Point Entry Cursor Request Notification)) :
    State Page Entry Cursor Request Notification :=
  match segment s.stream with
  | .ok point stream => { s with stream := stream, consumer := point }
  | .error error stream =>
    let reported := stream.opened && !stream.disposed
    { s with
      stream := { stream with
        failed := if reported then stream.failed ++ [error] else stream.failed }
      consumer := .closed (some error) }

/-- The consumer takes the result of its pull. -/
def take (s : State Page Entry Cursor Request Notification)
    (next : Next Page Entry Cursor Notification) : State Page Entry Cursor Request Notification :=
  match next with
  | .item ⟨_, .entry entry⟩ => { s with delivered := s.delivered ++ [entry] }
  | .item ⟨generation, .notification notification⟩ =>
    { s with arrived := s.arrived ++ [(generation, notification)] }
  | _ => s

variable (o : Options Page Entry Cursor Request)

def step (s : State Page Entry Cursor Request Notification) :
    Action Page Entry Cursor Request Notification →
      Option (State Page Entry Cursor Request Notification)
  | .append entry => some { s with journal := s.journal ++ [entry] }
  | .open request =>
    if s.stream.started then some s
    else some { s with
      stream := { s.stream with started := true, initialRequest := some request }
      consumer := .opening }
  | .next result aborted streamAborted =>
    (onNext o s.consumer result aborted streamAborted).map (settle (take s result))
  | .page result aborted streamAborted =>
    match s.consumer with
    | .reading repair => some (settle s (readPage o repair result aborted streamAborted))
    | _ => none
  | .prepend request =>
    if s.stream.opened = false ∨ s.stream.disposed = true then some s
    else some { s with prepends := s.prepends ++ [(request, currentCursor o s.stream)] }
  | .prepended index result aborted =>
    match s.prepends[index]? with
    | none => none
    | some _ =>
      let rest := { s with prepends := s.prepends.eraseIdx index }
      match result with
      | .error _ => some rest
      | .ok page =>
        match prependPage o page aborted s.stream with
        | .ok _ stream | .error _ stream => some { rest with stream := stream }
  | .dispose => some { s with stream := { s.stream with disposed := true } }

/-- The environment: the journal is only appended to and its entries cover consecutive ranges.
A page is a slice of it, and a history page ends at or before the cursor it was read through.
The stream numbers its generations upwards. A live entry is one of the journal. An opening is a
complete current snapshot, so it is at or past every entry delivered before it. -/
def Admits (s : State Page Entry Cursor Request Notification) :
    Action Page Entry Cursor Request Notification → Prop
  | .append entry =>
    tailCursor o s.journal ⋖ o.first entry ∧ o.first entry ≤ o.last entry
  | .next (.item item) _ _ =>
    s.stream.generation ≤ item.generation ∧
      match item.value with
      | .opened cursor page =>
        o.entries page <:+: s.journal ∧ ∀ entry ∈ s.delivered, o.last entry ≤ cursor
      | .entry entry => entry ∈ s.journal
      | .notification _ => True
  | .page (.ok page) _ _ => o.entries page <:+: s.journal
  | .prepended index (.ok page) _ =>
    o.entries page <:+: s.journal ∧
      ∀ call ∈ s.prepends[index]?, ∀ entry ∈ o.entries page, o.last entry ≤ call.2
  | _ => True

end JournalStream

end TianmaCoder
