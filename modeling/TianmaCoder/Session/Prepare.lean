import TianmaCoder.Session.Fork

/-!
# Session objects before they enter a store

A store prepares a session by validating its creation header and constructing the session over
a seed: a borrowed seed is replayed or forked, a restored one is adopted with the marker and
the cut its storage holds.

## Main definitions

* `SessionHeader`, `validateSessionHeader` — the creation metadata and its checks.
* `SessionObject` — a session with its header; `SessionObject.create`, `SessionObject.fromRestore`.
* `PrepareSessionOptions` — what a caller may supply.
-/

namespace TianmaCoder

open Checked

/-- `SESSION_FORMAT_VERSION` -/
def sessionFormatVersion : ℕ := 4

/-- Coarse product classification of a session. -/
inductive SessionOrigin where
  | subagent
  deriving DecidableEq, Repr

/-- Immutable creation metadata. -/
structure SessionHeader where
  version : ℕ := sessionFormatVersion
  id : String
  createdAt : ℤ
  cwd : Option String := none
  parentSession : Option String := none
  isSeeded : Bool := false
  origin : Option SessionOrigin := none
  delegationDepth : Option ℤ := none
  agentPreset : Option String := none

/-- `isAbsolute` of a POSIX path. -/
def isAbsolute (path : String) : Bool := path.toList.head? == some '/'

/-- A non-negative safe integer. -/
def isSafeCount (n : ℤ) : Bool := Json.isSafeInteger n && 0 ≤ n

/-- Validate one creation header for the session `id`. -/
def validateSessionHeader (id : String) (header : SessionHeader) : Except String Unit := do
  if header.version ≠ sessionFormatVersion then
    throw s!"session header version must be {sessionFormatVersion}, got {header.version}"
  if header.id ≠ id then
    throw s!"session header id \"{header.id}\" does not match session id \"{id}\""
  if !isSafeCount header.createdAt then
    throw "session header createdAt must be a non-negative safe integer"
  if let some cwd := header.cwd then
    if !isAbsolute cwd then
      throw s!"session header cwd must be an absolute path, got \"{cwd}\""
  if let some depth := header.delegationDepth then
    if !isSafeCount depth then
      throw "session header delegationDepth must be a non-negative safe integer"

/-- A session with its header. -/
structure SessionObject where
  header : SessionHeader
  session : Session

/-- The session identity, derived from the header's single copy. -/
def SessionObject.id (object : SessionObject) : String := object.header.id

variable (projections : List SessionMessageProjection)

namespace Session

/-- Accept one event as the next of the log, without publishing it. -/
def accept (s : Session) (call : AppendCall) : Session × Except String Unit :=
  match validateSessionEventData (s.candidate call)
      s!"session event \"{call.type.name}\" at seq {s.log.length}" with
  | .error message => (s, .error message)
  | .ok () => s.validateNext projections (s.candidate call)

/-- The cut checks of the constructor over an adopted seed. -/
def checkRestored (log : List SessionEvent) (seeded : Bool) (inherited : ℕ) :
    Except String Unit := do
  if !seeded && inherited != 0 then
    throw "unseeded session inherited event count must be 0"
  if log.length < inherited then
    throw "session inherited event count exceeds its event log"
  if (log[inherited]?).any SessionEvent.isInheritedMarker &&
      (log.drop (inherited + 1)).any SessionEvent.isInheritedMarker then
    throw "session inherited event count must identify the final inherited marker"

/-- `Session.fromRestore`: adopt a stored seed; the resume marker follows unless the log ends in
one. -/
def fromRestore (seed : List SessionEvent) (seeded : Bool) (inherited : ℕ) (now : ℤ) :
    Except String Session := do
  let s ← seed.zipIdx.foldlM (seedEvent projections) blank
  checkRestored s.events seeded inherited
  let s := { s with isSeeded := seeded, inheritedEventCount := inherited }
  if s.events.getLast?.any SessionEvent.isEndSeed then
    return s
  match s.append projections { type := .sessionEndSeed, data := .obj [], time := now } with
  | (_, .error message) => throw message
  | (s, .ok _) => return s

end Session

namespace SessionObject

/-- `Session.create` under a header; the constructor reads the seed before the header. -/
def create (id : String) (seed : Option (List SessionEvent)) (header : SessionHeader)
    (supplied : Option ℕ) (now : ℤ) : Except String SessionObject := do
  discard ((seed.getD []).zipIdx.foldlM (Session.seedEvent projections) Session.blank)
  validateSessionHeader id header
  let session ← Session.create projections seed header.isSeeded supplied now
  return { header := header, session := session }

/-- `Session.fromRestore` under a header; the constructor reads the header before the seed. -/
def fromRestore (id : String) (seed : List SessionEvent) (header : SessionHeader)
    (inherited : ℕ) (now : ℤ) : Except String SessionObject := do
  validateSessionHeader id header
  let session ← Session.fromRestore projections seed header.isSeeded inherited now
  return { header := header, session := session }

end SessionObject

/-- The metadata a caller of the store may supply. -/
structure SessionMeta where
  cwd : Option String := none
  parentSession : Option String := none
  createdAt : Option ℤ := none
  isSeeded : Option Bool := none
  origin : Option SessionOrigin := none
  delegationDepth : Option ℤ := none
  agentPreset : Option String := none

/-- The header the store folds caller metadata into. -/
def SessionMeta.header (metadata : SessionMeta) (id : String) (now : ℤ) : SessionHeader where
  id := id
  createdAt := metadata.createdAt.getD now
  cwd := metadata.cwd
  parentSession := metadata.parentSession
  isSeeded := metadata.isSeeded.getD false
  origin := metadata.origin
  delegationDepth := metadata.delegationDepth
  agentPreset := metadata.agentPreset

/-- Options for creating a session via the store. -/
structure CreateSessionOptions where
  seed : Option (List SessionEvent) := none
  inheritedEventCount : Option ℕ := none
  metadata : SessionMeta := {}

/-- Inputs accepted while constructing an unpublished session. -/
inductive PrepareSessionOptions where
  | create (options : CreateSessionOptions)
  | restore (seed : List SessionEvent) (header : SessionHeader) (inheritedEventCount : ℕ)

/-- Construct the session object of a prepared id. -/
def PrepareSessionOptions.build (id : String) (now : ℤ) :
    PrepareSessionOptions → Except String SessionObject
  | .create options =>
    SessionObject.create projections id options.seed (options.metadata.header id now)
      options.inheritedEventCount now
  | .restore seed header inherited =>
    SessionObject.fromRestore projections id seed header inherited now

variable {projections}

end TianmaCoder
