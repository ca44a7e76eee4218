import Mathlib.Data.List.Basic
import TianmaCoder.Lib.Json
import TianmaCoder.Lib.Text
import TianmaCoder.Tokens.Estimate

/-!
# Team records and command arguments

The identities and durable records of an agent team, the failures of its commands, and the
normalisation of their text arguments.

## Main definitions

* `TeamMemberSnapshot`, `TeamTaskSnapshot`, `TeamMessageSnapshot` — the durable records.
* `TeamState` — the current team, as the log of its lead gives it.
* `requiredText`, `writeScope` — argument normalisation.
-/

namespace TianmaCoder

namespace Team

/-! ### Records -/

/-- Durable teammate lifecycle. -/
inductive TeamMemberPhase where
  | provisioning
  | active
  | failed
  deriving DecidableEq, Repr

/-- How a teammate starts. -/
inductive TeamMemberContext where
  | fresh
  | fork
  deriving DecidableEq, Repr

/-- Whole durable value written on every teammate lifecycle change. -/
structure TeamMemberSnapshot where
  id : String
  name : String
  description : String
  provider : String
  context : TeamMemberContext
  phase : TeamMemberPhase
  error : Option String
  deriving DecidableEq, Repr

/-- Durable task lifecycle. -/
inductive TeamTaskStatus where
  | pending
  | inProgress
  | completed
  | deleted
  deriving DecidableEq, Repr

/-- Whole durable task snapshot; every mutation increments its revision. -/
structure TeamTaskSnapshot where
  id : String
  revision : ℕ
  subject : String
  description : String
  status : TeamTaskStatus
  ownerId : Option String
  blockedBy : List String
  writeScopes : List String
  deriving DecidableEq, Repr

/-- One peer message retained until its target session records it. -/
structure TeamMessageSnapshot where
  id : String
  senderId : String
  senderName : String
  targetId : String
  content : List Json
  deriving DecidableEq

/-- Current team selected by durable team identity. -/
structure TeamState where
  id : String
  members : List TeamMemberSnapshot
  tasks : List TeamTaskSnapshot
  messages : List TeamMessageSnapshot
  delivered : List String
  nextTaskNumber : ℕ
  deriving DecidableEq

/-! ### Failures -/

/-- Stable code of a team failure. -/
inductive TeamErrorCode where
  | invalidArgument
  | invalidWriteScope
  | invalidMemberName
  | invalidTarget
  | leadRequired
  | memberNotFound
  | memberNameTaken
  | memberLimit
  | provisioningConflict
  | taskLimit
  | taskNotFound
  | taskStaleRevision
  | taskDeleted
  | taskUnauthorized
  | taskAlreadyClaimed
  | taskBlocked
  | taskInvalidTransition
  | taskHasDependents
  | taskDependencyCycle
  | selfMessage
  | mailboxFull
  | messageTooLarge
  deriving DecidableEq, Repr

/-- Stable failure raised by the team domain. -/
structure TeamError where
  message : String
  code : TeamErrorCode
  deriving DecidableEq, Repr

/-- Why a command rejects. -/
inductive CommandFailure where
  | team (error : TeamError)
  /-- The team projection has failed before. -/
  | projection (failure : String)
  /-- The caller has cancelled. -/
  | aborted
  /-- The appended event could not be made durable. -/
  | flush
  deriving DecidableEq, Repr

/-- The rejection with a team failure. -/
def reject {α : Type} (message : String) (code : TeamErrorCode) : Except CommandFailure α :=
  .error (.team { message, code })

@[simp] theorem reject_eq {α : Type} (message : String) (code : TeamErrorCode) :
    (reject message code : Except CommandFailure α) = .error (.team { message, code }) := rfl

/-! ### Argument normalisation -/

/-- Normalise one required human-authored string. -/
def requiredText (value field : String) (maxLength : ℕ) : Except CommandFailure String :=
  let text := Text.trim value
  if utf16Length text = 0 then reject s!"{field} must be non-empty" .invalidArgument
  else if maxLength < utf16Length text then
    reject s!"{field} exceeds {maxLength} characters" .invalidArgument
  else .ok text

/-- `/^[a-z]:/iu`, where case folding adds the long s and the Kelvin sign. -/
def startsWithDrive : List Char → Bool
  | c :: ':' :: _ => c.isAlpha || c.toNat = 0x17F || c.toNat = 0x212A
  | _ => false

/-- Normalise one workspace-relative path without treating it as a lock. -/
def writeScope (value : String) : Except CommandFailure String :=
  let slashed := value.toList.map fun c => if c = '\\' then '/' else c
  let relative := match slashed with
    | '.' :: '/' :: rest => rest
    | cs => cs
  let normalized := (relative.reverse.dropWhile (· = '/')).reverse
  let segments := normalized.splitOn '/'
  if normalized.isEmpty || normalized.head? = some '/' || startsWithDrive normalized
      || segments.any (fun segment => segment.isEmpty || segment = ['.'] || segment = ['.', '.']) then
    reject s!"invalid workspace-relative write scope {Text.quoted value}" .invalidWriteScope
  else .ok (String.ofList normalized)

example : writeScope "./src\\lib//" = .ok "src/lib" := by decide

end Team

end TianmaCoder
