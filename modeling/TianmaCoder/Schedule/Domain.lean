import TianmaCoder.Lib.Checked
import TianmaCoder.Lib.Instant
import TianmaCoder.Lib.Json
import TianmaCoder.Lib.Text

/-!
# The durable vocabulary of reminders

A reminder fires once after a delay, once at an instant, or at a fixed rate. Every mutation is
one `schedule/change` event: a create, a delete, or a dispatch, which for a fixed-rate reminder
says when it was accepted. The decoder is strict: a change has exactly its keys, a text is
trimmed and an instant is canonical.

Numbers are exact here. A product or a sum that the doubles of the source would round lies
beyond every bound it is compared with, and the quotient of a fixed-rate decision is below the
precision at which its floor could change.

## Main definitions

* `ScheduleRecord`, `ScheduleChange` — the payloads, and `toJson` as the writers build them.
* `decodeScheduleChange` — the strict reader.
* `resolveEveryOccurrence` — the latest due occurrence of a fixed-rate reminder.
-/

namespace TianmaCoder

namespace Schedule

open Checked

def SCHEDULE_CHANGE_VERSION : ℤ := 1

def MIN_EVERY_INTERVAL_SECONDS : ℤ := 300

/-- What distinguishes the kinds of reminders. -/
inductive Rule where
  | after (afterSeconds : ℤ)
  | at
  | every (everySeconds : ℤ)
  deriving DecidableEq

def Rule.kind : Rule → String
  | .after _ => "after"
  | .at => "at"
  | .every _ => "every"

structure ScheduleRecord where
  id : String
  rule : Rule
  prompt : String
  scheduledAt : String
  deriving DecidableEq

inductive ScheduleChange where
  | create (schedule : ScheduleRecord)
  | delete (id : String)
  | dispatch (id : String) (acceptedAt : Option String)
  deriving DecidableEq

/-! ## Writing -/

/-- The members that only some kinds have. -/
def Rule.members : Rule → List (String × Json)
  | .after afterSeconds => [("afterSeconds", .int afterSeconds)]
  | .at => []
  | .every everySeconds => [("everySeconds", .int everySeconds)]

def ScheduleRecord.toJson (record : ScheduleRecord) : Json :=
  .obj ([("id", .str record.id), ("kind", .str record.rule.kind), ("prompt", .str record.prompt)]
    ++ record.rule.members ++ [("scheduledAt", .str record.scheduledAt)])

/-- The data of the event that commits a change. -/
def ScheduleChange.toJson : ScheduleChange → Json
  | .create schedule => .obj [("version", .int SCHEDULE_CHANGE_VERSION),
      ("operation", .str "create"), ("schedule", schedule.toJson)]
  | .delete id => .obj [("version", .int SCHEDULE_CHANGE_VERSION),
      ("operation", .str "delete"), ("id", .str id)]
  | .dispatch id acceptedAt => .obj ([("version", .int SCHEDULE_CHANGE_VERSION),
      ("operation", .str "dispatch"), ("id", .str id)]
      ++ acceptedAt.toList.map fun instant => ("acceptedAt", .str instant))

/-! ## Reading -/

/-- Require exactly the named durable object keys. -/
def hasExactKeys (value : Json) (expected : List String) : Bool :=
  match value with
  | .obj members =>
    (members.map Prod.fst).insertionSort (· ≤ ·) = expected.insertionSort (· ≤ ·)
  | _ => false

/-- A string that is not empty and already trimmed. -/
def trimmed (value : Option Json) (error : String) : Except String String :=
  match value with
  | some (.str s) => if s = "" ∨ Text.trim s ≠ s then throw error else pure s
  | _ => throw error

/-- Validate one stable session-local id at the durable boundary. -/
def decodeId (value : Option Json) : Except String String :=
  trimmed value "schedule id must be a non-empty string without surrounding whitespace"

/-- Validate one canonical four-digit-year UTC instant. -/
def decodeInstant (value : Option Json) : Except String String :=
  match value with
  | some (.str s) =>
    if Instant.isUtcInstant s then
      match Instant.parse s with
      | some epoch =>
        if Instant.toISOString epoch ≠ s then
          throw "scheduledAt is not a real UTC calendar instant"
        else pure s
      | none => throw "scheduledAt is not a real UTC calendar instant"
    else throw "scheduledAt must be a canonical four-digit-year RFC 3339 UTC instant"
  | _ => throw "scheduledAt must be a canonical four-digit-year RFC 3339 UTC instant"

/-- Decode the exact v1 after record shape. -/
def decodeAfterRecord (value : Json) : Except String ScheduleRecord :=
  if ¬hasExactKeys value ["id", "kind", "prompt", "afterSeconds", "scheduledAt"] then
    throw "after schedule must contain exactly id, kind, prompt, afterSeconds, and scheduledAt"
  else do
    let prompt ← trimmed (value.get? "prompt") "after prompt must be non-empty and already trimmed"
    match Json.safeInt? (value.get? "afterSeconds") with
    | some afterSeconds =>
      if afterSeconds ≤ 0 then throw "afterSeconds must be a positive safe integer"
      else do
        let id ← decodeId (value.get? "id")
        let scheduledAt ← decodeInstant (value.get? "scheduledAt")
        pure ⟨id, .after afterSeconds, prompt, scheduledAt⟩
    | none => throw "afterSeconds must be a positive safe integer"

/-- Decode the exact v1 absolute one-shot record shape. -/
def decodeAtRecord (value : Json) : Except String ScheduleRecord :=
  if ¬hasExactKeys value ["id", "kind", "prompt", "scheduledAt"] then
    throw "at schedule must contain exactly id, kind, prompt, and scheduledAt"
  else do
    let prompt ← trimmed (value.get? "prompt") "at prompt must be non-empty and already trimmed"
    let id ← decodeId (value.get? "id")
    let scheduledAt ← decodeInstant (value.get? "scheduledAt")
    pure ⟨id, .at, prompt, scheduledAt⟩

/-- Decode the exact v1 fixed-rate record shape. -/
def decodeEveryRecord (value : Json) : Except String ScheduleRecord :=
  let minimum := MIN_EVERY_INTERVAL_SECONDS
  if ¬hasExactKeys value ["id", "kind", "prompt", "everySeconds", "scheduledAt"] then
    throw "every schedule must contain exactly id, kind, prompt, everySeconds, and scheduledAt"
  else do
    let prompt ← trimmed (value.get? "prompt") "every prompt must be non-empty and already trimmed"
    match Json.safeInt? (value.get? "everySeconds") with
    | some everySeconds =>
      if everySeconds < MIN_EVERY_INTERVAL_SECONDS ∨ ¬Json.isSafeInteger (everySeconds * 1000) then
        throw s!"everySeconds must be a safe integer of at least {minimum}"
      else do
        let id ← decodeId (value.get? "id")
        let scheduledAt ← decodeInstant (value.get? "scheduledAt")
        pure ⟨id, .every everySeconds, prompt, scheduledAt⟩
    | none => throw s!"everySeconds must be a safe integer of at least {minimum}"

/-- Decode one current durable record variant by its exact discriminator. -/
def decodeScheduleRecord (value : Json) : Except String ScheduleRecord :=
  if ¬value.isObject then throw "schedule record must be an object"
  else if value.get? "kind" = some (.str "after") then decodeAfterRecord value
  else if value.get? "kind" = some (.str "at") then decodeAtRecord value
  else if value.get? "kind" = some (.str "every") then decodeEveryRecord value
  else throw "v1 schedule kind must be \"after\", \"at\", or \"every\""

/-- Decode a create. -/
def decodeCreate (value : Json) : Except String ScheduleChange :=
  if ¬hasExactKeys value ["version", "operation", "schedule"] then
    throw "schedule create must contain exactly version, operation, and schedule"
  else do
    let schedule ← decodeScheduleRecord ((value.get? "schedule").getD .null)
    pure (.create schedule)

/-- Decode a delete. -/
def decodeDelete (value : Json) : Except String ScheduleChange :=
  if ¬hasExactKeys value ["version", "operation", "id"] then
    throw "schedule delete must contain exactly version, operation, and id"
  else do
    let id ← decodeId (value.get? "id")
    pure (.delete id)

/-- Decode a dispatch, with or without its decision time. -/
def decodeDispatch (value : Json) : Except String ScheduleChange :=
  if hasExactKeys value ["version", "operation", "id"] then do
    let id ← decodeId (value.get? "id")
    pure (.dispatch id none)
  else if hasExactKeys value ["version", "operation", "id", "acceptedAt"] then do
    let id ← decodeId (value.get? "id")
    let acceptedAt ← decodeInstant (value.get? "acceptedAt")
    pure (.dispatch id (some acceptedAt))
  else throw "schedule dispatch must contain id and optional acceptedAt only"

/-- Decode one strict version-1 `schedule/change` payload. -/
def decodeScheduleChange (value : Json) : Except String ScheduleChange :=
  if ¬value.isObject then throw "schedule/change payload must be an object"
  else if value.get? "version" ≠ some (.int SCHEDULE_CHANGE_VERSION) then
    throw "schedule/change version must be 1"
  else if value.get? "operation" = some (.str "create") then decodeCreate value
  else if value.get? "operation" = some (.str "delete") then decodeDelete value
  else if value.get? "operation" = some (.str "dispatch") then decodeDispatch value
  else throw "schedule/change operation must be create, delete, or dispatch"

/-! ## Occurrences -/

/-- One latest-only fixed-rate decision. -/
structure EveryOccurrence where
  occurrenceAt : String
  nextScheduledAt : Option String
  deriving DecidableEq

/-- Resolve one fixed-rate decision; a time is absent where the source has `NaN`. -/
def resolveEveryOccurrence (everySeconds : ℤ) (scheduledAt : String) (acceptedAt : Option ℤ) :
    Except String EveryOccurrence :=
  let interval := everySeconds * 1000
  match acceptedAt with
  | none => throw "every acceptedAt must be a representable four-digit-year instant"
  | some acceptedAt =>
    if ¬Json.isSafeInteger acceptedAt ∨ acceptedAt < Instant.minFourDigitYear
        ∨ Instant.maxFourDigitYear < acceptedAt then
      throw "every acceptedAt must be a representable four-digit-year instant"
    else if ¬Json.isSafeInteger interval ∨ interval ≤ 0 then
      throw "every interval milliseconds must be a positive safe integer"
    else
      match Instant.parse scheduledAt with
      | none => throw "every occurrence arithmetic must stay within the accepted interval"
      | some target =>
        if acceptedAt < target then
          throw "every dispatch cannot precede the active scheduledAt"
        else
          let steps := (acceptedAt - target) / interval
          let occurrence := target + steps * interval
          if ¬Json.isSafeInteger occurrence ∨ occurrence < target ∨ acceptedAt < occurrence then
            throw "every occurrence arithmetic must stay within the accepted interval"
          else
            let next := occurrence + interval
            if ¬Json.isSafeInteger next ∨ Instant.maxFourDigitYear < next then
              pure ⟨Instant.toISOString occurrence, none⟩
            else
              pure ⟨Instant.toISOString occurrence, some (Instant.toISOString next)⟩

/-- Apply one decoded dispatch to its exact active record; `none` removes it. -/
def dispatchedRecord (record : ScheduleRecord) (acceptedAt : Option String) :
    Except String (Option ScheduleRecord) :=
  match record.rule, acceptedAt with
  | .every everySeconds, some acceptedAt => do
    let occurrence ← resolveEveryOccurrence everySeconds record.scheduledAt
      (Instant.parse acceptedAt)
    pure (occurrence.nextScheduledAt.map fun next => { record with scheduledAt := next })
  | .every _, none => throw "every dispatch must contain acceptedAt"
  | _, some _ => throw "one-shot dispatch must not contain acceptedAt"
  | _, none => pure none

end Schedule

end TianmaCoder
