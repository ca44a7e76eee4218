import TianmaCoder.Schedule.Fold

/-!
# The writers of the reminder stream

The tools create and delete reminders, the runtime dispatches what is due, and the handler of a
stopped session deletes everything that is active. Each decides from a fold of the log and one
reading of the clock; the definitions here give the changes it appends.

The time zone data are the runtime's; `TimeZones` stands for what `Intl` answers.

## Main definitions

* `allocateScheduleId` — the next unused id.
* `createChange`, `deleteChange` — the tools.
* `dueDecision`, `dispatchChanges` — the runtime.
* `stopChanges` — the stop handler.
-/

namespace TianmaCoder

namespace Schedule

open Checked

/-! ## Ids -/

def scheduleName (sequence : ℕ) : String := "schedule-" ++ toString sequence

/-- The loop of `allocateScheduleId`; as many ids as are used may be taken. -/
def allocateFrom (seen : List String) : ℕ → ℕ → String
  | 0, sequence => scheduleName sequence
  | more + 1, sequence =>
    if scheduleName sequence ∈ seen then allocateFrom seen more (sequence + 1)
    else scheduleName sequence

/-- Allocate the next readable id without reusing any prior session-local id. -/
def allocateScheduleId (folded : FoldedSchedules) : String :=
  let seen := folded.seenIds.foldl addSeen []
  allocateFrom seen seen.length (seen.length + 1)

/-! ## Rules -/

/-- A refused rule, under its public code. -/
structure ScheduleInputError where
  code : String
  message : String
  deriving DecidableEq

def timeOutOfRange : ScheduleInputError where
  code := "time_out_of_range"
  message := "The scheduled time must be representable as a four-digit-year RFC 3339 UTC instant."

/-- Require a safe, representable, strictly future UTC target. -/
def futureInstant (epoch now : ℤ) : Except ScheduleInputError String :=
  if ¬Json.isSafeInteger now ∨ ¬Json.isSafeInteger epoch ∨ epoch < Instant.minFourDigitYear
      ∨ Instant.maxFourDigitYear < epoch then throw timeOutOfRange
  else if epoch ≤ now then
    throw ⟨"not_future", "The scheduled time must be strictly in the future."⟩
  else if ¬Instant.isUtcInstant (Instant.toISOString epoch) then throw timeOutOfRange
  else pure (Instant.toISOString epoch)

def invalidPrompt : ScheduleInputError :=
  ⟨"invalid_prompt", "prompt must be non-empty after trimming."⟩

/-- Validate a model after rule and compute its durable target. -/
def createAfterScheduleRecord (id prompt : String) (afterSeconds : Json) (now : ℤ) :
    Except ScheduleInputError ScheduleRecord :=
  let prompt := Text.trim prompt
  if prompt = "" then throw invalidPrompt
  else
    match Json.safeInt? (some afterSeconds) with
    | some seconds =>
      if seconds ≤ 0 then
        throw ⟨"invalid_rule", "after_seconds must be a positive safe integer."⟩
      else do
        let scheduledAt ← futureInstant (now + seconds * 1000) now
        pure ⟨id, .after seconds, prompt, scheduledAt⟩
    | none => throw ⟨"invalid_rule", "after_seconds must be a positive safe integer."⟩

/-- Validate a fixed-rate selector and compute its first creation-aligned target. -/
def createEveryScheduleRecord (id prompt : String) (everySeconds : Json) (now : ℤ) :
    Except ScheduleInputError ScheduleRecord :=
  let minimum := MIN_EVERY_INTERVAL_SECONDS
  let prompt := Text.trim prompt
  if prompt = "" then throw invalidPrompt
  else
    match Json.safeInt? (some everySeconds) with
    | some seconds =>
      if seconds < MIN_EVERY_INTERVAL_SECONDS then
        throw ⟨"frequency_too_high", s!"every_seconds must be at least {minimum}."⟩
      else do
        let scheduledAt ← futureInstant (now + seconds * 1000) now
        pure ⟨id, .every seconds, prompt, scheduledAt⟩
    | none => throw ⟨"invalid_rule", "every_seconds must be a safe integer."⟩

/-! ## Absolute targets -/

def invalidDate : ScheduleInputError :=
  ⟨"invalid_rule", "The at value must be a real ISO calendar date and time."⟩

/-- Convert exact calendar fields to a UTC-shaped epoch while rejecting normalization. -/
def calendarEpoch (p : Instant.Parts) : Except ScheduleInputError ℤ :=
  if Instant.parts (Instant.epoch p) ≠ p then throw invalidDate else pure (Instant.epoch p)

/-- Read `.` and one to three digits as milliseconds, if they are there. -/
def readFraction (cs : List Char) : Option (ℕ × List Char) :=
  match cs with
  | '.' :: cs =>
    let ds := (cs.take 3).takeWhile Char.isDigit
    match ds with
    | [] => none
    | _ => (Instant.digits 3 0 ((ds ++ ['0', '0', '0']).take 3)).map fun r =>
      (r.1, cs.drop ds.length)
  | _ => some (0, cs)

/-- The suffix of an explicit-offset instant, with the epoch of its calendar fields. -/
def readZone (localEpoch : ℤ) (cs : List Char) : Except ScheduleInputError (Option ℤ) :=
  match cs with
  | ['Z'] => pure (some localEpoch)
  | [sign, h1, h0, ':', m1, m0] =>
    match Instant.digits 2 0 [h1, h0], Instant.digits 2 0 [m1, m0] with
    | some (hour, _), some (minute, _) =>
      if ¬(sign = '+' ∨ sign = '-') then pure none
      else if 23 < hour ∨ 59 < minute ∨ (sign = '-' ∧ hour = 0 ∧ minute = 0) then
        throw ⟨"invalid_rule", "The at numeric offset is invalid."⟩
      else
        let offset : ℤ := (hour * 60 + minute) * 60000
        pure (some (if sign = '+' then localEpoch - offset else localEpoch + offset))
    | _, _ => pure none
  | _ => pure none

def invalidOffsetShape : ScheduleInputError where
  code := "invalid_rule"
  message := "at must use YYYY-MM-DDTHH:mm:ss with optional 1-3 digit fractional seconds and "
    ++ "an explicit Z or numeric offset."

/-- Whether the text behind the calendar fields is `Z` or a numeric offset. -/
def isZone (cs : List Char) : Bool :=
  match cs with
  | ['Z'] => true
  | [sign, h1, h0, ':', m1, m0] =>
    (sign == '+' || sign == '-') && [h1, h0, m1, m0].all Char.isDigit
  | _ => false

/-- Parse a strict RFC 3339 instant whose numeric offset is part of the input. -/
def parseOffsetInstant (value : String) : Except ScheduleInputError ℤ :=
  match Instant.readDateTime value.toList with
  | none => throw invalidOffsetShape
  | some (p, cs) =>
    match readFraction cs with
    | none => throw invalidOffsetShape
    | some (millisecond, cs) =>
      if ¬isZone cs then throw invalidOffsetShape
      else if p.year = 0 ∨ 23 < p.hour ∨ 59 < p.minute ∨ 59 < p.second then throw invalidDate
      else do
        let localEpoch ← calendarEpoch { p with millisecond := millisecond }
        match ← readZone localEpoch cs with
        | some target => pure target
        | none => throw invalidOffsetShape

/-- What `Intl` answers about a time zone. -/
structure TimeZones where
  /-- `resolvedOptions().timeZone`, where the constructor does not throw. -/
  canonical : String → Option String
  /-- `localProjection`: the local fields of an instant and the offset that produced them. -/
  projection : String → ℤ → Except ScheduleInputError (Instant.Parts × ℤ)

/-- `[A-Za-z0-9_+.-]` -/
def isZoneChar (c : Char) : Bool := c.isAlphanum || c == '_' || c == '+' || c == '.' || c == '-'

/-- `Area/Location` -/
def isIanaZone (value : String) : Bool :=
  match value.toList.splitOn '/' with
  | (c :: area) :: location :: more =>
    c.isAlpha && area.all isZoneChar
      && (location :: more).all fun segment => segment ≠ [] && segment.all isZoneChar
  | _ => false

/-- Validate and canonicalize one raw IANA time-zone selector. -/
def canonicalizeTimeZone (zones : TimeZones) (value : String) :
    Except ScheduleInputError String :=
  let invalid : ScheduleInputError :=
    ⟨"invalid_time_zone", "time_zone must be UTC or a valid IANA Area/Location name."⟩
  if value = "" ∨ Text.trim value ≠ value ∨ (value ≠ "UTC" ∧ ¬isIanaZone value) then throw invalid
  else
    match zones.canonical value with
    | none => throw invalid
    | some canonical =>
      if canonical ≠ "UTC" ∧ ¬isIanaZone canonical then
        throw ⟨"invalid_time_zone", "time_zone must resolve to UTC or an IANA Area/Location name."⟩
      else pure canonical

/-- Parse strict local calendar fields without consulting a process time zone. -/
def parseLocalAt (date time : String) : Except ScheduleInputError Instant.Parts :=
  match Instant.readDateTime (date.toList ++ 'T' :: time.toList) with
  | none => throw ⟨"invalid_rule", "Local at requires date YYYY-MM-DD and time HH:mm:ss with "
      ++ "optional one-to-three digit milliseconds."⟩
  | some (p, cs) =>
    match readFraction cs with
    | some (millisecond, []) =>
      if p.year = 0 ∨ 23 < p.hour ∨ 59 < p.minute ∨ 59 < p.second then
        throw ⟨"invalid_rule", "The local at value must be a real ISO calendar date and time."⟩
      else do
        let _ ← calendarEpoch { p with millisecond := millisecond }
        pure { p with millisecond := millisecond }
    | _ => throw ⟨"invalid_rule", "Local at requires date YYYY-MM-DD and time HH:mm:ss with "
        ++ "optional one-to-three digit milliseconds."⟩

/-- The distinct offsets of a zone around a local time. -/
def sampledOffsets (zones : TimeZones) (timeZone : String) (localEpoch : ℤ) :
    Except ScheduleInputError (List ℤ) :=
  [-172800000, -86400000, 0, 86400000, 172800000].foldlM (fun offsets delta => do
    let sample := min Instant.maxFourDigitYear (max Instant.minFourDigitYear (localEpoch + delta))
    let projected ← zones.projection timeZone sample
    pure (if projected.2 ∈ offsets then offsets else offsets ++ [projected.2])) []

/-- Resolve a local wall-clock value, choosing the first instant in an overlap and rejecting a
gap. -/
def resolveLocalInstant (zones : TimeZones) (p : Instant.Parts) (timeZone : String) :
    Except ScheduleInputError ℤ := do
  let localEpoch ← calendarEpoch p
  let offsets ← sampledOffsets zones timeZone localEpoch
  let inRange := fun candidate : ℤ =>
    decide (Instant.minFourDigitYear ≤ candidate ∧ candidate ≤ Instant.maxFourDigitYear)
  let all := offsets.map fun offset => localEpoch - offset
  let candidates ← (all.filter inRange).filterMapM fun candidate => do
    let projected ← zones.projection timeZone candidate
    pure (if projected.1 = p then some candidate else none)
  match candidates.min? with
  | some first => pure first
  | none =>
    throw (if all.any fun candidate => !inRange candidate then timeOutOfRange
      else ⟨"invalid_rule", "The local at time does not exist in the selected time zone."⟩)

/-- The target of an absolute selector. -/
def resolveAt (zones : TimeZones) (value : Json) : Except ScheduleInputError ℤ :=
  match value with
  | .str text => parseOffsetInstant text
  | .obj _ =>
    if ¬hasExactKeys value ["date", "time", "time_zone"] then
      throw ⟨"invalid_rule", "Local at must contain exactly date, time, and time_zone."⟩
    else
      match value.get? "date", value.get? "time" with
      | some (.str date), some (.str time) =>
        match value.get? "time_zone" with
        | some (.str timeZone) => do
          let p ← parseLocalAt date time
          let canonical ← canonicalizeTimeZone zones timeZone
          resolveLocalInstant zones p canonical
        | _ => throw ⟨"invalid_time_zone", "time_zone must be a string."⟩
      | _, _ => throw ⟨"invalid_rule", "Local at date and time must be strings."⟩
  | _ => throw ⟨"invalid_rule", "at must be an explicit-offset string or local calendar object."⟩

/-- Validate an absolute selector and compute its sole durable UTC target. -/
def createAtScheduleRecord (zones : TimeZones) (id prompt : String) (value : Json) (now : ℤ) :
    Except ScheduleInputError ScheduleRecord :=
  let prompt := Text.trim prompt
  if prompt = "" then throw invalidPrompt
  else do
    let target ← resolveAt zones value
    let scheduledAt ← futureInstant target now
    pure ⟨id, .at, prompt, scheduledAt⟩

/-! ## The tools -/

/-- The arguments of `schedule_create`. -/
structure CreateArgs where
  prompt : String
  afterSeconds : Option Json
  atTarget : Option Json
  everySeconds : Option Json
  /-- A key besides the declared ones. -/
  hasOther : Bool

/-- Validate the v1 selector constraints that the open parameter root cannot express. -/
def validateCreateArgs (args : CreateArgs) : Except ScheduleInputError Unit :=
  let minimum := MIN_EVERY_INTERVAL_SECONDS
  if args.hasOther ∨
      args.afterSeconds.toList.length + args.atTarget.toList.length
        + args.everySeconds.toList.length ≠ 1 then
    throw ⟨"invalid_selector",
      "schedule_create accepts exactly one of after_seconds, at, or every_seconds."⟩
  else if Text.trim args.prompt = "" then throw invalidPrompt
  else if args.afterSeconds.any fun seconds => (Json.safeInt? (some seconds)).all (· ≤ 0) then
    throw ⟨"invalid_rule", "after_seconds must be a positive safe integer."⟩
  else if args.everySeconds.any fun seconds => (Json.safeInt? (some seconds)).isNone then
    throw ⟨"invalid_rule", "every_seconds must be a safe integer."⟩
  else if args.everySeconds.any fun seconds =>
      (Json.safeInt? (some seconds)).any (· < MIN_EVERY_INTERVAL_SECONDS) then
    throw ⟨"frequency_too_high", s!"every_seconds must be at least {minimum}."⟩
  else pure ()

/-- The record of `schedule_create`, under an allocated id. -/
def createRecord (zones : TimeZones) (id : String) (args : CreateArgs) (now : ℤ) :
    Except ScheduleInputError ScheduleRecord :=
  match args.atTarget, args.afterSeconds with
  | some target, _ => createAtScheduleRecord zones id args.prompt target now
  | none, some seconds => createAfterScheduleRecord id args.prompt seconds now
  | none, none =>
    createEveryScheduleRecord id args.prompt (args.everySeconds.getD .null) now

/-- The change that `schedule_create` appends. -/
def createChange (zones : TimeZones) (args : CreateArgs) (folded : FoldedSchedules) (now : ℤ) :
    Except ScheduleInputError ScheduleChange := do
  validateCreateArgs args
  let record ← createRecord zones (allocateScheduleId folded) args now
  pure (.create record)

/-- The change that `schedule_delete` appends, if the id is active. -/
def deleteChange (id : String) (folded : FoldedSchedules) :
    Except ScheduleInputError (Option ScheduleChange) :=
  if id = "" ∨ Text.trim id ≠ id then
    throw ⟨"invalid_rule",
      "schedule_delete id must be non-empty without surrounding whitespace."⟩
  else if folded.active.any fun record => record.id = id then pure (some (.delete id))
  else pure none

/-! ## The runtime and the stop handler -/

/-- What is to be done now. -/
inductive DueDecision where
  | oneShot (record : ScheduleRecord)
  | every (reminders : List (ScheduleRecord × String)) (acceptedAt : String)
  | wait (target : Option ℤ)
  deriving DecidableEq

/-- `Date.parse(record.scheduledAt) <= now`; an unreadable target is never due. -/
def isDue (now : ℤ) (record : ScheduleRecord) : Bool :=
  (Instant.parse record.scheduledAt).any fun target => target ≤ now

/-- Sorted by target; records with the same target keep their create order. -/
def byTargetThenCreate (records : List ScheduleRecord) : List ScheduleRecord :=
  let target := fun record : ScheduleRecord => (Instant.parse record.scheduledAt).getD 0
  (records.zipIdx.insertionSort fun a b =>
    target a.1 < target b.1 ∨ (target a.1 = target b.1 ∧ a.2 ≤ b.2)).map Prod.fst

def ScheduleRecord.everySeconds? (record : ScheduleRecord) : Option ℤ :=
  match record.rule with
  | .every seconds => some seconds
  | _ => none

/-- The earliest target after `now`. -/
def nextTarget (records : List ScheduleRecord) (now : ℤ) : Option ℤ :=
  ((records.filterMap fun record => Instant.parse record.scheduledAt).filter (now < ·)).min?

/-- One reminder of a fixed-rate batch, with its latest due occurrence. -/
def everyDue (now : ℤ) (record : ScheduleRecord) : Except String (ScheduleRecord × String) := do
  let occurrence ← resolveEveryOccurrence (record.everySeconds?.getD 0) record.scheduledAt (some now)
  pure (record, occurrence.occurrenceAt)

/-- Select one due one-shot, one complete fixed-rate batch, or the next wake. -/
def dueDecision (folded : FoldedSchedules) (now : ℤ) : Except String DueDecision :=
  match byTargetThenCreate (folded.active.filter fun record =>
      record.everySeconds?.isNone && isDue now record) with
  | record :: _ => pure (.oneShot record)
  | [] =>
    match byTargetThenCreate (folded.active.filter fun record =>
        record.everySeconds?.isSome && isDue now record) with
    | [] => pure (.wait (nextTarget folded.active now))
    | every => do
      let reminders ← every.mapM (everyDue now)
      pure (.every reminders (Instant.toISOString now))

/-- The changes that a drive appends for a decision. -/
def dispatchChanges : DueDecision → List ScheduleChange
  | .oneShot record => [.dispatch record.id none]
  | .every reminders acceptedAt =>
    reminders.map fun reminder => .dispatch reminder.1.id (some acceptedAt)
  | .wait _ => []

/-- The changes that the stop handler appends. -/
def stopChanges (folded : FoldedSchedules) : List ScheduleChange :=
  folded.active.map fun record => .delete record.id

end Schedule

end TianmaCoder
