import TianmaCoder.Lib.Checked
import TianmaCoder.Lib.Json

/-!
# Compact assistant streams

The lossless compact representation of one model-stream attempt. Consecutive deltas of one
block pack into a run: a first time, the gaps to the following times, and the fragments.
Every other chunk is a raw record.

The three kinds of run differ in the block they name, so a run carries a `DeltaKey`; its
JSON members are those of the kind.

## Main definitions

* `AssistantStreamRecord`, `AssistantStreamRecord.toJson` — a compact record and its JSON.
* `AssistantStreamAccumulator.push` — add one timed chunk.
* `appendStreamRecord` — merge a record into a stream.
* `expandAssistantStream` — the validating expansion of a stream read from an event.
-/

namespace TianmaCoder

open Checked

/-- One model chunk with its session timestamp. -/
structure TimedStreamChunk where
  time : ℤ
  chunk : Json
  deriving DecidableEq

/-- The block a delta belongs to. -/
inductive DeltaKey where
  | text (index : ℕ)
  | reasoning (index : ℕ)
  | toolCall (index : ℕ) (id : String) (name : Option String)
  deriving DecidableEq

/-- A packed run of deltas, or a raw chunk. -/
inductive AssistantStreamRecord where
  | run (key : DeltaKey) (time0 : ℤ) (dt : List ℤ) (members : List String)
  | chunk (time : ℤ) (chunk : Json)
  deriving DecidableEq

namespace DeltaKey

/-- The `type` of a run over this block. -/
def runType : DeltaKey → String
  | .text _ => "text-chunks"
  | .reasoning _ => "reasoning-chunks"
  | .toolCall _ _ _ => "tool-call-chunks"

def index : DeltaKey → ℕ
  | .text index => index
  | .reasoning index => index
  | .toolCall index _ _ => index

/-- One delta of this block, as a chunk. -/
def delta : DeltaKey → String → Json
  | .text index, fragment =>
    .obj [("type", .str "text-delta"), ("index", .nat index), ("text", .str fragment)]
  | .reasoning index, fragment =>
    .obj [("type", .str "reasoning-delta"), ("index", .nat index), ("text", .str fragment)]
  | .toolCall index id name, fragment =>
    .obj ([("type", .str "tool-call-delta"), ("index", .nat index), ("id", .str id)]
      ++ name.toList.map (fun n => ("name", .str n)) ++ [("argumentsDelta", .str fragment)])

end DeltaKey

namespace AssistantStreamRecord

/-- The record as an event stores it. -/
def toJson : AssistantStreamRecord → Json
  | .run (.toolCall index id name) time0 dt members =>
    .obj ([("type", .str "tool-call-chunks"), ("time0", .int time0), ("index", .nat index),
        ("dt", .arr (dt.map .int)), ("id", .str id)]
      ++ name.toList.map (fun n => ("name", .str n)) ++ [("args", .arr (members.map .str))])
  | .run key time0 dt members =>
    .obj [("type", .str key.runType), ("time0", .int time0), ("index", .nat key.index),
      ("dt", .arr (dt.map .int)), ("texts", .arr (members.map .str))]
  | .chunk time value =>
    .obj [("type", .str "chunk"), ("time", .int time), ("chunk", value)]

/-- `recordLastTime`: the time of the last chunk of a record. -/
def lastTime : AssistantStreamRecord → ℤ
  | .run _ time0 dt _ => dt.foldl (· + ·) time0
  | .chunk time _ => time

end AssistantStreamRecord

/-! ## Accumulating -/

def safeTime (time : ℤ) : Except String ℤ :=
  if Json.isSafeInteger time then pure time
  else throw s!"Assistant stream time must be a safe integer, got {time}"

def safeIndex (value : Option Json) (label : String) : Except String ℕ :=
  match Json.count? value with
  | some index => pure index
  | none => throw s!"{label} index must be a non-negative safe integer"

def safeGap (previous next : ℤ) : Option ℤ :=
  let gap := next - previous
  if Json.isSafeInteger gap && previous + gap == next then some gap else none

def deltaText (chunk : Json) (member message : String) : Except String String :=
  match chunk.get? member with
  | some (.str s) => pure s
  | _ => throw message

/-- What `push` makes of a chunk: a delta to pack with its block, or a raw record. -/
def classifyChunk (chunk : Json) : Except String (Option (DeltaKey × String)) :=
  match chunk.get? "type" with
  | some (.str "text-delta") => do
    let index ← safeIndex (chunk.get? "index") "text-delta"
    let text ← deltaText chunk "text" "text-delta text must be a string"
    pure (some (.text index, text))
  | some (.str "reasoning-delta") => do
    let index ← safeIndex (chunk.get? "index") "reasoning-delta"
    let text ← deltaText chunk "text" "reasoning-delta text must be a string"
    pure (some (.reasoning index, text))
  | some (.str "tool-call-delta") => do
    let index ← safeIndex (chunk.get? "index") "tool-call-delta"
    let id ← deltaText chunk "id" "tool-call-delta id must be a string"
    let name ← match chunk.get? "name" with
      | none => pure none
      | some (.str name) => pure (some name)
      | some _ => throw "tool-call-delta name must be a string"
    let args ← deltaText chunk "argumentsDelta" "tool-call-delta argumentsDelta must be a string"
    if id = "" ∨ name = some "" then pure none
    else pure (some (.toolCall index id name, args))
  | some (.str "block-start") => pure none
  | some (.str "block-end") => pure none
  | some (.str "usage") => pure none
  | some (.str "finish") => pure none
  | _ => throw "AssistantStreamAccumulator.push: unexpected chunk"

/-- A record under construction, with the time of its last chunk. -/
structure MutableRecord where
  record : AssistantStreamRecord
  lastTime : ℤ
  deriving DecidableEq

/-- The incremental compactor of one attempt. -/
structure AssistantStreamAccumulator where
  records : List MutableRecord

namespace AssistantStreamAccumulator

def empty : AssistantStreamAccumulator := ⟨[]⟩

/-- The last record, when it is a run of the block that the time follows by a safe gap. -/
def extend (previous : Option MutableRecord) (key : DeltaKey) (text : String) (time : ℤ) :
    Option MutableRecord :=
  match previous with
  | some ⟨.run key' time0 dt members, lastTime⟩ =>
    if key' = key then
      (safeGap lastTime time).map fun gap =>
        ⟨.run key' time0 (dt ++ [gap]) (members ++ [text]), time⟩
    else none
  | _ => none

/-- Add one timed chunk. -/
def push (a : AssistantStreamAccumulator) (value : TimedStreamChunk) :
    Except String AssistantStreamAccumulator := do
  let time ← safeTime value.time
  match ← classifyChunk value.chunk with
  | none => pure ⟨a.records ++ [⟨.chunk time value.chunk, time⟩]⟩
  | some (key, text) =>
    match extend a.records.getLast? key text time with
    | some extended => pure ⟨a.records.dropLast ++ [extended]⟩
    | none => pure ⟨a.records ++ [⟨.run key time [] [text], time⟩]⟩

/-- The compact stream so far. -/
def snapshot (a : AssistantStreamAccumulator) : List AssistantStreamRecord :=
  a.records.map (·.record)

end AssistantStreamAccumulator

/-- Merge one record into the stream of an attempt. -/
def appendStreamRecord (stream : List MutableRecord) (source : AssistantStreamRecord)
    (lastTime : ℤ) : List MutableRecord :=
  match stream.getLast?, source with
  | some ⟨.run key' time0' dt' members', previousTime⟩, .run key time0 dt members =>
    let gap := time0 - previousTime
    if key' = key ∧ Json.isSafeInteger gap then
      stream.dropLast ++ [⟨.run key' time0' (dt' ++ gap :: dt) (members' ++ members), lastTime⟩]
    else stream ++ [⟨source, lastTime⟩]
  | _, _ => stream ++ [⟨source, lastTime⟩]

/-! ## Expanding -/

/-- The chunks of a run: the first at `time`, each further one a gap later. -/
def expandRun (key : DeltaKey) : ℤ → List ℤ → List String → List TimedStreamChunk
  | _, _, [] => []
  | time, dt, member :: members =>
    ⟨time, key.delta member⟩ :: expandRun key (time + dt.headD 0) dt.tail members

/-- The chunks of a validated record. -/
def AssistantStreamRecord.expand : AssistantStreamRecord → List TimedStreamChunk
  | .run key time0 dt members => expandRun key time0 dt members
  | .chunk time value => [⟨time, value⟩]

def exactKeys (record : List (String × Json)) (keys : List String) (label : String) :
    Except String Unit :=
  if record.length = keys.length ∧ keys.all ((Json.obj record).has ·) then pure ()
  else throw s!"{label} Assistant stream record must contain exactly {keys}"

/-- Every member as a string. -/
def stringArray (value : Option Json) (label : String) : Except String (List String) :=
  match Json.arr? value with
  | none => throw s!"{label} must be a string array"
  | some items =>
    items.mapM fun
      | .str s => pure s
      | _ => throw s!"{label} must be a string array"

/-- Every member as a safe integer. -/
def gapArray (value : Option Json) (label : String) : Except String (List ℤ) :=
  match Json.arr? value with
  | none => throw s!"{label} dt must contain safe integers"
  | some items =>
    items.mapM fun item =>
      match Json.safeInt? (some item) with
      | some gap => pure gap
      | none => throw s!"{label} dt must contain safe integers"

/-- Every member time of a run stays a safe integer. -/
def assertMemberTimes (label : String) : ℤ → List ℤ → Except String Unit
  | _, [] => pure ()
  | time, gap :: dt =>
    if Json.isSafeInteger (time + gap) then assertMemberTimes label (time + gap) dt
    else throw s!"{label} member times must stay safe integers"

/-- The first time, index and gaps of a run. -/
def validateRun (record : Json) (members : ℕ) (label : String) :
    Except String (ℤ × ℕ × List ℤ) := do
  let time0 ← match Json.safeInt? (record.get? "time0") with
    | some time0 => pure time0
    | none => throw "Assistant stream time must be a safe integer"
  let index ← safeIndex (record.get? "index") label
  let dt ← gapArray (record.get? "dt") label
  if dt.length ≠ members - 1 then
    throw s!"{label} dt length must be one less than its members"
  assertMemberTimes label time0 dt
  pure (time0, index, dt)

/-- Validate one stored record. -/
def validateRecord (value : Json) : Except String AssistantStreamRecord :=
  match value with
  | .obj record =>
    match value.get? "type" with
    | some (.str "text-chunks") => do
      exactKeys record ["type", "time0", "index", "dt", "texts"] "text-chunks"
      let texts ← stringArray (value.get? "texts") "text-chunks texts"
      if texts = [] then throw "text-chunks texts must be non-empty"
      let (time0, index, dt) ← validateRun value texts.length "text-chunks"
      pure (.run (.text index) time0 dt texts)
    | some (.str "reasoning-chunks") => do
      exactKeys record ["type", "time0", "index", "dt", "texts"] "reasoning-chunks"
      let texts ← stringArray (value.get? "texts") "reasoning-chunks texts"
      if texts = [] then throw "reasoning-chunks texts must be non-empty"
      let (time0, index, dt) ← validateRun value texts.length "reasoning-chunks"
      pure (.run (.reasoning index) time0 dt texts)
    | some (.str "tool-call-chunks") => do
      let keys := if value.has "name" then ["type", "time0", "index", "dt", "id", "name", "args"]
        else ["type", "time0", "index", "dt", "id", "args"]
      exactKeys record keys "tool-call-chunks"
      let args ← stringArray (value.get? "args") "tool-call-chunks args"
      if args = [] then throw "tool-call-chunks args must be non-empty"
      let id ← match Json.nonEmptyStr? (value.get? "id") with
        | some id => pure id
        | none => throw "tool-call-chunks id must be a non-empty string"
      let name ← match value.get? "name" with
        | none => pure none
        | some name =>
          match Json.nonEmptyStr? (some name) with
          | some name => pure (some name)
          | none => throw "tool-call-chunks name must be a non-empty string"
      let (time0, index, dt) ← validateRun value args.length "tool-call-chunks"
      pure (.run (.toolCall index id name) time0 dt args)
    | some (.str "chunk") => do
      exactKeys record ["type", "time", "chunk"] "chunk"
      let time ← match Json.safeInt? (value.get? "time") with
        | some time => pure time
        | none => throw "Assistant stream time must be a safe integer"
      match value.get? "chunk" with
      | some chunk =>
        if chunk.isObject then pure (.chunk time chunk)
        else throw "Assistant stream raw chunk must be a lossless JSON object"
      | none => throw "Assistant stream raw chunk must be a lossless JSON object"
    | _ => throw "Unsupported Assistant stream record"
  | _ => throw "Assistant stream record must be an object"

/-- Expand the compact records an event stores into the exact timed chunks. -/
def expandAssistantStream (stream : List Json) : Except String (List TimedStreamChunk) := do
  let records ← stream.mapM validateRecord
  pure (records.flatMap AssistantStreamRecord.expand)

end TianmaCoder
