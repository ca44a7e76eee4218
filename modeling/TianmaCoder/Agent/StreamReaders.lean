import TianmaCoder.Agent.BlockAssembler
import TianmaCoder.Format.AssistantStream

/-!
# Reading a compact stream

The readers that answer a question about a compact stream from its records, without expanding
the members of a run, beside the same questions about one chunk. The readers trust the shape of
a record; a closing chunk without a block fails where its type is read.

## Main definitions

* `isTokenDelta`, `isVisibleChunk`, `chunkHasVisibleText` — the questions about one chunk.
* `assistantStreamFirstTokenTime`, `assistantStreamHasVisibleContent`,
  `assistantStreamHasVisibleText`, `joinAssistantStreamText`, `lastAssistantStreamChunk` — the
  readers of a stream.
-/

namespace TianmaCoder

/-! ## One chunk -/

/-- `/\S/.test(text)`. -/
def hasNonWhitespace (text : String) : Bool := text.toList.any fun c => !Text.isSpace c

def blockIsVisible (block : Json) : Bool :=
  match block.get? "type" with
  | some (.str "tool-call") => false
  | some (.str "text") => hasNonWhitespace (textMember block "text")
  | some (.str "reasoning") => hasNonWhitespace (textMember block "text")
  | _ => true

/-- A chunk that carries the first output token: a delta with a fragment, or a named call. -/
def isTokenDelta (chunk : Json) : Bool :=
  match chunk.get? "type" with
  | some (.str "text-delta") => chunk.get? "text" ≠ some (.str "")
  | some (.str "reasoning-delta") => chunk.get? "text" ≠ some (.str "")
  | some (.str "tool-call-delta") =>
    chunk.get? "argumentsDelta" ≠ some (.str "") || chunk.has "name"
  | _ => false

/-- A chunk that by itself adds content to the transcript. -/
def isVisibleChunk (chunk : Json) : Except String Bool :=
  match chunk.get? "type" with
  | some (.str "text-delta") => .ok (hasNonWhitespace (textMember chunk "text"))
  | some (.str "reasoning-delta") => .ok (hasNonWhitespace (textMember chunk "text"))
  | some (.str "block-start") =>
    .ok (textMember chunk "blockType" ∉ ["text", "reasoning", "tool-call"])
  | some (.str "block-end") => (closingBlock chunk).map blockIsVisible
  | _ => .ok false

/-- A chunk with visible text, streamed or closed. -/
def chunkHasVisibleText (chunk : Json) : Except String Bool :=
  match chunk.get? "type" with
  | some (.str "text-delta") => .ok (hasNonWhitespace (textMember chunk "text"))
  | some (.str "block-end") =>
    (closingBlock chunk).map fun block =>
      block.get? "type" = some (.str "text") && hasNonWhitespace (textMember block "text")
  | _ => .ok false

/-- The fragment of a text delta. -/
def textFragment (chunk : Json) : Option String :=
  if chunk.get? "type" = some (.str "text-delta") then some (textMember chunk "text") else none

/-! ## The records -/

/-- The items of an array member that its type declares as strings. -/
def stringsMember (record : Json) (k : String) : List String :=
  ((Json.arr? (record.get? k)).getD []).filterMap fun item => Json.str? (some item)

/-- The items of an array member that its type declares as numbers. -/
def gapsMember (record : Json) (k : String) : List ℤ :=
  ((Json.arr? (record.get? k)).getD []).filterMap fun item => Json.safeInt? (some item)

/-- A member that its type declares as a time. -/
def timeMember (record : Json) (k : String) : ℤ := (Json.safeInt? (record.get? k)).getD 0

/-- The raw chunk of a record. -/
def rawChunk (record : Json) : Option Json :=
  if record.get? "type" = some (.str "chunk") then some ((record.get? "chunk").getD .null)
  else none

/-- Scan the members of a run, each a gap after the one before it. -/
def scanMembers (predicate : String → Bool) : ℤ → List ℤ → List String → Option ℤ
  | _, _, [] => none
  | time, dt, fragment :: fragments =>
    if predicate fragment then some time
    else scanMembers predicate (time + dt.headD 0) dt.tail fragments

def firstRunMemberTime (run : Json) (predicate : String → Bool) : Option ℤ :=
  scanMembers predicate (timeMember run "time0") (gapsMember run "dt")
    (stringsMember run
      (if run.get? "type" = some (.str "tool-call-chunks") then "args" else "texts"))

/-- The time of the first member that is a token. -/
def runFirstTokenTime (run : Json) : Option ℤ :=
  if run.get? "type" = some (.str "tool-call-chunks") ∧ run.has "name" then
    some (timeMember run "time0")
  else firstRunMemberTime run fun fragment => fragment ≠ ""

/-- The time of the first member that is visible. -/
def runFirstVisibleTime (run : Json) : Option ℤ :=
  if run.get? "type" = some (.str "tool-call-chunks") then none
  else firstRunMemberTime run hasNonWhitespace

def assistantStreamFirstTokenTime (stream : List Json) : Option ℤ :=
  stream.findSome? fun record =>
    match rawChunk record with
    | some chunk => if isTokenDelta chunk then some (timeMember record "time") else none
    | none => runFirstTokenTime record

def assistantStreamHasVisibleContent (stream : List Json) : Except String Bool :=
  stream.anyM fun record =>
    match rawChunk record with
    | some chunk => isVisibleChunk chunk
    | none => .ok (runFirstVisibleTime record).isSome

def assistantStreamHasVisibleText (stream : List Json) : Except String Bool :=
  stream.anyM fun record =>
    if record.get? "type" = some (.str "text-chunks") then
      .ok ((stringsMember record "texts").any hasNonWhitespace)
    else
      match rawChunk record with
      | some chunk => chunkHasVisibleText chunk
      | none => .ok false

/-- The chunk types that are never packed. -/
inductive RawStreamChunkType where
  | blockStart
  | blockEnd
  | usage
  | finish
  deriving DecidableEq

def RawStreamChunkType.name : RawStreamChunkType → String
  | .blockStart => "block-start"
  | .blockEnd => "block-end"
  | .usage => "usage"
  | .finish => "finish"

/-- The last raw chunk of one type in an embedded stream, scanning backwards. -/
def lastAssistantStreamChunk (stream : List Json) (type : String) : Option Json :=
  (stream.reverse.find? fun record =>
    record.get? "type" = some (.str "chunk") ∧ record.path ["chunk", "type"] = some (.str type)).bind
      (·.get? "chunk")

/-- The text deltas joined in stream order. -/
def joinAssistantStreamText (stream : List Json) : String :=
  String.join (stream.filterMap fun record =>
    if record.get? "type" = some (.str "text-chunks") then
      some (joinedMember record "texts")
    else (rawChunk record).bind textFragment)

end TianmaCoder
