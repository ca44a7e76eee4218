import TianmaCoder.Lib.OrderedMap
import TianmaCoder.Lib.Text
import TianmaCoder.Session.Invariant

/-!
# Assembling an assistant message from its stream

The assembler concatenates the deltas of each block index and lets a closing record decide the
block. A block that stays open assembles from its deltas when its type is known; a block of
another type cannot be assembled before it is closed. The stream embedded in an assistant event
is fed record by record, a packed run as one delta. The members of a chunk are read at their
declared types.

## Main definitions

* `BlockAssembler.push`, `BlockAssembler.assembled` — the assembly state and its result.
* `BlockAssembler.interruptedBlocks` — the prefix that an interrupted stream can keep.
* `assembleAssistantStream` — an embedded stream fed to an assembler, a fresh one by default.
-/

namespace TianmaCoder

/-- A member that its type declares as a string. -/
def textMember (value : Json) (k : String) : String := (Json.str? (value.get? k)).getD ""

/-- The block of a closing chunk, once its type is read. -/
def closingBlock (chunk : Json) : Except String Json :=
  match chunk.get? "block" with
  | none => .error "Cannot read properties of undefined (reading 'type')"
  | some .null => .error "Cannot read properties of null (reading 'type')"
  | some block => .ok block

structure PartialBlock where
  blockType : String
  text : String
  toolCallId : Option String
  toolCallName : Option String
  toolCallArguments : String
  /-- Set by the closing record, which freezes the partial. -/
  block : Option Json
  deriving DecidableEq

/-- The assembly state: the partials in stream order, and the closing records of the stream. -/
structure BlockAssembler where
  partials : OrderedMap Json PartialBlock
  usage : Option Json
  finish : Option Json
  replayState : Option Json
  deriving DecidableEq

namespace BlockAssembler

def init : BlockAssembler := ⟨[], none, none, none⟩

def emptyPartial (blockType : String) : PartialBlock := ⟨blockType, "", none, none, "", none⟩

/-- The partial of an index, a new one of this type when the index is unseen. -/
def ensure (assembler : BlockAssembler) (index : Json) (blockType : String) : PartialBlock :=
  (assembler.partials.lookup index).getD (emptyPartial blockType)

/-- Change the partial of an index unless a closing record froze it. -/
def update (assembler : BlockAssembler) (index : Json) (blockType : String)
    (change : PartialBlock → PartialBlock) : BlockAssembler :=
  let current := assembler.ensure index blockType
  { assembler with
    partials := OrderedMap.set index (if current.block.isSome then current else change current)
      assembler.partials }

/-- Feed one chunk into the assembly state. -/
def push (assembler : BlockAssembler) (chunk : Json) : Except String BlockAssembler :=
  let index := (chunk.get? "index").getD .null
  match chunk.get? "type" with
  | some (.str "block-start") =>
    .ok (assembler.update index (textMember chunk "blockType") id)
  | some (.str "text-delta") =>
    .ok (assembler.update index "text" fun current =>
      { current with text := current.text ++ textMember chunk "text" })
  | some (.str "reasoning-delta") =>
    .ok (assembler.update index "reasoning" fun current =>
      { current with text := current.text ++ textMember chunk "text" })
  | some (.str "tool-call-delta") =>
    .ok (assembler.update index "tool-call" fun current =>
      { current with
        toolCallId := Json.str? (chunk.get? "id")
        toolCallName :=
          if textMember chunk "name" = "" then current.toolCallName
          else some (textMember chunk "name")
        toolCallArguments := current.toolCallArguments ++ textMember chunk "argumentsDelta" })
  | some (.str "block-end") =>
    (closingBlock chunk).map fun block =>
      assembler.update index (textMember block "type") fun current =>
        { current with block := some block }
  | some (.str "usage") => .ok { assembler with usage := chunk.get? "usage" }
  | some (.str "finish") =>
    .ok { assembler with finish := chunk.get? "reason", replayState := chunk.get? "replayState" }
  | type => .error s!"BlockAssembler.push: unexpected value {shown type}"

/-- One block from its partial. -/
def assemble (index : Json) (current : PartialBlock) : Except String Json :=
  match current.block with
  | some block => .ok block
  | none =>
    match current.blockType with
    | "text" => .ok (.obj [("type", .str "text"), ("text", .str current.text)])
    | "reasoning" => .ok (.obj [("type", .str "reasoning"), ("text", .str current.text)])
    | "tool-call" =>
      .ok (.obj [("type", .str "tool-call"),
        ("id", .str (current.toolCallId.getD s!"call-{shown (some index)}")),
        ("name", .str (current.toolCallName.getD "")),
        ("arguments", .str current.toolCallArguments)])
    | blockType => .error s!"cannot assemble incomplete block of type \"{blockType}\""

/-- Truncation at the token limit drops the tool calls. -/
def truncated (assembler : BlockAssembler) : Bool :=
  (assembler.finish.bind (·.get? "kind")) = some (.str "max-tokens")

/-- A block that truncation keeps. -/
def keeps (assembler : BlockAssembler) (block : Json) : Bool :=
  !(assembler.truncated && block.get? "type" = some (.str "tool-call"))

/-- The replay metadata, with its entries pruned in step with the blocks. -/
def prunedReplay (assembler : BlockAssembler) (all : List Json) : Option Json :=
  assembler.replayState.bind fun envelope =>
    match envelope.get? "blocks" with
    | some (.arr entries) =>
      if entries.length ≠ all.length then none
      else if all.all assembler.keeps then some envelope
      else some (.obj [("response", (envelope.get? "response").getD .null),
        ("blocks", .arr (((entries.zip all).filter fun pair => assembler.keeps pair.2).map
          Prod.fst))])
    | _ => some envelope

/-- The one keep-or-drop decision over all seen blocks. -/
def assembled (assembler : BlockAssembler) : Except String (List Json × Option Json) := do
  let all ← assembler.partials.mapM fun entry => assemble entry.1 entry.2
  pure (all.filter assembler.keeps, assembler.prunedReplay all)

/-- Assemble all blocks seen so far, in stream order. -/
def blocks (assembler : BlockAssembler) : Except String (List Json) :=
  assembler.assembled.map Prod.fst

/-- The replay metadata beside the blocks. -/
def replay (assembler : BlockAssembler) : Except String (Option Json) :=
  assembler.assembled.map Prod.snd

/-- The finish reason, a plain stop when the stream ended without one. -/
def finishReason (assembler : BlockAssembler) : Json :=
  match assembler.finish with
  | none | some .null => .obj [("kind", .str "stop")]
  | some reason => reason

/-- The type under which an interruption sees a partial. -/
def seenType (current : PartialBlock) : Json :=
  match current.block.bind (·.get? "type") with
  | none | some .null => .str current.blockType
  | some type => type

/-- A text or reasoning block with content. -/
def hasContent (block : Json) : Bool :=
  (block.get? "type" = some (.str "text") || block.get? "type" = some (.str "reasoning")) &&
    Text.trim (textMember block "text") ≠ ""

/-- The text and reasoning blocks that an interrupted stream can finalize. -/
def interruptedBlocks (assembler : BlockAssembler) : Except String (List Json) := do
  let seen ← assembler.partials.mapM fun entry =>
    if seenType entry.2 = .str "text" ∨ seenType entry.2 = .str "reasoning" then
      (assemble entry.1 entry.2).map some
    else .ok none
  pure (seen.reduceOption.filter hasContent)

end BlockAssembler

/-- A partial that assembles: closed, or open with a type that has deltas. -/
def PartialBlock.Assembles (current : PartialBlock) : Prop :=
  current.block.isSome = true ∨ current.blockType ∈ ["text", "reasoning", "tool-call"]

theorem BlockAssembler.assemble_isOk_iff (index : Json) (current : PartialBlock) :
    (∃ block, assemble index current = .ok block) ↔ current.Assembles := by
  unfold assemble PartialBlock.Assembles
  cases hblock : current.block with
  | some block => simp
  | none =>
    simp only [Option.isSome_none, Bool.false_eq_true, false_or]
    constructor
    · intro h
      split at h
      · next htype => simp [htype]
      · next htype => simp [htype]
      · next htype => simp [htype]
      · obtain ⟨block, h⟩ := h
        cases h
    · intro h
      simp only [List.mem_cons, List.not_mem_nil, or_false] at h
      rcases h with h | h | h <;> rw [h] <;> exact ⟨_, rfl⟩

/-- The blocks of a stream assemble when each of its partials does. -/
theorem BlockAssembler.blocks_isOk_iff (assembler : BlockAssembler) :
    (∃ blocks, assembler.blocks = .ok blocks) ↔
      ∀ entry ∈ assembler.partials, entry.2.Assembles := by
  have hall : (∃ blocks, assembler.blocks = .ok blocks) ↔
      ∃ all, (assembler.partials.mapM fun entry => assemble entry.1 entry.2) = .ok all := by
    unfold blocks assembled
    cases assembler.partials.mapM fun entry => assemble entry.1 entry.2 with
    | error message => simp [Except.map, bind, Except.bind]
    | ok all => simp [Except.map, bind, Except.bind, pure, Except.pure]
  rw [hall]
  induction assembler.partials with
  | nil => simp [pure, Except.pure]
  | cons entry entries ih =>
    have hcons : (∃ all, ((entry :: entries).mapM fun entry => assemble entry.1 entry.2)
          = .ok all) ↔
        (∃ block, assemble entry.1 entry.2 = .ok block) ∧
          ∃ all, (entries.mapM fun entry => assemble entry.1 entry.2) = .ok all := by
      rw [List.mapM_cons]
      cases assemble entry.1 entry.2 with
      | error message => simp [bind, Except.bind]
      | ok block =>
        cases entries.mapM fun entry => assemble entry.1 entry.2 with
        | error message => simp [bind, Except.bind]
        | ok all => simp [bind, Except.bind, pure, Except.pure]
    rw [List.forall_mem_cons]
    exact hcons.trans (and_congr (assemble_isOk_iff entry.1 entry.2) ih)

/-- The joined fragments of a packed run. -/
def joinedMember (record : Json) (k : String) : String :=
  String.join (((Json.arr? (record.get? k)).getD []).filterMap fun fragment =>
    Json.str? (some fragment))

/-- The chunk that a record feeds: a packed run contributes one delta. -/
def recordChunk (record : Json) : Except String Json :=
  let index := (record.get? "index").getD .null
  match record.get? "type" with
  | some (.str "chunk") => .ok ((record.get? "chunk").getD .null)
  | some (.str "text-chunks") =>
    .ok (.obj [("type", .str "text-delta"), ("index", index),
      ("text", .str (joinedMember record "texts"))])
  | some (.str "reasoning-chunks") =>
    .ok (.obj [("type", .str "reasoning-delta"), ("index", index),
      ("text", .str (joinedMember record "texts"))])
  | some (.str "tool-call-chunks") =>
    .ok (.obj ([("type", .str "tool-call-delta"), ("index", index),
        ("id", (record.get? "id").getD .null)]
      ++ (match record.get? "name" with
        | some name => [("name", name)]
        | none => [])
      ++ [("argumentsDelta", .str (joinedMember record "args"))]))
  | type => .error s!"assembleAssistantStream: unexpected value {shown type}"

/-- Feed one compact stream into an assembler. -/
def assembleAssistantStream (stream : List Json) (assembler : BlockAssembler := .init) :
    Except String BlockAssembler :=
  stream.foldlM (fun assembler record => recordChunk record >>= assembler.push) assembler

end TianmaCoder
