import TianmaCoder.Lib.Splice
import TianmaCoder.Session.Surface
import TianmaCoder.Tokens.Estimate

/-!
# Positional pricing of the surface

The priced surface keeps one node for every position of the session surface. Planning runs
every fallible step of a transition on the current nodes, and the commit is infallible, so a
refused event leaves the nodes as they were.

## Main definitions

* `MeterSurfaceNode` — a priced node with the attachments that route pricing replaces.
* `planSurfaceTokens`, `commitSurfaceTokens` — one transition and its commit.
-/

namespace TianmaCoder

/-! ## Surface events -/

/-- A member that its payload declares as a position. -/
def seqMember (value : Json) (k : String) : ℕ := (Json.count? (value.get? k)).getD 0

/-- The operation of an event that is surface-eligible and carries its marker. -/
def isSurfaceEvent (event : SessionEvent) : Option SurfaceOp :=
  if event.type.isSurfaceEligible then
    event.surfaceOp.map fun op =>
      if op = .str "append" then .append
      else .replace (seqMember op "startSeq") (seqMember op "endSeq")
  else none

/-! ## Priced nodes -/

/-- A surface position and its price under the fixed heuristic. -/
structure PricedNode where
  seq : ℕ
  heuristicTokens : ℕ
  deriving DecidableEq

/-- One priced surface node with the attachment occurrences that route pricing replaces. -/
structure MeterSurfaceNode extends PricedNode where
  imageStructuralTokens : ℕ
  fileStructuralTokens : ℕ
  /-- Durable image blocks in message order, offload marks included. -/
  images : List Json
  /-- Durable file references in message order. -/
  files : List Json
  deriving DecidableEq

/-- The total of the heuristic prices over a priced surface. -/
def heuristicTotal (nodes : List PricedNode) : ℕ := (nodes.map (·.heuristicTokens)).sum

/-- Commit position: the tail, or an inclusive index range. -/
inductive SurfaceTarget where
  | append
  | replace (startIdx endIdx : ℕ)
  deriving DecidableEq

/-- One validated surface transition that has not changed the priced surface yet. -/
structure SurfaceTokenPlan (Node : Type) where
  tokens : ℕ
  deltaTokens : ℤ
  node : Node
  target : SurfaceTarget

section Analysis

variable [NumberText]

/-- The image blocks of a message, in order. -/
def imageBlocks (blocks : List Json) : List Json :=
  blocks.filter fun block => block.get? "type" = some (.str "image")

/-- The file blocks of a message, in order. -/
def fileBlocks (blocks : List Json) : List Json :=
  blocks.filter fun block => block.get? "type" = some (.str "file")

/-- Build one priced node from a surface event's derived message. -/
def analyzeNode (seq : ℕ) (message : Option Json) : MeterSurfaceNode :=
  match message with
  | none => ⟨⟨seq, 0⟩, 0, 0, [], []⟩
  | some message =>
    let images := imageBlocks (contentOf message)
    let files := fileBlocks (contentOf message)
    { seq := seq
      heuristicTokens := estimateMessage message
      imageStructuralTokens := (images.map estimateStructuralBlock).sum
      fileStructuralTokens := (files.map estimateStructuralBlock).sum
      images := images
      files := files.map fun block => (block.get? "attachment").getD .null }

end Analysis

/-! ## Planning and committing -/

section Plan

variable [NumberText]

/-- Validate and price one surface event without changing the surface. -/
def planSurfaceTokens (nodes : List PricedNode) (event : SessionEvent) (op : SurfaceOp) :
    Except String (SurfaceTokenPlan MeterSurfaceNode) :=
  let node := analyzeNode event.seq (deriveEventMessage event [])
  let tokens := node.heuristicTokens
  match op with
  | .append => .ok ⟨tokens, tokens, node, .append⟩
  | .replace startSeq endSeq =>
    match nodes.findIdx? (fun candidate => candidate.seq = startSeq),
        nodes.findIdx? (fun candidate => candidate.seq = endSeq) with
    | some startIdx, some endIdx =>
      if endIdx < startIdx then
        .error s!"token surface: replace at seq {event.seq} has invalid current range {startSeq}-{endSeq}"
      else
        let removed := heuristicTotal (Splice.segment nodes startIdx endIdx)
        .ok ⟨tokens, (tokens : ℤ) - removed, node, .replace startIdx endIdx⟩
    | _, _ =>
      .error s!"token surface: replace at seq {event.seq} has invalid current range {startSeq}-{endSeq}"

end Plan

/-- Apply one validated plan to the priced surface. -/
def commitSurfaceTokens {Node : Type} (nodes : List Node) (plan : SurfaceTokenPlan Node) :
    List Node :=
  match plan.target with
  | .append => nodes ++ [plan.node]
  | .replace startIdx endIdx => Splice.splice nodes startIdx endIdx plan.node

variable [NumberText]

/-- One event of the positional fold: surface events are planned and committed. -/
def foldSurfaceTokens (nodes : List MeterSurfaceNode) (event : SessionEvent) :
    Except String (List MeterSurfaceNode) := do
  match isSurfaceEvent event with
  | none => pure nodes
  | some op =>
    let plan ← planSurfaceTokens (nodes.map (·.toPricedNode)) event op
    pure (commitSurfaceTokens nodes plan)

end TianmaCoder
