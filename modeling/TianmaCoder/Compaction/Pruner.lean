import TianmaCoder.Compaction.ImageOffload
import TianmaCoder.Compaction.Transaction

/-!
# The tool-result pruners

Two services that replace the content of large tool results on the current surface. One cuts
the middle out of every result over its budget; the other keeps the newest results as they
are and clears older ones. Both run one pass over a snapshot of the surface: each replacement
is an append, and right before it stands the metering event that states the price of the
replaced node.

## Main definitions

* `ToolResultPruneConfig.pruneContent`, `RecencyPruneConfig.clearContent` — the new content.
* `pruneCandidates` — the pass that both services share.
* `ToolResultPruner.pruneSession` — one pass of a mounted pruner.
-/

namespace TianmaCoder

open Checked

namespace Compaction

/-! ## Content -/

/-- The text that a text block declares. -/
def blockText (block : Json) : String := (Json.str? (block.get? "text")).getD ""

/-- Whether a block is a text block. -/
def isTextBlock (block : Json) : Bool := block.get? "type" == some (.str "text")

/-- Text content in code points; other blocks cost nothing. -/
def measureContent (blocks : List Json) : ℕ :=
  ((blocks.filter isTextBlock).map fun block => (blockText block).length).sum

/-- The marker of a removed middle. -/
def PRUNE_MARKER : String := "\n\n[... tool result middle pruned ...]\n\n"

/-- The budgets of the middle pruner. -/
structure ToolResultPruneConfig where
  thresholdChars : ℕ
  headChars : ℕ
  tailChars : ℕ
  positive : 0 < thresholdChars
  fits : headChars + PRUNE_MARKER.length + tailChars ≤ thresholdChars

namespace ToolResultPruneConfig

/-- The accumulators of the pruning loop. -/
structure PruneScan where
  pruned : List Json
  consumed : ℕ
  markerInserted : Bool

/-- One block of the pruning loop, for the removed span `[removedStart, removedEnd)`. -/
def pruneBlock (removedStart removedEnd : ℕ) (scan : PruneScan) (block : Json) : PruneScan :=
  if isTextBlock block then
    let points := (blockText block).toList
    let blockStart := scan.consumed
    let blockEnd := blockStart + points.length
    let headEnd := min points.length (removedStart - blockStart)
    let tailStart := min points.length (removedEnd - blockStart)
    let intersectsRemoved := blockStart < removedEnd ∧ removedStart < blockEnd
    let marker := if intersectsRemoved ∧ scan.markerInserted = false then PRUNE_MARKER else ""
    let text := String.ofList (points.take headEnd) ++ marker ++ String.ofList (points.drop tailStart)
    { pruned := if text = "" then scan.pruned else scan.pruned ++ [block.put "text" (.str text)]
      consumed := blockEnd
      markerInserted := scan.markerInserted || marker != "" }
  else { scan with pruned := scan.pruned ++ [block] }

/-- Replace the middle of an over-budget text; `none` when the text is within budget. -/
def pruneContent (config : ToolResultPruneConfig) (blocks : List Json) :
    Except String (Option (List Json)) :=
  let totalChars := measureContent blocks
  if totalChars ≤ config.thresholdChars then .ok none
  else
    let scan := blocks.foldl (pruneBlock config.headChars (totalChars - config.tailChars))
      ⟨[], 0, false⟩
    if !scan.markerInserted then
      .error "tool-result prune: failed to locate the removed text span"
    else
      let charsAfter := measureContent scan.pruned
      if config.thresholdChars < charsAfter ∨ totalChars ≤ charsAfter then
        .error "tool-result prune: replacement must be smaller and within threshold"
      else .ok (some scan.pruned)

end ToolResultPruneConfig

/-- The line that stands for the text of a cleared result. -/
def CLEARED_MARKER : String := "[Old tool result content cleared]"

/-- The policy of the recency pruner. -/
structure RecencyPruneConfig where
  keepRecentResults : ℕ
  thresholdChars : ℕ
  minCharsSaved : ℕ
  compactableTools : List String
  keeps : 0 < keepRecentResults
  positive : 0 < thresholdChars
  named : ∀ tool ∈ compactableTools, tool ≠ ""

namespace RecencyPruneConfig

/-- One block of the clearing loop: the first text becomes the marker, later texts go. -/
def clearBlock (acc : List Json × Bool) (block : Json) : List Json × Bool :=
  if isTextBlock block then
    if acc.2 then acc else (acc.1 ++ [block.put "text" (.str CLEARED_MARKER)], true)
  else (acc.1 ++ [block], acc.2)

/-- Replace every text of a result with one marker; `none` when there is no text. -/
def clearContent (blocks : List Json) : Option (List Json) :=
  if blocks.any isTextBlock then some (blocks.foldl clearBlock ([], false)).1 else none

/-- The cleared content of a result, when clearing it saves enough. -/
def rewrite (config : RecencyPruneConfig) (blocks : List Json) :
    Except String (Option (List Json)) :=
  .ok ((clearContent blocks).filter fun content =>
    ¬ (measureContent blocks : ℤ) - measureContent content < config.minCharsSaved)

end RecencyPruneConfig

/-! ## The pass -/

/-- One tool result of the snapshotted surface. -/
structure PruneCandidate where
  seq : ℕ
  event : SessionEvent
  deriving DecidableEq

/-- The tool results among the current nodes, in surface order. -/
def snapshotCandidates (log : List SessionEvent) (nodes : List ℕ) : List PruneCandidate :=
  nodes.filterMap fun seq =>
    (log[seq]?).bind fun event => if event.type = .toolResult then some ⟨seq, event⟩ else none

/-- One landed replacement. -/
structure PrunedEntry where
  originalSeq : ℕ
  replacementSeq : ℕ
  callId : Json
  charsBefore : ℕ
  charsAfter : ℕ
  deriving DecidableEq

/-- What a pass reports. -/
structure PruneResult where
  pruned : List PrunedEntry
  charsRemoved : ℤ
  deriving DecidableEq

variable (projections : List SessionMessageProjection)

/-- One append in its surroundings. -/
def Attached.appendIn (s : Attached) (env : Surroundings) (type : EventType) (data : Json)
    (surfaceOp sourceEventSeqs : Option Json) : Except String Attached :=
  let call : AppendCall :=
    { type := type, data := data, surfaceOp := surfaceOp, sourceEventSeqs := sourceEventSeqs
      time := env.now s.log.length }
  s.append projections { call with dispatchFailure := env.refuse (s.candidate call) }

variable [NumberText]

/-- The metering event of a replacement. -/
def pruneData (seq : ℕ) (original : Json) : Json :=
  .obj [("shadowedRange", .obj [("start", .nat seq), ("end", .nat seq)]),
    ("shadowedSeqs", .arr [.nat seq]), ("shadowedTokenCount", .nat (estimateMessage original))]

/-- The metering append of a candidate. -/
def PruneCandidate.meter (candidate : PruneCandidate) (s : Attached) (env : Surroundings)
    (original : Json) : Except String Attached :=
  s.appendIn projections env .compactionPrune (pruneData candidate.seq original) none none

omit [NumberText] in
/-- The replacement append of a candidate. -/
def PruneCandidate.replace (candidate : PruneCandidate) (s : Attached) (env : Surroundings)
    (original : Json) (content : List Json) : Except String Attached :=
  s.appendIn projections env .toolResult
    (candidate.event.data.put "message" (original.put "content" (.arr content)))
    (some (.obj [("op", .str "replace"), ("startSeq", .nat candidate.seq),
      ("endSeq", .nat candidate.seq)]))
    (some (.arr [.nat candidate.seq]))

/-- Rewrite one candidate: the session it leaves, and the entry it lands. -/
def pruneCandidate (env : Surroundings) (rewrite : List Json → Except String (Option (List Json)))
    (s : Attached) (candidate : PruneCandidate) :
    Attached × Except String (Option PrunedEntry) :=
  match deriveEventMessage candidate.event (surfaceState projections s.log).projectedMessages with
  | none => (s, .error "Cannot read properties of null (reading 'content')")
  | some original =>
    match rewrite (contentOf original) with
    | .error message => (s, .error message)
    | .ok none => (s, .ok none)
    | .ok (some content) =>
      match candidate.meter projections s env original with
      | .error message => (s, .error message)
      | .ok metered =>
        match candidate.replace projections metered env original content with
        | .error message => (metered, .error message)
        | .ok replaced =>
          (replaced, .ok (some
            { originalSeq := candidate.seq, replacementSeq := metered.log.length
              callId := (candidate.event.data.path ["message", "source", "callId"]).getD .null
              charsBefore := measureContent (contentOf original)
              charsAfter := measureContent content }))

/-- Rewrite the candidates in order; what was appended before a refusal stands. -/
def pruneCandidates (env : Surroundings)
    (rewrite : List Json → Except String (Option (List Json))) (s : Attached) :
    List PruneCandidate → Attached × Except String (List PrunedEntry)
  | [] => (s, .ok [])
  | candidate :: candidates =>
    match pruneCandidate projections env rewrite s candidate with
    | (s, .error message) => (s, .error message)
    | (s, .ok entry) =>
      match pruneCandidates env rewrite s candidates with
      | (s, .error message) => (s, .error message)
      | (s, .ok entries) => (s, .ok (entry.toList ++ entries))

/-- The report over the landed replacements. -/
def PruneResult.of (pruned : List PrunedEntry) : PruneResult :=
  ⟨pruned, (pruned.map fun entry => (entry.charsBefore : ℤ) - entry.charsAfter).sum⟩

/-! ## The two services -/

/-- The pass of the middle pruner: every over-budget result. -/
def ToolResultPruneConfig.pruneSession (config : ToolResultPruneConfig) (env : Surroundings)
    (s : Attached) : Attached × Except String PruneResult :=
  let candidates := snapshotCandidates s.log (surfaceState projections s.log).nodes
  let pass := pruneCandidates projections env config.pruneContent s candidates
  (pass.1, pass.2.map PruneResult.of)

omit [NumberText] in
/-- The name of a called tool: the last call of the log that carries the id. -/
def toolNameOf (log : List SessionEvent) (callId : Option Json) : Option Json :=
  (log.reverse.find? fun event => event.type = .toolCall ∧ event.field "callId" = callId).bind
    (·.field "name")

omit [NumberText] in
/-- Whether one candidate is of a listed tool and over the text threshold. -/
def RecencyPruneConfig.isCompactable (config : RecencyPruneConfig) (log : List SessionEvent)
    (candidate : PruneCandidate) : Bool :=
  match toolNameOf log (candidate.event.data.path ["message", "source", "callId"]) with
  | none => false
  | some name =>
    if config.compactableTools ≠ [] ∧ name ∉ config.compactableTools.map Json.str then false
    else config.thresholdChars < measureContent
      (contentOf ((candidate.event.data.get? "message").getD .null))

/-- The pass of the recency pruner: older results of listed tools, the newest kept. -/
def RecencyPruneConfig.pruneSession (config : RecencyPruneConfig) (env : Surroundings)
    (s : Attached) : Attached × Except String PruneResult :=
  let candidates := snapshotCandidates s.log (surfaceState projections s.log).nodes
  let activeWindowStart := candidates.length - config.keepRecentResults
  let eligible := (candidates.take activeWindowStart).filter (config.isCompactable s.log)
  let pass := pruneCandidates projections env config.rewrite s eligible
  (pass.1, pass.2.map PruneResult.of)

/-- The pruner that is mounted as the session's tool-result pruner. -/
inductive ToolResultPruner where
  | middle (config : ToolResultPruneConfig)
  | recency (config : RecencyPruneConfig)

/-- One pass of the mounted pruner. -/
def ToolResultPruner.pruneSession (pruner : ToolResultPruner) (env : Surroundings) (s : Attached) :
    Attached × Except String PruneResult :=
  match pruner with
  | .middle config => config.pruneSession projections env s
  | .recency config => config.pruneSession projections env s

end Compaction

end TianmaCoder
