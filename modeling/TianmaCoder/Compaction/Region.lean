import TianmaCoder.Compaction.Attached
import TianmaCoder.Compaction.ToolPairing
import TianmaCoder.Tokens.Meter

/-!
# Compacting a region of the surface

The synchronous parts of the compaction transaction: the selection of a span, its priced
snapshot, the acceptance of a summary, the stability checks and the events of the commit.

## Main definitions

* `validateSurfaceRegion`, `prepareCompaction` — a selection and its snapshot.
* `acceptSummary` — the framed checkpoint of a summary that is smaller than its span.
* `assertStable` — whether a summary may still replace the span it was built from.
* `inspectCompactionEntryState` — the open turn and the compaction lock of a log.
-/

namespace TianmaCoder

namespace Compaction

/-! ## Failures -/

/-- What one compaction attempt throws: `SurfaceChangedError`, the `busy` error of the entry
checks, or another error by the rendering of its chain. -/
inductive RegionError where
  | error (chain : String)
  | busy (message : String)
  | surfaceChanged (message : String) (cause : Option String)
  deriving DecidableEq

/-- `errorChain` of a failure; a cause that repeats its message is not rendered again. -/
def RegionError.chain : RegionError → String
  | .error chain => chain
  | .busy message => message
  | .surfaceChanged message none => message
  | .surfaceChanged message (some cause) =>
    if cause = "" ∨ cause = message then message else s!"{message}: {cause}"

/-- An operation that throws a plain error. -/
def plain {α : Type} (result : Except String α) : Except RegionError α :=
  result.mapError .error

/-! ## Selection -/

/-- One validated inclusive span of current surface positions. -/
structure SurfaceSelection where
  start : ℕ
  end_ : ℕ
  startIdx : ℕ
  endIdx : ℕ
  shadowedSeqs : List ℕ
  deriving DecidableEq

/-- Validate one requested span of the current nodes. -/
def validateSurfaceRegion (log : List SessionEvent) (nodes : List ℕ) (start end_ : ℕ) :
    Except String SurfaceSelection := do
  match nodes.idxOf? start with
  | none => throw s!"compactRegion: start seq {start} not found in surface"
  | some startIdx =>
    match nodes.idxOf? end_ with
    | none => throw s!"compactRegion: end seq {end_} not found in surface"
    | some endIdx =>
      if endIdx < startIdx then
        throw s!"compactRegion: start seq {start} (position {startIdx}) is after end seq {end_} (position {endIdx}) on the surface"
      let before ← toolPairingBalancedBefore log nodes start
      if !before then
        throw s!"compactRegion: start seq {start} is not a balanced boundary (would split a step's tool-call/result pair)"
      let after ← toolPairingBalancedAfter log nodes end_
      if !after then
        throw s!"compactRegion: end seq {end_} is not a balanced boundary (would split a step, or the step is still open)"
      return ⟨start, end_, startIdx, endIdx, Splice.segment nodes startIdx endIdx⟩

/-! ## The summarizer's input -/

/-- The replayed conversation that the summarizer condenses. -/
structure SummarizationInput where
  tools : Option Json
  messages : List Json
  deriving DecidableEq

/-- The header in force after the last header event of a log. -/
def foldRequestHeader (log : List SessionEvent) : Option Json :=
  log.foldl (fun state event =>
    if event.type = .requestHeader then
      some (canonicalHeader ((event.field "header").getD .null))
    else state) none

/-- The `system/message` at surface node 0. -/
def systemHead (log : List SessionEvent) (nodes : List ℕ) : Option SessionEvent :=
  (nodes.head?.bind fun seq => log[seq]?).filter fun head => head.type = .systemMessage

/-- The system head and the messages of the shadowed region, in surface order. -/
def buildSummarizationInput (log : List SessionEvent) (state : SurfaceFoldState)
    (shadowedSeqs : List ℕ) : SummarizationInput where
  tools := (foldRequestHeader log).bind (·.get? "tools")
  messages :=
    ((systemHead log state.nodes).bind fun head =>
      deriveEventMessage head state.projectedMessages).toList
    ++ surfaceMessages log state.projectedMessages shadowedSeqs

/-! ## The priced snapshot -/

/-- A selection with its priced snapshot and the replay input built from it. -/
structure PreparedCompaction extends SurfaceSelection where
  measurement : TokenMeasurement
  selectedNodes : List TokenSurfaceNode
  input : SummarizationInput
  /-- The snapshot prices exactly the selected positions. -/
  matched : selectedNodes.map (·.seq) = shadowedSeqs
  deriving DecidableEq

namespace PreparedCompaction

/-- The price that the summary event states for the span. -/
def shadowedTokenCount (prepared : PreparedCompaction) : ℤ :=
  (prepared.selectedNodes.map (·.heuristicTokens)).sum

/-- The route-priced total of the span. -/
def shadowedRouteTokenCount (prepared : PreparedCompaction) : ℤ :=
  (prepared.selectedNodes.map (·.tokens)).sum

end PreparedCompaction

variable [NumberText] (projections : List SessionMessageProjection)

/-- Snapshot pricing and replay input of a validated span. -/
def prepareCompaction (meter : Meter) (log : List SessionEvent) (selection : SurfaceSelection) :
    Except RegionError PreparedCompaction := do
  let measurement ← plain (meter.measure log)
  let selectedNodes := Splice.segment measurement.nodes selection.startIdx selection.endIdx
  if hmatched : selectedNodes.map (·.seq) = selection.shadowedSeqs then
    return {
      toSurfaceSelection := selection
      measurement := measurement
      selectedNodes := selectedNodes
      input := buildSummarizationInput log (surfaceState projections log) selection.shadowedSeqs
      matched := hmatched }
  else
    throw (.surfaceChanged "compaction: selected surface changed before summarization began" none)

/-! ## Stability -/

/-- The surface relationship that must survive the summarization. -/
inductive Stability where
  | wholeSurface
  | selectedSpan
  deriving DecidableEq

/-- Reject a summary prepared against any earlier surface generation. -/
def assertWholeSurfaceUnchanged (meter : Meter) (log : List SessionEvent)
    (prepared : PreparedCompaction) : Except RegionError Unit := do
  let current ← plain (meter.measure log)
  if current.nodes ≠ prepared.measurement.nodes then
    throw (.surfaceChanged "compaction: session surface changed during summarization" none)

/-- Require only that the selected span is the same valid and equally priced target. -/
def assertSelectedSpanStable (meter : Meter) (log : List SessionEvent)
    (prepared : PreparedCompaction) : Except RegionError Unit := do
  match validateSurfaceRegion log (surfaceState projections log).nodes prepared.start
      prepared.end_ with
  | .error message =>
    throw (.surfaceChanged
      "compaction: the selected span is no longer a valid replacement target" (some message))
  | .ok current =>
    if current.shadowedSeqs ≠ prepared.shadowedSeqs then
      throw (.surfaceChanged "compaction: the selected span changed during summarization" none)
    let measured ← plain (meter.measure log)
    if Splice.segment measured.nodes current.startIdx current.endIdx ≠ prepared.selectedNodes then
      throw (.surfaceChanged
        "compaction: the selected span was rewritten during summarization" none)

/-- The check of a stability mode. -/
def assertStable (stability : Stability) (meter : Meter) (log : List SessionEvent)
    (prepared : PreparedCompaction) : Except RegionError Unit :=
  match stability with
  | .wholeSurface => assertWholeSurfaceUnchanged meter log prepared
  | .selectedSpan => assertSelectedSpanStable projections meter log prepared

/-! ## Summaries -/

/-- What a summarizer returns. -/
structure SummaryResult where
  summary : List Json
  provider : String
  model : String
  maxTokens : Option ℕ
  usage : Option Json
  rawOutput : Option Json
  llmStreamCall : Bool
  deriving DecidableEq

def SUMMARY_OPEN_TAG : String := "<compacted-summary>"

def SUMMARY_CLOSE_TAG : String := "</compacted-summary>"

/-- Framing that makes the checkpoint established context. -/
def CHECKPOINT_PREAMBLE : String :=
  "This is an automatically generated checkpoint condensing an "
    ++ "earlier span of the conversation to free up context. Treat the "
    ++ "captured context as established background and build on it "
    ++ "without restating it. Continue the task directly from the "
    ++ "messages that follow, without acknowledging this checkpoint."

/-- Frame a summary as the content of its checkpoint. -/
def frameSummary (summary : List Json) : List Json :=
  [.obj [("type", .str "text"), ("text", .str s!"{CHECKPOINT_PREAMBLE}\n\n{SUMMARY_OPEN_TAG}")]]
    ++ summary ++ [.obj [("type", .str "text"), ("text", .str SUMMARY_CLOSE_TAG)]]

/-- An optional command identity, as a member. -/
def sourceCommandMember (sourceCommandId : Option String) : List (String × Json) :=
  (sourceCommandId.map fun id => ("sourceCommandId", Json.str id)).toList

/-- The source of a checkpoint. -/
def compactCheckpointSource (compactionId : String) (sourceCommandId : Option String) : Json :=
  .obj ([("kind", .str "compact-checkpoint"), ("compactionId", .str compactionId)]
    ++ sourceCommandMember sourceCommandId)

/-- The checkpoint of a summary, under a fresh message id. -/
def checkpointMessage (messageId compactionId : String) (sourceCommandId : Option String)
    (summary : List Json) : Json :=
  .obj [("content", .arr (frameSummary summary)),
    ("source", compactCheckpointSource compactionId sourceCommandId),
    ("role", .str "user"), ("id", .str messageId)]

omit [NumberText] in
theorem utf16Length_append (s t : String) :
    utf16Length (s ++ t) = utf16Length s + utf16Length t := by
  simp only [utf16Length, String.toList_append, List.map_append, List.sum_append]

omit [NumberText] in
theorem utf16Length_preamble : utf16Length CHECKPOINT_PREAMBLE = 300 := by
  unfold CHECKPOINT_PREAMBLE
  rw [utf16Length_append, utf16Length_append, utf16Length_append, utf16Length_append]
  decide +kernel

theorem estimateContent_text (text : String) :
    estimateContent [.obj [("type", .str "text"), ("text", .str text)]]
      = textTokens (utf16Length text) + blockOverhead := rfl

/-- The price of a checkpoint is the price of its summary and of the framing. -/
theorem estimateMessage_checkpoint (messageId compactionId : String)
    (sourceCommandId : Option String) (summary : List Json) :
    estimateMessage (checkpointMessage messageId compactionId sourceCommandId summary)
      = estimateContent summary + 98 := by
  have hopen : utf16Length s!"{CHECKPOINT_PREAMBLE}\n\n{SUMMARY_OPEN_TAG}" = 321 := by
    simp only [toString, utf16Length_append, utf16Length_preamble]
    decide +kernel
  have hframe : estimateContent (frameSummary summary) = estimateContent summary + 94 := by
    have hclose : utf16Length SUMMARY_CLOSE_TAG = 20 := by decide +kernel
    rw [frameSummary, estimateContent_append, estimateContent_append, estimateContent_text,
      estimateContent_text, hopen, hclose]
    simp only [textTokens, charsPerToken, blockOverhead]
    omega
  have hmessage : estimateMessage
      (checkpointMessage messageId compactionId sourceCommandId summary)
      = estimateContent (frameSummary summary) + roleOverhead := rfl
  rw [hmessage, hframe, roleOverhead]

/-- A summary that may replace its span. -/
structure SummarizedCompaction extends PreparedCompaction, SummaryResult where
  checkpointMessage : Json
  /-- The checkpoint is cheaper than the span. -/
  smaller : estimateMessage checkpointMessage < toPreparedCompaction.shadowedRouteTokenCount
  deriving DecidableEq

/-- Accept a summary whose framed checkpoint is smaller than the shadowed content. -/
def acceptSummary (prepared : PreparedCompaction) (result : SummaryResult) (message : Json) :
    Except RegionError SummarizedCompaction :=
  if hsmaller : (estimateMessage message : ℤ) < prepared.shadowedRouteTokenCount then
    .ok { prepared, result with checkpointMessage := message, smaller := hsmaller }
  else
    .error (.error s!"summary is not smaller than the shadowed content ({estimateMessage message} estimated framed tokens >= {prepared.shadowedRouteTokenCount})")

/-! ## The entry state -/

/-- The open turn, the unmatched compaction start and the newest seed boundary of a log. -/
structure CompactionEntryState where
  openTurn : Json
  unmatchedCompactionStart : Option SessionEvent
  latestEndSeedSeq : Option ℕ
  deriving DecidableEq

/-- The accumulators of the backward scan. -/
structure EntryScan extends CompactionEntryState where
  openTurnStateKnown : Bool
  compactionEntryStateKnown : Bool

namespace EntryScan

def init : EntryScan := ⟨⟨.null, none, none⟩, false, false⟩

/-- The newest seed boundary. -/
def readSeed (scan : EntryScan) (event : SessionEvent) : EntryScan :=
  if scan.latestEndSeedSeq.isNone ∧ event.type = .sessionEndSeed then
    { scan with latestEndSeedSeq := some event.seq }
  else scan

/-- The newest compaction marker. -/
def readCompaction (scan : EntryScan) (event : SessionEvent) : EntryScan :=
  if scan.compactionEntryStateKnown then scan
  else
    match event.type with
    | .compactionStart =>
      { scan with unmatchedCompactionStart := some event, compactionEntryStateKnown := true }
    | .compactionEnd => { scan with compactionEntryStateKnown := true }
    | _ => scan

/-- The newest turn boundary. -/
def readTurn (scan : EntryScan) (event : SessionEvent) : EntryScan :=
  if scan.openTurnStateKnown then scan
  else
    match event.type with
    | .turnStart => { scan with openTurn := event.turn, openTurnStateKnown := true }
    | .turnEnd => { scan with openTurnStateKnown := true }
    | _ => scan

/-- Scan from the newest event backwards, until all three are known. -/
def scan (acc : EntryScan) : List SessionEvent → EntryScan
  | [] => acc
  | event :: events =>
    let acc := ((acc.readSeed event).readCompaction event).readTurn event
    if acc.openTurnStateKnown ∧ acc.compactionEntryStateKnown ∧ acc.latestEndSeedSeq.isSome then
      acc
    else scan acc events

end EntryScan

/-- Inspect open-turn, unmatched-compaction and latest seed-boundary state. -/
def inspectCompactionEntryState (log : List SessionEvent) : CompactionEntryState :=
  (EntryScan.init.scan log.reverse).toCompactionEntryState

/-- Reject an unmatched compaction marker unless a later seed boundary makes it stale. -/
def assertCompactionInactive (entry : CompactionEntryState) (stage : String) :
    Except RegionError Unit :=
  match entry.unmatchedCompactionStart with
  | none => pure ()
  | some start =>
    if entry.latestEndSeedSeq.any fun seed => decide (start.seq < seed) then pure ()
    else throw (.busy s!"{stage}: compaction already in progress; the session compaction lock is already active")

end Compaction

end TianmaCoder
