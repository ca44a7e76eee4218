import TianmaCoder.Agent.StreamReaders
import TianmaCoder.Tokens.SurfaceFold

/-!
# The occupancy projections

Two projection units fold the token price of the surface. Context pressure keeps one running
total and at most one armed shadow price: the metering event immediately before a replacement
states the price of the exact replaced range. Context breakdown keeps the priced surface and
classifies its last nonempty system node.

## Main definitions

* `foldSurfaceProjection` — the effect of one event on a running total.
* `ContextPressureState.apply` — the context-pressure unit.
* `ContextBreakdownState.apply` — the context-breakdown unit.
-/

namespace TianmaCoder

/-! ## Shadow prices -/

/-- One armed shadow price: the heuristic tokens of the range the next event replaces. -/
structure ShadowPriceClaim where
  start : ℕ
  end_ : ℕ
  tokens : ℤ
  deriving DecidableEq

/-- One event's effect on a running surface-token total. -/
structure SurfaceTokensFold where
  deltaTokens : ℤ
  claim : Option ShadowPriceClaim
  deriving DecidableEq

/-- The events that state a shadow price. -/
def EventType.isShadowPrice : EventType → Bool
  | .compactionSummary | .compactionPrune => true
  | _ => false

/-- A number member that its payload declares. -/
def intMember (value : Option Json) : ℤ :=
  match value with
  | some (.int n) => n
  | _ => 0

/-- Admit a numeric value as an existing event position. -/
def sessionSeq (value : Option Json) : Except String ℕ :=
  match Json.count? value with
  | some seq => .ok seq
  | none => .error "SessionSeq must be a non-negative safe integer"

/-- The claim a metering event arms. -/
def shadowPriceOf (event : SessionEvent) : Except String ShadowPriceClaim := do
  let start ← sessionSeq (event.data.path ["shadowedRange", "start"])
  let end_ ← sessionSeq (event.data.path ["shadowedRange", "end"])
  pure ⟨start, end_, intMember (event.field "shadowedTokenCount")⟩

variable [NumberText]

/-- The price of the message an event derives to; nothing when it derives none. -/
def messageTokens (event : SessionEvent) : ℕ :=
  match deriveEventMessage event [] with
  | none => 0
  | some message => estimateMessage message

/-- Fold one committed event onto a running surface-token total. -/
def foldSurfaceProjection (claim : Option ShadowPriceClaim) (event : SessionEvent) :
    Except String SurfaceTokensFold :=
  if event.type.isShadowPrice then do
    let armed ← shadowPriceOf event
    pure ⟨0, some armed⟩
  else
    match isSurfaceEvent event with
    | none => pure ⟨0, none⟩
    | some .append => pure ⟨messageTokens event, none⟩
    | some (.replace startSeq endSeq) =>
      match claim with
      -- A log recorded before the protocol has no metering event: the total stands.
      | none => pure ⟨0, none⟩
      | some armed =>
        if armed.start ≠ startSeq ∨ armed.end_ ≠ endSeq then
          throw s!"token surface: replace at seq {event.seq} over range {startSeq}-{endSeq} has no adjacent shadow price (armed claim covers {armed.start}-{armed.end_})"
        else pure ⟨messageTokens event - armed.tokens, none⟩

/-! ## Context pressure -/

/-- The state of the context-pressure unit. -/
structure ContextPressureState where
  contextWindow : Option ℤ
  pressureTokens : Option ℤ
  surfaceTokens : ℤ
  sampledSurfaceTokens : Option ℤ
  claim : Option ShadowPriceClaim
  deriving DecidableEq

namespace ContextPressureState

def init : ContextPressureState := ⟨none, none, 0, none, none⟩

end ContextPressureState

/-- The usage one durable assistant settlement reports for its attempt, if any. -/
def usageOf (event : SessionEvent) : Option Json :=
  let stream := (Json.arr? (event.field "stream")).getD []
  match event.type with
  | .assistantMessage =>
    match event.field "usage" with
    | some usage => some usage
    | none => (lastAssistantStreamChunk stream "usage").bind (·.get? "usage")
  | .assistantAttempt => (lastAssistantStreamChunk stream "usage").bind (·.get? "usage")
  | _ => none

/-- Prompt-side pressure of one request: input plus cache traffic, no output. -/
def pressureFrom (usage : Json) : ℤ :=
  intMember (usage.get? "inputTokens") + intMember (usage.get? "cacheReadTokens")
    + intMember (usage.get? "cacheWriteTokens")

namespace ContextPressureState

/-- The newest declared context window. -/
def withWindow (state : ContextPressureState) (event : SessionEvent) : ContextPressureState :=
  if event.type = .requestContext then
    { state with contextWindow := (event.field "contextWindow").map fun v => intMember (some v) }
  else state

/-- A usage sample is stamped before the same event joins the surface. -/
def withSample (state : ContextPressureState) (event : SessionEvent) : ContextPressureState :=
  match usageOf event with
  | none => state
  | some usage =>
    { state with
      pressureTokens := some (pressureFrom usage)
      sampledSurfaceTokens := some state.surfaceTokens }

/-- Fold one event into the unit. -/
def apply (state : ContextPressureState) (event : SessionEvent) :
    Except String ContextPressureState := do
  let fold ← foldSurfaceProjection state.claim event
  let next := (state.withWindow event).withSample event
  pure { next with surfaceTokens := next.surfaceTokens + fold.deltaTokens, claim := fold.claim }

omit [NumberText] in
@[simp] theorem surfaceTokens_withWindow (state : ContextPressureState) (event : SessionEvent) :
    (state.withWindow event).surfaceTokens = state.surfaceTokens := by
  unfold withWindow
  split <;> rfl

omit [NumberText] in
@[simp] theorem surfaceTokens_withSample (state : ContextPressureState) (event : SessionEvent) :
    (state.withSample event).surfaceTokens = state.surfaceTokens := by
  unfold withSample
  split <;> rfl

end ContextPressureState

/-! ## Context breakdown -/

/-- One retained surface position with its system classification. -/
structure BreakdownNode extends PricedNode where
  system : Bool
  deriving DecidableEq

/-- The state of the context-breakdown unit. -/
structure ContextBreakdownState where
  nodes : List BreakdownNode
  systemTokens : ℤ
  toolsTokens : ℤ
  messageTokens : ℤ
  deriving DecidableEq

namespace ContextBreakdownState

def init : ContextBreakdownState := ⟨[], 0, 0, 0⟩

/-- The price of the last nonempty surviving system node. -/
def lastSystemTokens (nodes : List BreakdownNode) : ℕ :=
  match nodes.reverse.find? fun node => node.system ∧ 0 < node.heuristicTokens with
  | some node => node.heuristicTokens
  | none => 0

/-- The plan as the unit commits it: one compact entry for the event's position. -/
def compactPlan (event : SessionEvent) (plan : SurfaceTokenPlan MeterSurfaceNode) :
    SurfaceTokenPlan BreakdownNode :=
  { tokens := plan.tokens, deltaTokens := plan.deltaTokens, target := plan.target
    node := ⟨⟨event.seq, plan.tokens⟩, event.type = .systemMessage⟩ }

/-- Fold one event into the unit. -/
def apply (state : ContextBreakdownState) (event : SessionEvent) :
    Except String ContextBreakdownState :=
  if event.type = .requestHeader then
    pure { state with toolsTokens := estimateToolsTokens ((event.field "header").getD .null) }
  else
    match isSurfaceEvent event with
    | none => pure state
    | some op => do
      let plan ← planSurfaceTokens (state.nodes.map (·.toPricedNode)) event op
      let nodes := commitSurfaceTokens state.nodes (compactPlan event plan)
      let systemTokens := lastSystemTokens nodes
      pure { state with
        nodes := nodes
        systemTokens := systemTokens
        messageTokens :=
          state.systemTokens + state.messageTokens + plan.deltaTokens - systemTokens }

end ContextBreakdownState

end TianmaCoder
