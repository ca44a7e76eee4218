import TianmaCoder.Agent.BlockAssembler
import TianmaCoder.Lib.CatchUp
import TianmaCoder.Tokens.Meter

/-!
# The pressure of a request

The replay fold of the meter with its anchor, and the whole measurement. An assistant message
anchors the surface that its call priced, the price of its output, and the usage the provider
reported. A later measurement reuses the usage when the request header still matches and the
usage is no lower than the anchored surface priced for the current route; it then adds the signed
change of the surface since. The service folds each session on demand, and eagerly once a session
has been read.

## Main definitions

* `ReplayState.foldEvent` — the replay fold with its anchor.
* `Meter.pressureOf` — the measurement of a replay state under a request header.
* `rescalePressure` — the calibration of a measurement.
* `MeterService.run` — appends and measurements in any order.
-/

namespace TianmaCoder

/-! ## Request headers -/

/-- Field-wise equality of call configurations. -/
def callConfigEquals (a b : Option Json) : Bool :=
  ["provider", "model", "reasoningEffort", "temperature", "maxTokens", "stop"].all fun k =>
    a.bind (·.get? k) = b.bind (·.get? k)

/-- Field-wise equality over canonical headers. Tool schemas compare in order. -/
def headerEquals (a b : Json) : Bool :=
  callConfigEquals (a.get? "config") (b.get? "config")
    && (["reasoningEffort", "maxTokens"].all fun k =>
      a.path ["adapterDefaults", k] = b.path ["adapterDefaults", k])
    && (Json.arr? (a.get? "tools")).getD [] = (Json.arr? (b.get? "tools")).getD []

/-- Compare optional headers; an absent one equals only an absent one. -/
def optionalHeaderEquals (left right : Option Json) : Bool :=
  match left, right with
  | none, none => true
  | some left, some right => headerEquals left right
  | _, _ => false

/-- Sum disjoint provider usage buckets. -/
def usageTokens (usage : Json) : ℤ :=
  intMember (usage.get? "inputTokens") + intMember (usage.get? "cacheReadTokens")
    + intMember (usage.get? "cacheWriteTokens") + intMember (usage.get? "outputTokens")

variable [NumberText]

/-- The tool-schema price of a header that may be absent. -/
def headerTokens (header : Option Json) : ℕ := (header.map estimateToolsTokens).getD 0

/-! ## The replay fold -/

/-- Facts captured at the latest assistant message. -/
structure MeasurementAnchor where
  header : Option Json
  /-- The surface right before the anchored message commits. -/
  nodes : List MeterSurfaceNode
  /-- The heuristic price of the provider output. -/
  assistantTokens : ℕ
  /-- Provider usage of the call, when it reported one under a known header. -/
  usage : Option Json
  deriving DecidableEq

/-- The replay state with its anchor. -/
structure ReplayState extends MeterState where
  anchor : Option MeasurementAnchor
  deriving DecidableEq

/-- Price the provider output, reassembled from the stream of its message. -/
def estimateProviderAssistant (event : SessionEvent) : Except String ℕ := do
  let assembler ← assembleAssistantStream ((Json.arr? (event.field "stream")).getD [])
  let providerContent ← assembler.blocks
  pure (if providerContent = [] then 0 else estimateContent providerContent + roleOverhead)

/-- The transition of a surface event, none for another one. -/
def planSurfaceEventTokens (nodes : List MeterSurfaceNode) (event : SessionEvent) :
    Except String (Option (SurfaceTokenPlan MeterSurfaceNode)) :=
  match isSurfaceEvent event with
  | none => .ok none
  | some op => (planSurfaceTokens (nodes.map (·.toPricedNode)) event op).map some

namespace ReplayState

def init : ReplayState := ⟨.init, none⟩

/-- The anchor of an assistant message that is placed by this plan. -/
def nextAnchor (state : ReplayState) (event : SessionEvent)
    (plan : Option (SurfaceTokenPlan MeterSurfaceNode)) : Except String MeasurementAnchor :=
  if state.stepStart = some (stepOf event) then
    match plan with
    | none => .error "Cannot read properties of undefined (reading 'tokens')"
    | some plan =>
      match event.field "usage", state.header with
      | some usage, some header => do
        let assistantTokens ← estimateProviderAssistant event
        pure ⟨some header, state.surface, assistantTokens, some usage⟩
      | _, header => pure ⟨header, state.surface, plan.tokens, none⟩
  else
    .error s!"token meter: assistant/message at seq {event.seq} has no matching step/start event"

/-- The header, the step and the image marks after an event; the step of an assistant message is
checked with its anchor. -/
def enter (state : ReplayState) (event : SessionEvent) : Except String MeterState :=
  if event.type = .assistantMessage then .ok state.toMeterState
  else state.toMeterState.enter event

/-- The anchor after an event that is placed by this plan. -/
def anchorAfter (state : ReplayState) (event : SessionEvent)
    (plan : Option (SurfaceTokenPlan MeterSurfaceNode)) :
    Except String (Option MeasurementAnchor) :=
  if event.type = .assistantMessage then (state.nextAnchor event plan).map some
  else .ok state.anchor

/-- Fold one event; a refused event leaves the state for the next read. -/
def foldEvent (state : ReplayState) (event : SessionEvent) : Except String ReplayState := do
  let entered ← state.enter event
  let plan ← planSurfaceEventTokens entered.surface event
  let anchor ← state.anchorAfter event plan
  pure
    { entered with
      surface := (plan.map (commitSurfaceTokens entered.surface)).getD entered.surface
      anchor := anchor }

end ReplayState

/-! ## Measurements -/

/-- The anchor of a measurement. -/
inductive TokenMeasurementBaseline where
  | none
  | estimated (tokens : ℤ)
  | usage (tokens : ℤ) (usage : Json)
  deriving DecidableEq

namespace TokenMeasurementBaseline

def tokens : TokenMeasurementBaseline → ℤ
  | .none => 0
  | .estimated tokens => tokens
  | .usage tokens _ => tokens

/-- Scale an estimate; provider usage is no estimate. -/
def scaled (baseline : TokenMeasurementBaseline) (multiplier : ℚ) : TokenMeasurementBaseline :=
  match baseline with
  | .estimated tokens => .estimated (scaleTokens tokens multiplier)
  | baseline => baseline

/-- The baseline is provider usage. -/
def isUsage : TokenMeasurementBaseline → Bool
  | .usage _ _ => true
  | _ => false

end TokenMeasurementBaseline

/-- Request pressure and surface at one consumed log revision. -/
structure PressureMeasurement extends TokenMeasurement where
  baseline : TokenMeasurementBaseline
  /-- Signed change of the surface relative to the baseline anchor. -/
  surfaceDeltaTokens : ℤ
  totalTokens : ℤ
  deriving DecidableEq

/-- The baseline where no anchor matches the header. -/
def unanchoredBaseline (header : Option Json) (surfaceTokens : ℤ) : TokenMeasurementBaseline :=
  if header = none ∧ surfaceTokens = 0 then .none
  else .estimated (headerTokens header + surfaceTokens)

/-- The baseline of an anchor whose surface and output have this price. -/
def anchoredBaseline (header : Option Json) (usage : Option Json) (anchorSurfaceTokens : ℤ) :
    TokenMeasurementBaseline :=
  let estimatedAnchorTokens := headerTokens header + anchorSurfaceTokens
  match usage with
  | some usage =>
    if estimatedAnchorTokens ≤ usageTokens usage then .usage (usageTokens usage) usage
    else .estimated estimatedAnchorTokens
  | none => .estimated estimatedAnchorTokens

namespace Meter

/-- The header that a measurement prices under: the one of the request, or the latest logged. -/
def effectiveHeader (logged requestHeader : Option Json) : Option Json :=
  match requestHeader with
  | none => logged
  | some header => some (canonicalHeader header)

/-- The baseline of a measurement and the signed change since. -/
def baselineOf (meter : Meter) (state : ReplayState) (header : Option Json) (surfaceTokens : ℤ) :
    Except String (TokenMeasurementBaseline × ℤ) :=
  match state.anchor with
  | none => .ok (unanchoredBaseline header surfaceTokens, 0)
  | some anchor =>
    if optionalHeaderEquals anchor.header header then do
      let nodes ← priceSurface anchor.nodes (meter.routeImagePricing header) meter.fileRequestText
      let anchorSurfaceTokens := (nodes.map (·.tokens)).sum + anchor.assistantTokens
      pure (anchoredBaseline header anchor.usage anchorSurfaceTokens,
        surfaceTokens - anchorSurfaceTokens)
    else .ok (unanchoredBaseline header surfaceTokens, 0)

/-- Measure a replay state under the header of a request. -/
def pressureOf (meter : Meter) (logRevision : ℕ) (state : ReplayState)
    (requestHeader : Option Json) : Except String PressureMeasurement := do
  let header := effectiveHeader state.header requestHeader
  let nodes ← priceSurface state.surface (meter.routeImagePricing header) meter.fileRequestText
  let surfaceTokens := (nodes.map (·.tokens)).sum
  let (baseline, surfaceDeltaTokens) ← meter.baselineOf state header surfaceTokens
  pure
    { logRevision, baseline, surfaceDeltaTokens
      totalTokens := max 0 (baseline.tokens + surfaceDeltaTokens)
      surfaceTokens, nodes }

end Meter

omit [NumberText] in
/-- Rescale a measurement's heuristic prices by one multiplier. -/
def rescalePressure (measurement : PressureMeasurement) (multiplier : ℚ) : PressureMeasurement :=
  let baseline := measurement.baseline.scaled multiplier
  let surfaceDeltaTokens := scaleTokens measurement.surfaceDeltaTokens multiplier
  { rescaleMeasurement measurement.toTokenMeasurement multiplier with
    baseline, surfaceDeltaTokens
    totalTokens := max 0 (baseline.tokens + surfaceDeltaTokens) }

/-! ## The service -/

/-- One session and what the service holds of it. -/
structure MeterService where
  log : List SessionEvent
  reader : Option (Reader ReplayState)

namespace MeterService

/-- A session that no consumer has read. -/
def unread (log : List SessionEvent) : MeterService := ⟨log, none⟩

/-- Catch the session's fold up to the current durable tail. -/
def sync (service : MeterService) : Reader ReplayState × Option String :=
  (service.reader.getD ⟨0, .init⟩).sync ReplayState.foldEvent service.log

/-- An appended event is folded at once when the session has been read. -/
def append (service : MeterService) (event : SessionEvent) : MeterService :=
  let appended : MeterService := { service with log := service.log ++ [event] }
  if service.reader.isSome then { appended with reader := some appended.sync.1 } else appended

/-- Measure the session through its durable tail. -/
def measure (meter : Meter) (service : MeterService) (requestHeader : Option Json) :
    MeterService × Except String PressureMeasurement :=
  let (reader, refused) := service.sync
  ({ service with reader := some reader },
    match refused with
    | some message => .error message
    | none => meter.pressureOf reader.consumed reader.state requestHeader)

end MeterService

/-- What happens to a session and its meter. -/
inductive MeterAction where
  | append (event : SessionEvent)
  | measure (requestHeader : Option Json)

/-- The service after some actions. -/
def MeterService.run (meter : Meter) (service : MeterService) (actions : List MeterAction) :
    MeterService :=
  actions.foldl (fun service action =>
    match action with
    | .append event => service.append event
    | .measure requestHeader => (service.measure meter requestHeader).1) service

end TianmaCoder
