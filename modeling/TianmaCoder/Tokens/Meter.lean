import Mathlib.Data.Rat.Floor
import TianmaCoder.Session.Invariant
import TianmaCoder.Tokens.Projections

/-!
# The token meter

The replay fold of the meter and the surface part of its measurement. A measurement prices
every node for the route of the latest request header: the images and files of a node cost
what the route charges for their request form, and their structural price is taken off. A
calibration multiplier rescales the prices of a measurement.

The request baseline and the pressure total of a measurement are added in `Tokens.Pressure`.

## Main definitions

* `MeterState.foldEvent` — one event of the replay fold.
* `priceSurface`, `rescaleMeasurement` — route pricing and calibration.
* `Meter.measure` — the measurement of a log.
-/

namespace TianmaCoder

variable [NumberText]

/-! ## The replay fold -/

/-- The replay state of the meter over one session. -/
structure MeterState where
  header : Option Json
  surface : List MeterSurfaceNode
  stepStart : Option (Json × Json)
  deriving DecidableEq

namespace MeterState

def init : MeterState := ⟨none, [], none⟩

end MeterState

/-- Drop the members a canonical header omits. -/
def canonicalHeader (header : Json) : Json :=
  let defaults := header.get? "adapterDefaults"
  let kept := (defaults.bind (·.get? "reasoningEffort")) = some (.bool true)
    ∨ (defaults.bind (·.get? "maxTokens")) = some (.bool true)
  .obj ([("config", (header.get? "config").getD .null)]
    ++ (if kept then [("adapterDefaults", defaults.getD .null)] else [])
    ++ (match header.get? "tools" with
      | some (.arr (tool :: tools)) => [("tools", .arr (tool :: tools))]
      | _ => []))

/-- The occurrence indexes that an offload decision selects for a node; the last target of a
node counts. -/
def offloadedIndexes (event : SessionEvent) (seq : ℕ) : Option (List Json) :=
  let targets := (Json.arr? (event.field "targets")).getD []
  (targets.reverse.find? fun target => Json.count? (target.get? "seq") = some seq).map
    fun target => (Json.arr? (target.get? "imageIndexes")).getD []

/-- Mark the selected images of one node. -/
def MeterSurfaceNode.offload (node : MeterSurfaceNode) (event : SessionEvent) : MeterSurfaceNode :=
  match offloadedIndexes event node.seq with
  | none => node
  | some indexes =>
    { node with
      images := node.images.zipIdx.map fun (image, index) =>
        if .nat index ∈ indexes then image.put "offloaded" (.bool true) else image }

/-- The step an event belongs to. -/
def stepOf (event : SessionEvent) : Json × Json :=
  ((event.field "turn").getD .null, (event.field "step").getD .null)

namespace MeterState

/-- The header, the step and the image marks after an event. -/
def enter (state : MeterState) (event : SessionEvent) : Except String MeterState :=
  match event.type with
  | .imageOffload => pure { state with surface := state.surface.map (·.offload event) }
  | .requestHeader =>
    pure { state with header := some (canonicalHeader ((event.field "header").getD .null)) }
  | .stepStart =>
    match state.stepStart with
    | some (turn, step) =>
      throw s!"token meter: step/start at seq {event.seq} arrived before turn {shown (some turn)}/step {shown (some step)} ended"
    | none => pure { state with stepStart := some (stepOf event) }
  | .stepEnd =>
    if state.stepStart = some (stepOf event) then pure { state with stepStart := none }
    else throw s!"token meter: step/end at seq {event.seq} has no matching step/start event"
  | .assistantMessage =>
    if state.stepStart = some (stepOf event) then pure state
    else throw s!"token meter: assistant/message at seq {event.seq} has no matching step/start event"
  | _ => pure state

/-- Fold one event; a refused event leaves the state for the next read. -/
def foldEvent (state : MeterState) (event : SessionEvent) : Except String MeterState := do
  let entered ← state.enter event
  let surface ← foldSurfaceTokens entered.surface event
  pure { entered with surface := surface }

end MeterState

/-! ## Route pricing -/

/-- The request price of one image occurrence. -/
structure LlmImageRequestPrice where
  visualTokens : ℕ
  /-- Model-visible text sent for the occurrence. -/
  text : String

/-- Provider-side request-image pricing for one model route. -/
structure LlmImageRequestPricing where
  priceImages : List Json → List LlmImageRequestPrice

/-- One token-priced node of a measurement. -/
structure TokenSurfaceNode where
  seq : ℕ
  tokens : ℤ
  heuristicTokens : ℤ
  deriving DecidableEq

/-- The price of one text block. -/
def textBlockTokens (text : String) : ℕ :=
  estimateContent [.obj [("type", .str "text"), ("text", .str text)]]

/-- The price of a node's files under their request text. -/
def fileTokens (fileText : Option (Json → String)) (node : MeterSurfaceNode) : ℤ :=
  match fileText with
  | some fileText =>
    if node.files = [] then 0
    else ((node.files.map fun file => textBlockTokens (fileText file)).sum : ℤ)
      - node.fileStructuralTokens
  | none => 0

/-- The price of a node's images under the route. -/
def imageTokens (prices : List LlmImageRequestPrice) (node : MeterSurfaceNode) : ℤ :=
  if node.images = [] then 0
  else ((prices.map fun price => price.visualTokens + textBlockTokens price.text).sum : ℤ)
    - node.imageStructuralTokens

/-- Price the nodes in order, each taking the prices of its own images. -/
def priceNodes (pricing : Option LlmImageRequestPricing) (fileText : Option (Json → String)) :
    List MeterSurfaceNode → List LlmImageRequestPrice → List TokenSurfaceNode
  | [], _ => []
  | node :: nodes, prices =>
    let own := prices.take node.images.length
    let tokens := node.heuristicTokens + fileTokens fileText node
      + (if pricing.isSome then imageTokens own node else 0)
    ⟨node.seq, tokens, node.heuristicTokens⟩
      :: priceNodes pricing fileText nodes (prices.drop node.images.length)

/-- Price one ordered surface under its model-request attachment projection. -/
def priceSurface (nodes : List MeterSurfaceNode) (pricing : Option LlmImageRequestPricing)
    (fileText : Option (Json → String)) : Except String (List TokenSurfaceNode) :=
  let images := if pricing.isNone then [] else nodes.flatMap (·.images)
  let hasFiles := fileText.isSome && nodes.any fun node => !node.files.isEmpty
  if (pricing.isNone || images.isEmpty) && !hasFiles then
    .ok (nodes.map fun node => ⟨node.seq, node.heuristicTokens, node.heuristicTokens⟩)
  else
    let prices := (pricing.map fun pricing => pricing.priceImages images).getD []
    if pricing.isSome && prices.length != images.length then
      .error s!"token meter: route image pricing answered {prices.length} prices for {images.length} occurrences"
    else .ok (priceNodes pricing fileText nodes prices)

/-! ## Measurements -/

/-- The surface part of a measurement at one consumed log revision. -/
structure TokenMeasurement where
  logRevision : ℕ
  surfaceTokens : ℤ
  nodes : List TokenSurfaceNode
  deriving DecidableEq

/-- `Math.max(0, Math.round(tokens * multiplier))`. -/
def scaleTokens (tokens : ℤ) (multiplier : ℚ) : ℤ := max 0 ⌊tokens * multiplier + 1 / 2⌋

/-- Rescale a measurement's heuristic prices by one multiplier. -/
def rescaleMeasurement (measurement : TokenMeasurement) (multiplier : ℚ) : TokenMeasurement :=
  let nodes := measurement.nodes.map fun node =>
    (⟨node.seq, scaleTokens node.tokens multiplier,
      scaleTokens node.heuristicTokens multiplier⟩ : TokenSurfaceNode)
  { logRevision := measurement.logRevision
    surfaceTokens := (nodes.map (·.tokens)).sum
    nodes := nodes }

/-- What a measurement reads besides the log: the pricing of the mounted routes, the file
text of the mounted service, and the multiplier of the calibration plugin, if mounted. -/
structure Meter where
  imageRequestPricing : Json → Json → Option LlmImageRequestPricing
  fileRequestText : Option (Json → String)
  sessionMultiplier : Option ℚ

namespace Meter

/-- The routed model's image pricing, when the route declares one. -/
def routeImagePricing (meter : Meter) (header : Option Json) : Option LlmImageRequestPricing :=
  (header.bind (·.get? "config")).bind fun config =>
    meter.imageRequestPricing ((config.get? "provider").getD .null)
      ((config.get? "model").getD .null)

/-- The meter's own measurement of a log. -/
def measureRoute (meter : Meter) (log : List SessionEvent) : Except String TokenMeasurement := do
  let state ← log.foldlM MeterState.foldEvent .init
  let nodes ← priceSurface state.surface (meter.routeImagePricing state.header)
    meter.fileRequestText
  pure ⟨log.length, (nodes.map (·.tokens)).sum, nodes⟩

/-- The measurement its callers read: rescaled where the calibration plugin is mounted. -/
def measure (meter : Meter) (log : List SessionEvent) : Except String TokenMeasurement := do
  let measurement ← meter.measureRoute log
  match meter.sessionMultiplier with
  | none => pure measurement
  | some multiplier =>
    if multiplier = 1 then pure measurement
    else pure (rescaleMeasurement measurement multiplier)

end Meter

end TianmaCoder
