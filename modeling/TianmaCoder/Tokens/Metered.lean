import TianmaCoder.Tokens.Meter
import TianmaCoder.Tokens.Occupancy

/-!
# What a measurement says of the surface

The meter replays the surface of the session: whatever route prices a measurement, its nodes
stand at the surface positions, and its heuristic prices are those of the events there.

## Main results

* `MeterState.surface_eq` — the nodes of the replay fold are the priced surface.
* `Meter.measure_cases` — the nodes of a measurement, before and after calibration.
-/

namespace TianmaCoder

open Checked

variable [NumberText] {projections : List SessionMessageProjection}

/-! ## The replay fold -/

variable {log : List SessionEvent} {acc : SurfaceFoldState × List SurfaceFoldReplacement}
  {event : SessionEvent}

theorem foldSurfaceTokens_priced {plan : Option SurfacePlan} {nodes nodes' : List MeterSurfaceNode}
    (hdeclared : DeclaredProjections projections)
    (hlog : foldSurfaceState log projections = .ok acc)
    (hplan : planSurfaceEvent acc.1 event log.length log 0 projections = .ok plan)
    (hnodes : nodes.map (·.toPricedNode) = pricedSurface log acc.1.nodes)
    (hfold : foldSurfaceTokens nodes event = .ok nodes') :
    nodes'.map (·.toPricedNode)
      = pricedSurface (log ++ [event]) (applySurfacePlan acc.1 plan).1.nodes := by
  have hsurface := (pricedSurface_step hdeclared hlog hplan).2
  unfold foldSurfaceTokens at hfold
  cases hop : isSurfaceEvent event with
  | none =>
    rw [hop] at hsurface hfold
    simp only [pure_eq, Except.ok.injEq] at hfold
    rw [hsurface, ← hfold, hnodes]
  | some op =>
    rw [hop] at hsurface hfold
    obtain ⟨tokenPlan, htokenPlan, -, -, -, hsurface⟩ := hsurface
    simp only [hnodes, htokenPlan, ok_bind, pure_eq, Except.ok.injEq] at hfold
    rw [← hfold, map_commitSurfaceTokens, hnodes, hsurface]

omit [NumberText] in
theorem toPricedNode_offload (node : MeterSurfaceNode) (event : SessionEvent) :
    (node.offload event).toPricedNode = node.toPricedNode := by
  unfold MeterSurfaceNode.offload
  cases offloadedIndexes event node.seq <;> rfl

namespace MeterState

variable {state : MeterState}

omit [NumberText] in
theorem enter_surface {entered : MeterState} (h : state.enter event = .ok entered) :
    entered.surface.map (·.toPricedNode) = state.surface.map (·.toPricedNode) := by
  unfold enter at h
  split at h
  · cases h
    simp only [List.map_map]
    exact List.map_congr_left fun node _ => toPricedNode_offload node event
  · cases h
    rfl
  · split at h <;> cases h
    rfl
  · split at h <;> cases h
    rfl
  · split at h <;> cases h
    rfl
  · cases h
    rfl

omit [NumberText] in
theorem enter_header {entered : MeterState} (h : state.enter event = .ok entered) :
    entered.header = if event.type = .requestHeader then
      some (canonicalHeader ((event.field "header").getD .null)) else state.header := by
  unfold enter at h
  split at h
  · next htype =>
      cases h
      simp [htype]
  · next htype =>
      cases h
      simp [htype]
  · next htype =>
      split at h <;> cases h
      simp [htype]
  · next htype =>
      split at h <;> cases h
      simp [htype]
  · next htype =>
      split at h <;> cases h
      simp [htype]
  · next hother _ _ _ =>
      cases h
      rw [if_neg hother]

theorem surface_eq (hdeclared : DeclaredProjections projections)
    (hlog : foldSurfaceState log projections = .ok acc)
    (hstate : log.foldlM foldEvent .init = .ok state) :
    state.surface.map (·.toPricedNode) = pricedSurface log acc.1.nodes := by
  refine foldSurfaceState_induction
    (motive := fun log acc => ∀ state, log.foldlM foldEvent .init = .ok state →
      state.surface.map (·.toPricedNode) = pricedSurface log acc.1.nodes) ?_ ?_ hlog state hstate
  · intro state hstate
    cases hstate
    rfl
  · intro log event acc plan hlog ih hplan state hstate
    rw [foldlM_snoc] at hstate
    obtain ⟨before, hbefore, hstate⟩ := bind_ok hstate
    obtain ⟨entered, hentered, hstate⟩ := bind_ok hstate
    obtain ⟨surface, hsurface, hstate⟩ := bind_ok hstate
    cases hstate
    exact foldSurfaceTokens_priced hdeclared hlog hplan
      ((enter_surface hentered).trans (ih before hbefore)) hsurface

end MeterState

/-! ## Route pricing -/

theorem priceNodes_heuristic (pricing : Option LlmImageRequestPricing)
    (fileText : Option (Json → String)) (nodes : List MeterSurfaceNode)
    (prices : List LlmImageRequestPrice) :
    (priceNodes pricing fileText nodes prices).map (fun node => (node.seq, node.heuristicTokens))
      = nodes.map fun node => (node.seq, (node.heuristicTokens : ℤ)) := by
  induction nodes generalizing prices with
  | nil => rfl
  | cons node nodes ih =>
    simp only [priceNodes, List.map_cons]
    rw [ih]

variable {pricing : Option LlmImageRequestPricing}

theorem priceSurface_heuristic {nodes : List MeterSurfaceNode} {fileText : Option (Json → String)}
    {priced : List TokenSurfaceNode} (h : priceSurface nodes pricing fileText = .ok priced) :
    priced.map (fun node => (node.seq, node.heuristicTokens))
      = nodes.map fun node => (node.seq, (node.heuristicTokens : ℤ)) := by
  unfold priceSurface at h
  simp only at h
  generalize (if pricing.isNone then [] else nodes.flatMap (·.images)) = images at h
  generalize (pricing.map fun pricing => pricing.priceImages images).getD [] = prices at h
  split at h
  · cases h
    simp [Function.comp_def]
  · split at h
    · cases h
    · cases h
      exact priceNodes_heuristic _ _ _ _

/-! ## Pricing occurrence by occurrence -/

/-- The pricing answers for each occurrence on its own. -/
def LlmImageRequestPricing.PerOccurrence (pricing : LlmImageRequestPricing) : Prop :=
  ∃ price, ∀ images, pricing.priceImages images = images.map price

/-- The price of one node under a route that prices occurrence by occurrence. -/
def nodePrice (pricing : Option LlmImageRequestPricing) (fileText : Option (Json → String))
    (node : MeterSurfaceNode) : ℤ :=
  node.heuristicTokens + fileTokens fileText node
    + match pricing with
      | some pricing => imageTokens (pricing.priceImages node.images) node
      | none => 0

theorem priceNodes_eq (fileText : Option (Json → String))
    (hpricing : ∀ p, pricing = some p → p.PerOccurrence) (nodes : List MeterSurfaceNode) :
    priceNodes pricing fileText nodes
        ((pricing.map fun p => p.priceImages (nodes.flatMap (·.images))).getD [])
      = nodes.map fun node =>
          ⟨node.seq, nodePrice pricing fileText node, node.heuristicTokens⟩ := by
  cases pricing with
  | none =>
    simp only [Option.map_none, Option.getD_none]
    induction nodes with
    | nil => rfl
    | cons node nodes ih =>
      simp only [priceNodes, List.drop_nil, List.map_cons, ih]
      simp [nodePrice]
  | some p =>
    obtain ⟨price, hprice⟩ := hpricing p rfl
    simp only [Option.map_some, Option.getD_some, hprice]
    induction nodes with
    | nil => rfl
    | cons node nodes ih =>
      have htake : ((node :: nodes).flatMap (·.images)).map price
          = node.images.map price ++ (nodes.flatMap (·.images)).map price := by simp
      rw [htake, priceNodes]
      simp only [List.take_left' (List.length_map price), List.drop_left' (List.length_map price),
        Option.isSome_some, if_true, List.map_cons, ih, nodePrice, hprice]

/-- A surface priced occurrence by occurrence is priced node by node, and never refused. -/
theorem priceSurface_eq {fileText : Option (Json → String)}
    (hpricing : ∀ p, pricing = some p → p.PerOccurrence) (nodes : List MeterSurfaceNode) :
    priceSurface nodes pricing fileText = .ok (nodes.map fun node =>
      ⟨node.seq, nodePrice pricing fileText node, node.heuristicTokens⟩) := by
  have hnodes := priceNodes_eq fileText hpricing nodes
  unfold priceSurface
  simp only
  -- The shortcut is taken when no occurrence is priced apart from the heuristic.
  cases hfiles : fileText.isSome && nodes.any fun node => !node.files.isEmpty with
  | true =>
    cases pricing with
    | none =>
      simp only [Option.map_none, Option.getD_none] at hnodes
      simp [hnodes]
    | some p =>
      obtain ⟨price, hprice⟩ := hpricing p rfl
      simp only [Option.map_some, Option.getD_some, hprice] at hnodes
      simp [hnodes, hprice]
  | false =>
    have hfileTokens : ∀ node ∈ nodes, fileTokens fileText node = 0 := by
      intro node hmem
      unfold fileTokens
      cases fileText with
      | none => rfl
      | some text =>
        have hempty : node.files = [] := by
          simp only [Option.isSome_some, Bool.true_and, List.any_eq_false] at hfiles
          simpa using hfiles node hmem
        simp [hempty]
    cases pricing with
    | none =>
      simp only [Option.isNone_none, Bool.true_or, Bool.not_false, Bool.and_self, if_true]
      congr 1
      refine List.map_congr_left ?_
      intro node hmem
      simp [nodePrice, hfileTokens node hmem]
    | some p =>
      obtain ⟨price, hprice⟩ := hpricing p rfl
      simp only [Option.map_some, Option.getD_some, hprice] at hnodes
      cases himages : (nodes.flatMap (·.images)).isEmpty with
      | false => simp [himages, hnodes, hprice]
      | true =>
        have hnone : ∀ node ∈ nodes, node.images = [] := by
          simpa [List.flatMap_eq_nil_iff] using himages
        simp only [Option.isNone_some, Bool.false_eq_true, if_false, himages, Bool.or_true,
          Bool.not_false, Bool.and_self, if_true]
        congr 1
        refine List.map_congr_left ?_
        intro node hmem
        simp [nodePrice, hfileTokens node hmem, imageTokens, hnone node hmem]

namespace Meter

/-- The calibration of one node, where a multiplier other than one is mounted. -/
def calibrate (meter : Meter) (tokens : ℤ) : ℤ :=
  match meter.sessionMultiplier with
  | none => tokens
  | some multiplier => if multiplier = 1 then tokens else scaleTokens tokens multiplier

/-- The calibrated node of a priced one. -/
def calibrateNode (meter : Meter) (node : TokenSurfaceNode) : TokenSurfaceNode :=
  ⟨node.seq, meter.calibrate node.tokens, meter.calibrate node.heuristicTokens⟩

variable {meter : Meter} {measurement : TokenMeasurement}

/-- A measurement is the priced replay of its log, calibrated node by node. -/
theorem measure_cases (h : meter.measure log = .ok measurement) :
    ∃ state priced, log.foldlM MeterState.foldEvent .init = .ok state ∧
      priceSurface state.surface (meter.routeImagePricing state.header) meter.fileRequestText
        = .ok priced ∧
      measurement.nodes = priced.map meter.calibrateNode ∧
      measurement.surfaceTokens = (measurement.nodes.map (·.tokens)).sum := by
  unfold measure at h
  obtain ⟨route, hroute, h⟩ := bind_ok h
  unfold measureRoute at hroute
  obtain ⟨state, hstate, hroute⟩ := bind_ok hroute
  obtain ⟨priced, hpriced, hroute⟩ := bind_ok hroute
  cases hroute
  refine ⟨state, priced, hstate, hpriced, ?_⟩
  unfold calibrateNode calibrate
  cases hmultiplier : meter.sessionMultiplier with
  | none =>
    rw [hmultiplier] at h
    cases h
    simp
  | some multiplier =>
    rw [hmultiplier] at h
    by_cases hone : multiplier = 1
    · simp only [hone, if_true] at h ⊢
      cases h
      simp
    · simp only [hone, if_false] at h ⊢
      cases h
      exact ⟨rfl, rfl⟩

theorem measure_nodes (hdeclared : DeclaredProjections projections)
    (hlog : foldSurfaceState log projections = .ok acc) (h : meter.measure log = .ok measurement) :
    measurement.nodes.map (fun node => (node.seq, node.heuristicTokens))
      = acc.1.nodes.map fun seq => (seq, meter.calibrate (priceAt log seq)) := by
  obtain ⟨state, priced, hstate, hpriced, hnodes, -⟩ := measure_cases h
  have hsurface := MeterState.surface_eq hdeclared hlog hstate
  have hpairs := priceSurface_heuristic hpriced
  have hcalibrated : measurement.nodes.map (fun node => (node.seq, node.heuristicTokens))
      = (priced.map fun node => (node.seq, node.heuristicTokens)).map
          fun pair => (pair.1, meter.calibrate pair.2) := by
    rw [hnodes, List.map_map, List.map_map]
    rfl
  have hprices : (state.surface.map fun node => (node.seq, (node.heuristicTokens : ℤ)))
      = acc.1.nodes.map fun seq => (seq, (priceAt log seq : ℤ)) := by
    have h := congrArg (List.map fun node : PricedNode => (node.seq, (node.heuristicTokens : ℤ)))
      hsurface
    simpa [pricedSurface, Function.comp_def] using h
  rw [hcalibrated, hpairs, hprices, List.map_map]
  rfl

theorem measure_seqs (hdeclared : DeclaredProjections projections)
    (hlog : foldSurfaceState log projections = .ok acc) (h : meter.measure log = .ok measurement) :
    measurement.nodes.map (·.seq) = acc.1.nodes := by
  have hpairs := congrArg (List.map Prod.fst) (measure_nodes hdeclared hlog h)
  simpa [Function.comp_def] using hpairs

/-- Every mounted route prices occurrence by occurrence. -/
def PerOccurrence (meter : Meter) : Prop :=
  ∀ provider model pricing, meter.imageRequestPricing provider model = some pricing →
    pricing.PerOccurrence

/-- What a measurement under a header says of one node. -/
def priceOf (meter : Meter) (header : Option Json) (node : MeterSurfaceNode) : ℤ :=
  meter.calibrate (nodePrice (meter.routeImagePricing header) meter.fileRequestText node)

/-- The measured nodes of a replay state. -/
def measured (meter : Meter) (state : MeterState) : List TokenSurfaceNode :=
  state.surface.map fun node =>
    ⟨node.seq, meter.priceOf state.header node, meter.calibrate node.heuristicTokens⟩

/-- Under routes that price occurrence by occurrence, a log that the replay folds is measured
node by node. -/
theorem measure_eq (hmeter : meter.PerOccurrence) {state : MeterState}
    (hstate : log.foldlM MeterState.foldEvent .init = .ok state) :
    meter.measure log
      = .ok ⟨log.length, ((meter.measured state).map (·.tokens)).sum, meter.measured state⟩ := by
  have hroute : ∀ p, meter.routeImagePricing state.header = some p → p.PerOccurrence := by
    intro p hp
    unfold routeImagePricing at hp
    obtain ⟨config, -, hp⟩ := Option.bind_eq_some_iff.mp hp
    exact hmeter _ _ p hp
  unfold measure measureRoute measured priceOf
  simp only [hstate, priceSurface_eq hroute, ok_bind, pure_eq]
  unfold calibrate
  cases meter.sessionMultiplier with
  | none => rfl
  | some multiplier =>
    by_cases hone : multiplier = 1
    · simp only [hone, if_true]
    · simp only [hone, if_false, rescaleMeasurement, List.map_map]
      rfl

theorem folded_of_measure (h : meter.measure log = .ok measurement) :
    ∃ state, log.foldlM MeterState.foldEvent .init = .ok state := by
  obtain ⟨state, -, hstate, -⟩ := measure_cases h
  exact ⟨state, hstate⟩

end Meter

end TianmaCoder
