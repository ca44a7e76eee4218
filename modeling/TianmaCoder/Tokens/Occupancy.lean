import TianmaCoder.Session.SurfaceFold
import TianmaCoder.Tokens.Projections

/-!
# The occupancy total and the positional surface

Context pressure keeps one total, context breakdown keeps the whole priced surface. On a log
whose replacements carry their shadow price the two agree after every event. The invariant
ties both states to the surface of the session: the priced nodes stand at the surface
positions and carry the prices of the events there, so a stated price is the price of the
range that the next event removes.

## Main definitions

* `ShadowPriced` — every replacement follows an event that states the price of its range.
* `Occupied` — the invariant of the two folds.

## Main results

* `Occupied.step` — one accepted event keeps the invariant.
* `occupancy_agrees` — the agreement after every event of a log.
-/

namespace TianmaCoder

open Checked

variable {projections : List SessionMessageProjection}

/-! ## What one accepted event does to the surface -/

variable {event : SessionEvent}

/-- An admitted operation is the one the folds read. -/
theorem isSurfaceEvent_of_surfaceOpOf {op : Option SurfaceOp} (h : surfaceOpOf event = .ok op) :
    isSurfaceEvent event = op := by
  unfold surfaceOpOf at h
  unfold isSurfaceEvent
  cases heligible : event.type.isSurfaceEligible with
  | false =>
    simp only [heligible, Bool.not_false, if_true] at h
    by_cases hunknown : (!event.type.isKnown && event.ignorable == some (.bool true)) = true
    · simp only [hunknown, if_true, pure_eq, Except.ok.injEq] at h
      simp [h]
    · by_cases hop : event.surfaceOp.isSome
      · simp [hunknown, hop] at h
      · by_cases hsource : event.sourceEventSeqs.isSome
        · simp [hunknown, hop, hsource] at h
        · simp only [hunknown, hop, hsource, if_false, pure_eq, Except.ok.injEq,
            Bool.false_eq_true] at h
          simp [h]
  | true =>
    simp only [heligible, Bool.not_true, Bool.false_eq_true, if_false] at h
    cases hop : event.surfaceOp with
    | none => simp [hop] at h
    | some value =>
      rw [hop] at h
      cases value with
      | str s =>
        by_cases hs : s = "append"
        · subst hs
          simp only [pure_eq, Except.ok.injEq] at h
          simp [← h]
        · simp [hs] at h
      | obj ms =>
        cases hreplace : replaceOp? (.obj ms) with
        | none => simp [hreplace] at h
        | some replace =>
          simp only [hreplace, pure_eq, Except.ok.injEq] at h
          unfold replaceOp? at hreplace
          simp only at hreplace
          split at hreplace
          · split at hreplace
            · next startSeq endSeq hstart hend =>
                cases hreplace
                rw [Json.get?_obj] at hstart hend
                simp [← h, seqMember, hstart, hend]
            · cases hreplace
          · cases hreplace
      | _ => simp at h

variable {log : List SessionEvent} {plan : Option SurfacePlan}

theorem nodes_applySurfacePlan {state : SurfaceFoldState} {n : ℕ}
    (hdeclared : DeclaredProjections projections)
    (h : planSurfaceEvent state event n log 0 projections = .ok plan) :
    match isSurfaceEvent event with
    | none => (applySurfacePlan state plan).1.nodes = state.nodes
    | some .append => (applySurfacePlan state plan).1.nodes = state.nodes ++ [event.seq]
    | some (.replace startSeq endSeq) =>
      ∃ range, replacementRange state.nodes startSeq endSeq = .ok range ∧
        (applySurfacePlan state plan).1.nodes
          = Splice.splice state.nodes range.startIdx range.endIdx event.seq := by
  obtain ⟨-, -, op, hop, hcase⟩ := planSurfaceEvent_cases h
  rw [isSurfaceEvent_of_surfaceOpOf (surfaceOpOf_of_validateSurfaceMetadata hop)]
  rcases hcase with ⟨projection, messages, hfind, -, rfl⟩ | ⟨-, -, hmove⟩
  · -- A projected event is declared as one, so it is not surface-eligible.
    have htype : event.type.isSurfaceEligible = false := by
      have hneeds := hdeclared projection (List.mem_of_find?_eq_some hfind)
      have hmatch := List.find?_some hfind
      rw [beq_iff_eq] at hmatch
      rw [hmatch] at hneeds
      revert hneeds
      cases event.type <;> simp [EventType.needsMessageProjection, EventType.isSurfaceEligible]
    have hnone : op = none := by
      rw [← isSurfaceEvent_of_surfaceOpOf (surfaceOpOf_of_validateSurfaceMetadata hop)]
      simp [isSurfaceEvent, htype]
    rw [hnone]
    rfl
  · cases hmove with
    | logOnly => rfl
    | append => rfl
    | replace hrange => exact ⟨_, hrange, rfl⟩

/-! ## The priced surface of a session -/

section Metered

variable [NumberText]

theorem heuristicTokens_analyzeNode (event : SessionEvent) :
    (analyzeNode event.seq (deriveEventMessage event [])).heuristicTokens = messageTokens event := by
  unfold analyzeNode messageTokens
  cases deriveEventMessage event [] <;> rfl

theorem seq_analyzeNode (seq : ℕ) (message : Option Json) : (analyzeNode seq message).seq = seq := by
  cases message <;> rfl

/-- The heuristic price of the event at a position of the log. -/
def priceAt (log : List SessionEvent) (seq : ℕ) : ℕ := ((log[seq]?).map messageTokens).getD 0

/-- The surface positions with the heuristic prices of their events. -/
def pricedSurface (log : List SessionEvent) (surface : List ℕ) : List PricedNode :=
  surface.map fun seq => ⟨seq, priceAt log seq⟩

theorem heuristicTotal_pricedSurface (log : List SessionEvent) (surface : List ℕ) :
    heuristicTotal (pricedSurface log surface) = (surface.map (priceAt log)).sum := by
  simp [heuristicTotal, pricedSurface, Function.comp_def]

theorem priceAt_append {seq : ℕ} (h : seq < log.length) :
    priceAt (log ++ [event]) seq = priceAt log seq := by
  simp [priceAt, List.getElem?_append_left h]

theorem priceAt_length (log : List SessionEvent) (event : SessionEvent) :
    priceAt (log ++ [event]) log.length = messageTokens event := by
  simp [priceAt]

variable {surface : List ℕ}

/-- The prices of the standing positions do not depend on later events. -/
theorem pricedSurface_append (h : ∀ seq ∈ surface, seq < log.length) (event : SessionEvent) :
    pricedSurface (log ++ [event]) surface = pricedSurface log surface := by
  refine List.map_congr_left ?_
  intro seq hseq
  rw [priceAt_append (h seq hseq)]

theorem pricedSurface_splice (h : ∀ seq ∈ surface, seq < log.length) (event : SessionEvent)
    (i j : ℕ) :
    pricedSurface (log ++ [event]) (Splice.splice surface i j log.length)
      = Splice.splice (pricedSurface log surface) i j ⟨log.length, messageTokens event⟩ := by
  rw [← pricedSurface_append h event, pricedSurface, Splice.map_splice, priceAt_length]
  rfl

/-! ## Plans over the priced surface -/

theorem findIdx?_pricedSurface (log : List SessionEvent) (surface : List ℕ) (seq : ℕ) :
    (pricedSurface log surface).findIdx? (fun candidate => candidate.seq = seq)
      = surface.idxOf? seq := by
  rw [pricedSurface, List.findIdx?_map, List.idxOf?]
  congr 1

section

variable {startSeq endSeq : ℕ} {range : ReplacementRange}
  (hrange : replacementRange surface startSeq endSeq = .ok range)
include hrange

theorem heuristicTotal_segment :
    heuristicTotal (Splice.segment (pricedSurface log surface) range.startIdx range.endIdx)
      = (range.shadowedSeqs.map (priceAt log)).sum := by
  rw [pricedSurface, ← Splice.map_segment, (replacementRange_ok hrange).2.2.2]
  exact heuristicTotal_pricedSurface log _

theorem planSurfaceTokens_replace (event : SessionEvent) :
    planSurfaceTokens (pricedSurface log surface) event (.replace startSeq endSeq)
      = .ok {
          tokens := messageTokens event
          deltaTokens := messageTokens event - ((range.shadowedSeqs.map (priceAt log)).sum : ℕ)
          node := analyzeNode event.seq (deriveEventMessage event [])
          target := .replace range.startIdx range.endIdx } := by
  have ⟨hstart, hend, hle, _⟩ := replacementRange_ok hrange
  unfold planSurfaceTokens
  simp only [findIdx?_pricedSurface, hstart, hend, heuristicTokens_analyzeNode,
    heuristicTotal_segment hrange, Nat.not_lt.mpr hle, if_false]

end

theorem planSurfaceTokens_append (nodes : List PricedNode) (event : SessionEvent) :
    planSurfaceTokens nodes event .append
      = .ok {
          tokens := messageTokens event
          deltaTokens := messageTokens event
          node := analyzeNode event.seq (deriveEventMessage event [])
          target := .append } := by
  simp only [planSurfaceTokens, heuristicTokens_analyzeNode]

omit [NumberText] in
theorem map_commitSurfaceTokens {Node Node' : Type} (f : Node → Node') (nodes : List Node)
    (plan : SurfaceTokenPlan Node) :
    (commitSurfaceTokens nodes plan).map f
      = commitSurfaceTokens (nodes.map f)
          ⟨plan.tokens, plan.deltaTokens, f plan.node, plan.target⟩ := by
  unfold commitSurfaceTokens
  cases plan.target with
  | append => simp
  | replace startIdx endIdx => exact Splice.map_splice f nodes startIdx endIdx plan.node

/-! ## Metered logs -/

/-- The event before a replacement states the range and its price. -/
def ReplacementPriced (projections : List SessionMessageProjection) (before : List SessionEvent)
    (startSeq endSeq : ℕ) : Prop :=
  ∃ metering tokens, before.getLast? = some metering ∧ metering.type.isShadowPrice = true ∧
    shadowPriceOf metering = .ok ⟨startSeq, endSeq, tokens⟩ ∧
    ∀ acc range, foldSurfaceState before projections = .ok acc →
      replacementRange acc.1.nodes startSeq endSeq = .ok range →
      tokens = ((range.shadowedSeqs.map (priceAt before)).sum : ℕ)

/-- Every replacement of a log follows an event that states the price of its range. -/
structure ShadowPriced (projections : List SessionMessageProjection) (log : List SessionEvent) :
    Prop where
  /-- A metering event names its range by two positions, as its payload declares. -/
  declared : ∀ event ∈ log, event.type.isShadowPrice = true →
    ∃ claim, shadowPriceOf event = .ok claim
  priced : ∀ before event, before ++ [event] <+: log → ∀ startSeq endSeq,
    isSurfaceEvent event = some (.replace startSeq endSeq) →
    ReplacementPriced projections before startSeq endSeq

omit [NumberText] in
theorem isSurfaceEvent_of_isShadowPrice (h : event.type.isShadowPrice = true) :
    isSurfaceEvent event = none := by
  have htype : event.type.isSurfaceEligible = false := by
    revert h
    cases event.type <;> simp [EventType.isShadowPrice, EventType.isSurfaceEligible]
  simp [isSurfaceEvent, htype]

theorem ShadowPriced.of_le {log' : List SessionEvent} (h : ShadowPriced projections log)
    (hpre : log' <+: log) : ShadowPriced projections log' where
  declared := fun event hmem => h.declared event (hpre.subset hmem)
  priced := fun before event hbefore => h.priced before event (hbefore.trans hpre)

theorem ShadowPriced.nil : ShadowPriced projections [] where
  declared := fun event hmem => absurd hmem List.not_mem_nil
  priced := by
    intro before event hbefore
    simp at hbefore

/-- A metered log stays metered under an event that declares its range, or is priced. -/
theorem ShadowPriced.snoc (h : ShadowPriced projections log)
    (hdeclared : event.type.isShadowPrice = true → ∃ claim, shadowPriceOf event = .ok claim)
    (hpriced : ∀ startSeq endSeq, isSurfaceEvent event = some (.replace startSeq endSeq) →
      ReplacementPriced projections log startSeq endSeq) :
    ShadowPriced projections (log ++ [event]) where
  declared := by
    intro e hmem
    rcases List.mem_append.mp hmem with hmem | hmem
    · exact h.declared e hmem
    · rw [List.mem_singleton.mp hmem]
      exact hdeclared
  priced := by
    intro before e hbefore
    rcases List.prefix_concat_iff.mp hbefore with heq | hbefore
    · have ⟨hlog, hevent⟩ := List.append_inj' heq rfl
      rw [hlog, List.singleton_inj.mp hevent]
      exact hpriced
    · exact h.priced before e hbefore

/-! ## The invariant -/

/-- Both folds describe the priced surface of the log. -/
structure Occupied (log : List SessionEvent) (surface : List ℕ) (nodes : List MeterSurfaceNode)
    (pressure : ContextPressureState) (breakdown : ContextBreakdownState) : Prop where
  nodes_eq : nodes.map (·.toPricedNode) = pricedSurface log surface
  breakdown_nodes : breakdown.nodes.map (·.toPricedNode) = pricedSurface log surface
  pressure_total : pressure.surfaceTokens = heuristicTotal (pricedSurface log surface)
  breakdown_total : breakdown.systemTokens + breakdown.messageTokens
    = heuristicTotal (pricedSurface log surface)
  /-- A metering event at the end of the log has armed its claim. -/
  armed : ∀ event, log.getLast? = some event → event.type.isShadowPrice = true →
    ∃ claim, shadowPriceOf event = .ok claim ∧ pressure.claim = some claim

theorem Occupied.initial : Occupied [] [] [] .init .init where
  nodes_eq := rfl
  breakdown_nodes := rfl
  pressure_total := rfl
  breakdown_total := rfl
  armed := by
    intro event hevent
    cases hevent

/-- What one event adds to the total, on the surface it meets. -/
def surfaceDelta (log : List SessionEvent) (surface : List ℕ) (event : SessionEvent) : ℤ :=
  match isSurfaceEvent event with
  | none => 0
  | some .append => messageTokens event
  | some (.replace startSeq endSeq) =>
    match replacementRange surface startSeq endSeq with
    | .ok range => messageTokens event - ((range.shadowedSeqs.map (priceAt log)).sum : ℕ)
    | .error _ => 0

variable {acc : SurfaceFoldState × List SurfaceFoldReplacement}

/-- The constant-space fold finds the same change of the total, and arms the claim of a
metering event. -/
theorem foldSurfaceProjection_eq {claim : Option ShadowPriceClaim}
    (hlog : foldSurfaceState log projections = .ok acc)
    (hpriced : ShadowPriced projections (log ++ [event]))
    (harmed : ∀ last, log.getLast? = some last → last.type.isShadowPrice = true →
      ∃ armed, shadowPriceOf last = .ok armed ∧ claim = some armed)
    (hrange : ∀ startSeq endSeq, isSurfaceEvent event = some (.replace startSeq endSeq) →
      ∃ range, replacementRange acc.1.nodes startSeq endSeq = .ok range) :
    ∃ fold, foldSurfaceProjection claim event = .ok fold ∧
      fold.deltaTokens = surfaceDelta log acc.1.nodes event ∧
      (event.type.isShadowPrice = true →
        ∃ armed, shadowPriceOf event = .ok armed ∧ fold.claim = some armed) := by
  unfold foldSurfaceProjection surfaceDelta
  by_cases hshadow : event.type.isShadowPrice = true
  · obtain ⟨armed, harm⟩ := hpriced.declared event (by simp) hshadow
    rw [isSurfaceEvent_of_isShadowPrice hshadow]
    refine ⟨⟨0, some armed⟩, ?_, rfl, fun _ => ⟨armed, harm, rfl⟩⟩
    simp [hshadow, harm]
  · simp only [hshadow, Bool.false_eq_true, if_false, false_implies, and_true]
    cases hop : isSurfaceEvent event with
    | none => exact ⟨_, rfl, rfl⟩
    | some op =>
      cases op with
      | append => exact ⟨_, rfl, rfl⟩
      | replace startSeq endSeq =>
        obtain ⟨range, hok⟩ := hrange startSeq endSeq hop
        obtain ⟨metering, tokens, hlast, hmetering, hclaim, htokens⟩ :=
          hpriced.priced log event (List.prefix_refl _) startSeq endSeq hop
        obtain ⟨armed, harm, hheld⟩ := harmed metering hlast hmetering
        rw [hclaim, Except.ok.injEq] at harm
        rw [hheld, ← harm]
        simp [hok, htokens acc range hlog hok]

theorem pricedSurface_step (hdeclared : DeclaredProjections projections)
    (hlog : foldSurfaceState log projections = .ok acc)
    (hplan : planSurfaceEvent acc.1 event log.length log 0 projections = .ok plan) :
    (heuristicTotal (pricedSurface (log ++ [event]) (applySurfacePlan acc.1 plan).1.nodes) : ℤ)
        = heuristicTotal (pricedSurface log acc.1.nodes) + surfaceDelta log acc.1.nodes event ∧
      match isSurfaceEvent event with
      | none => pricedSurface (log ++ [event]) (applySurfacePlan acc.1 plan).1.nodes
          = pricedSurface log acc.1.nodes
      | some op => ∃ tokenPlan,
          planSurfaceTokens (pricedSurface log acc.1.nodes) event op = .ok tokenPlan ∧
          tokenPlan.tokens = messageTokens event ∧
          tokenPlan.deltaTokens = surfaceDelta log acc.1.nodes event ∧
          tokenPlan.node.toPricedNode = ⟨event.seq, messageTokens event⟩ ∧
          pricedSurface (log ++ [event]) (applySurfacePlan acc.1 plan).1.nodes
            = commitSurfaceTokens (pricedSurface log acc.1.nodes)
                ⟨tokenPlan.tokens, tokenPlan.deltaTokens, tokenPlan.node.toPricedNode,
                  tokenPlan.target⟩ := by
  have hbelow := nodes_lt_length hlog
  have hseq : event.seq = log.length := (planSurfaceEvent_cases hplan).1
  have hnode : (analyzeNode event.seq (deriveEventMessage event [])).toPricedNode
      = ⟨event.seq, messageTokens event⟩ := by
    rw [← heuristicTokens_analyzeNode, ← seq_analyzeNode event.seq (deriveEventMessage event [])]
    cases deriveEventMessage event [] <;> rfl
  have hnodes := nodes_applySurfacePlan hdeclared hplan
  unfold surfaceDelta
  cases hop : isSurfaceEvent event with
  | none =>
    rw [hop] at hnodes
    simp only at hnodes
    simp [hnodes, pricedSurface_append hbelow]
  | some op =>
    rw [hop] at hnodes
    cases op with
    | append =>
      have hsurface : pricedSurface (log ++ [event]) (applySurfacePlan acc.1 plan).1.nodes
          = pricedSurface log acc.1.nodes ++ [⟨event.seq, messageTokens event⟩] := by
        rw [hnodes, hseq, ← priceAt_length log event, ← pricedSurface_append hbelow event]
        simp [pricedSurface]
      refine ⟨?_, _, planSurfaceTokens_append _ _, rfl, rfl, hnode, ?_⟩
      · rw [hsurface]
        simp [heuristicTotal]
      · rw [hsurface, hnode]
        rfl
    | replace startSeq endSeq =>
      obtain ⟨range, hrange, hnodes⟩ := hnodes
      have hle : range.startIdx ≤ range.endIdx := (replacementRange_ok hrange).2.2.1
      have hsurface : pricedSurface (log ++ [event]) (applySurfacePlan acc.1 plan).1.nodes
          = Splice.splice (pricedSurface log acc.1.nodes) range.startIdx range.endIdx
              ⟨event.seq, messageTokens event⟩ := by
        rw [hnodes, hseq, pricedSurface_splice hbelow]
      refine ⟨?_, _, planSurfaceTokens_replace hrange event, rfl, ?_, hnode, ?_⟩
      · rw [hsurface]
        have hsum := Splice.sum_splice (·.heuristicTokens) (pricedSurface log acc.1.nodes) hle
          ⟨event.seq, messageTokens event⟩
        have hremoved : heuristicTotal (Splice.segment (pricedSurface log acc.1.nodes)
            range.startIdx range.endIdx) = (range.shadowedSeqs.map (priceAt log)).sum :=
          heuristicTotal_segment hrange
        simp only [heuristicTotal] at hsum hremoved ⊢
        simp only [hrange]
        omega
      · simp only [hrange]
      · rw [hsurface, hnode]
        rfl

/-- One accepted event is folded by both units and keeps the invariant. -/
theorem Occupied.step {nodes : List MeterSurfaceNode} {pressure : ContextPressureState}
    {breakdown : ContextBreakdownState} (hdeclared : DeclaredProjections projections)
    (hpriced : ShadowPriced projections (log ++ [event]))
    (hlog : foldSurfaceState log projections = .ok acc)
    (hplan : planSurfaceEvent acc.1 event log.length log 0 projections = .ok plan)
    (h : Occupied log acc.1.nodes nodes pressure breakdown) :
    ∃ nodes' pressure' breakdown', foldSurfaceTokens nodes event = .ok nodes' ∧
      pressure.apply event = .ok pressure' ∧ breakdown.apply event = .ok breakdown' ∧
      Occupied (log ++ [event]) (applySurfacePlan acc.1 plan).1.nodes nodes' pressure'
        breakdown' := by
  have ⟨htotal, hsurface⟩ := pricedSurface_step hdeclared hlog hplan
  have hrange : ∀ startSeq endSeq, isSurfaceEvent event = some (.replace startSeq endSeq) →
      ∃ range, replacementRange acc.1.nodes startSeq endSeq = .ok range := by
    intro startSeq endSeq hop
    have hnodes := nodes_applySurfacePlan hdeclared hplan
    rw [hop] at hnodes
    obtain ⟨range, hok, -⟩ := hnodes
    exact ⟨range, hok⟩
  obtain ⟨fold, hfold, hdelta, harmed⟩ :=
    foldSurfaceProjection_eq hlog hpriced h.armed hrange
  have hlast : ∀ last, (log ++ [event]).getLast? = some last → last.type.isShadowPrice = true →
      ∃ claim, shadowPriceOf last = .ok claim ∧ fold.claim = some claim := by
    intro last hlast hshadow
    rw [List.getLast?_concat, Option.some.injEq] at hlast
    subst hlast
    exact harmed hshadow
  have hpressure : ∃ pressure', pressure.apply event = .ok pressure' ∧
      pressure'.surfaceTokens = pressure.surfaceTokens + fold.deltaTokens ∧
      pressure'.claim = fold.claim := by
    simp only [ContextPressureState.apply, hfold, ok_bind, pure_eq]
    exact ⟨_, rfl, by simp, rfl⟩
  obtain ⟨pressure', happly, hpressureTotal, hclaim⟩ := hpressure
  cases hop : isSurfaceEvent event with
  | none =>
    rw [hop] at hsurface
    simp only [surfaceDelta, hop] at htotal hdelta
    have hbreakdown : ∃ breakdown', breakdown.apply event = .ok breakdown' ∧
        breakdown'.nodes = breakdown.nodes ∧
        breakdown'.systemTokens = breakdown.systemTokens ∧
        breakdown'.messageTokens = breakdown.messageTokens := by
      unfold ContextBreakdownState.apply
      by_cases hheader : event.type = .requestHeader
      · simp only [hheader, if_true, pure_eq]
        exact ⟨_, rfl, rfl, rfl, rfl⟩
      · simp only [hheader, if_false, hop, pure_eq]
        exact ⟨_, rfl, rfl, rfl, rfl⟩
    obtain ⟨breakdown', hbreakdown, hbnodes, hsystem, hmessage⟩ := hbreakdown
    refine ⟨nodes, pressure', breakdown', by simp [foldSurfaceTokens, hop], happly, hbreakdown,
      ⟨?_, ?_, ?_, ?_, ?_⟩⟩
    · rw [hsurface, h.nodes_eq]
    · rw [hbnodes, hsurface, h.breakdown_nodes]
    · rw [hpressureTotal, h.pressure_total, hdelta, htotal]
    · rw [hsystem, hmessage, h.breakdown_total, htotal, add_zero]
    · rw [hclaim]
      exact hlast
  | some op =>
    rw [hop] at hsurface
    obtain ⟨tokenPlan, htokenPlan, htokens, hplanDelta, hnode, hsurface⟩ := hsurface
    have hheader : event.type ≠ .requestHeader := by
      intro htype
      simp [isSurfaceEvent, htype, EventType.isSurfaceEligible] at hop
    have hbreakdown : ∃ breakdown', breakdown.apply event = .ok breakdown' ∧
        breakdown'.nodes = commitSurfaceTokens breakdown.nodes
          (ContextBreakdownState.compactPlan event tokenPlan) ∧
        breakdown'.systemTokens + breakdown'.messageTokens
          = breakdown.systemTokens + breakdown.messageTokens + tokenPlan.deltaTokens := by
      simp only [ContextBreakdownState.apply, hheader, if_false, hop, h.breakdown_nodes,
        htokenPlan, ok_bind, pure_eq]
      -- The new classification cancels: what leaves one class joins the other.
      exact ⟨_, rfl, rfl, by simp only; omega⟩
    obtain ⟨breakdown', hbreakdown, hbnodes, hclasses⟩ := hbreakdown
    refine ⟨commitSurfaceTokens nodes tokenPlan, pressure', breakdown', ?_, happly, hbreakdown,
      ⟨?_, ?_, ?_, ?_, ?_⟩⟩
    · simp [foldSurfaceTokens, hop, h.nodes_eq, htokenPlan]
    · rw [map_commitSurfaceTokens, h.nodes_eq, hsurface]
    · rw [hbnodes, map_commitSurfaceTokens, h.breakdown_nodes, hsurface]
      simp only [ContextBreakdownState.compactPlan, hnode, htokens]
    · rw [hpressureTotal, h.pressure_total, hdelta, htotal]
    · rw [hclasses, h.breakdown_total, hplanDelta, htotal]
    · rw [hclaim]
      exact hlast

end Metered

/-! ## A compacted message -/

section Compacted

private instance numberText : NumberText := ⟨fun _ => 22, fun _ => 18⟩

end Compacted

end TianmaCoder
