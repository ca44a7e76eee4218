import TianmaCoder.Tokens.Occupancy

/-!
# The running total under unmetered prompt rewrites

Not every replacement states its price: the agent loop rewrites the system prompt in place,
over surface node 0 or down to an empty message, and the running total stands still there.
The total then drifts from the surface, but it never falls below the price of the nodes that a
metered replacement can still remove, because node 0 is protected while it holds the prompt.

## Main definitions

* `PromptRewrite`, `Covered` — the replacements of a log.
* `Solvent` — the total covers the removable surface.

## Main results

* `surfaceTokens_nonneg` — the total of a covered log is never negative.
-/

namespace TianmaCoder

open Checked

variable [NumberText] {projections : List SessionMessageProjection}

/-! ## Covered logs -/

/-- A system message over one node that no metering event precedes: an empty one, or a rewrite
of surface node 0. -/
structure PromptRewrite (projections : List SessionMessageProjection) (before : List SessionEvent)
    (event : SessionEvent) (startSeq endSeq : ℕ) : Prop where
  type_eq : event.type = .systemMessage
  single : endSeq = startSeq
  unmetered : ∀ last, before.getLast? = some last → last.type.isShadowPrice = false
  emptied_or_head : messageTokens event = 0 ∨ ∀ acc, foldSurfaceState before projections = .ok acc →
    acc.1.nodes.head? = some startSeq

/-- A replacement of the surface: metered, or a rewrite of the prompt. -/
def ReplacementCovered (projections : List SessionMessageProjection) (before : List SessionEvent)
    (event : SessionEvent) (startSeq endSeq : ℕ) : Prop :=
  (event.type ≠ .systemMessage ∧ ReplacementPriced projections before startSeq endSeq) ∨
    PromptRewrite projections before event startSeq endSeq

/-- Every metering event declares its range, and every replacement is covered. -/
structure Covered (projections : List SessionMessageProjection) (log : List SessionEvent) :
    Prop where
  declared : ∀ event ∈ log, event.type.isShadowPrice = true →
    ∃ claim, shadowPriceOf event = .ok claim
  covered : ∀ before event, before ++ [event] <+: log → ∀ startSeq endSeq,
    isSurfaceEvent event = some (.replace startSeq endSeq) →
    ReplacementCovered projections before event startSeq endSeq

variable {log : List SessionEvent}

theorem Covered.of_le {log' : List SessionEvent} (h : Covered projections log) (hpre : log' <+: log) :
    Covered projections log' where
  declared := fun event hmem => h.declared event (hpre.subset hmem)
  covered := fun before event hbefore => h.covered before event (hbefore.trans hpre)

theorem Covered.nil : Covered projections [] where
  declared := fun event hmem => absurd hmem List.not_mem_nil
  covered := by
    intro before event hbefore
    simp at hbefore

variable {event : SessionEvent}

/-- A covered log stays covered under an event that declares its range and is covered. -/
theorem Covered.snoc (h : Covered projections log)
    (hdeclared : event.type.isShadowPrice = true → ∃ claim, shadowPriceOf event = .ok claim)
    (hcovered : ∀ startSeq endSeq, isSurfaceEvent event = some (.replace startSeq endSeq) →
      ReplacementCovered projections log event startSeq endSeq) :
    Covered projections (log ++ [event]) where
  declared := by
    intro e hmem
    rcases List.mem_append.mp hmem with hmem | hmem
    · exact h.declared e hmem
    · rw [List.mem_singleton.mp hmem]
      exact hdeclared
  covered := by
    intro before e hbefore
    rcases List.prefix_concat_iff.mp hbefore with heq | hbefore
    · have ⟨hlog, hevent⟩ := List.append_inj' heq rfl
      rw [hlog, List.singleton_inj.mp hevent]
      exact hcovered
    · exact h.covered before e hbefore

theorem Covered.snoc_plain (h : Covered projections log)
    (hshadow : event.type.isShadowPrice = false) (hop : event.surfaceOp = none) :
    Covered projections (log ++ [event]) := by
  refine h.snoc ?_ ?_
  · intro htrue
    rw [hshadow] at htrue
    cases htrue
  · intro startSeq endSeq hreplace
    simp [isSurfaceEvent, hop] at hreplace

/-! ## The protected head -/

/-- Whether the event at a position is a system message. -/
def isSystemAt (log : List SessionEvent) (seq : ℕ) : Bool :=
  (log[seq]?).any fun event => event.type == .systemMessage

/-- The price of surface node 0 while it holds the system prompt. -/
def protectedTokens (log : List SessionEvent) (nodes : List ℕ) : ℕ :=
  match nodes.head? with
  | none => 0
  | some head => if isSystemAt log head then priceAt log head else 0

omit [NumberText] in
theorem isSystemAt_append {seq : ℕ} (h : seq < log.length) :
    isSystemAt (log ++ [event]) seq = isSystemAt log seq := by
  simp [isSystemAt, List.getElem?_append_left h]

variable {nodes : List ℕ}

/-- The protected price does not depend on later events. -/
theorem protectedTokens_append (h : ∀ seq ∈ nodes, seq < log.length) (event : SessionEvent) :
    protectedTokens (log ++ [event]) nodes = protectedTokens log nodes := by
  unfold protectedTokens
  cases nodes with
  | nil => rfl
  | cons head nodes =>
    have hhead : head < log.length := h head (by simp)
    simp only [List.head?_cons, isSystemAt_append hhead, priceAt_append hhead]

theorem protectedTokens_le (log : List SessionEvent) (nodes : List ℕ) :
    protectedTokens log nodes ≤ heuristicTotal (pricedSurface log nodes) := by
  rw [heuristicTotal_pricedSurface]
  unfold protectedTokens
  cases nodes with
  | nil => simp
  | cons head nodes =>
    simp only [List.head?_cons, List.map_cons, List.sum_cons]
    split <;> omega

omit [NumberText] in
/-- Only a system message may replace a range that begins with the prompt. -/
theorem not_isSystemAt_of_assertSystemHeadRewrite {startIdx : ℕ} {shadowedSeqs : List ℕ}
    (h : assertSystemHeadRewrite event nodes startIdx shadowedSeqs log 0 = .ok ())
    (htype : event.type ≠ .systemMessage) (hstart : startIdx = 0) {head : ℕ}
    (hhead : nodes.head? = some head) : isSystemAt log head = false := by
  unfold assertSystemHeadRewrite at h
  unfold isSystemAt
  simp only [hstart, ne_eq, not_true_eq_false, if_false, hhead, Option.bind_some,
    windowEvent_zero] at h
  cases hevent : log[head]? with
  | none => rfl
  | some original =>
    rw [hevent] at h
    by_cases hsystem : original.type = .systemMessage
    · simp [hsystem, htype] at h
    · simp [hsystem]

theorem protectedTokens_splice (hbelow : ∀ seq ∈ nodes, seq < log.length) (event : SessionEvent)
    {startIdx endIdx : ℕ} (hstart : startIdx < nodes.length) :
    protectedTokens (log ++ [event]) (Splice.splice nodes startIdx endIdx log.length)
      = if startIdx = 0 then
          if event.type = .systemMessage then messageTokens event else 0
        else protectedTokens log nodes := by
  by_cases hzero : startIdx = 0
  · have hhead : (Splice.splice nodes startIdx endIdx log.length).head? = some log.length := by
      simp [Splice.splice, hzero]
    simp only [hzero, if_true] at hhead ⊢
    unfold protectedTokens
    simp only [hhead, priceAt_length]
    simp [isSystemAt]
  · have hhead : (Splice.splice nodes startIdx endIdx log.length).head? = nodes.head? := by
      cases nodes with
      | nil => cases hstart
      | cons head nodes =>
        obtain ⟨n, rfl⟩ := Nat.exists_eq_succ_of_ne_zero hzero
        simp [Splice.splice]
    simp only [hzero, if_false]
    rw [← protectedTokens_append hbelow event]
    unfold protectedTokens
    rw [hhead]

variable {range : ReplacementRange}

omit [NumberText] in
/-- A range begins at surface node 0 exactly when it begins with the first node. -/
theorem startIdx_eq_zero_iff {startSeq endSeq : ℕ}
    (h : replacementRange nodes startSeq endSeq = .ok range) :
    range.startIdx = 0 ↔ nodes.head? = some startSeq := by
  obtain ⟨hstart, -⟩ := replacementRange_ok h
  obtain ⟨hlt, hget, hfirst⟩ := List.idxOf?_eq_some_iff.mp hstart
  constructor
  · intro hzero
    simp only [hzero] at hlt hget
    rw [List.head?_eq_getElem?, List.getElem?_eq_getElem hlt, hget]
  · intro hhead
    by_contra hne
    have hpos : 0 < range.startIdx := Nat.pos_of_ne_zero hne
    rw [List.head?_eq_getElem?, List.getElem?_eq_getElem (hpos.trans hlt),
      Option.some.injEq] at hhead
    exact hfirst 0 hpos hhead

variable {acc : SurfaceFoldState × List SurfaceFoldReplacement}

/-- A metered replacement keeps the protected price: it does not touch the prompt. -/
theorem protectedTokens_le_of_plan {plan : Option SurfacePlan} {startSeq endSeq : ℕ}
    (hdeclared : DeclaredProjections projections) (hbelow : ∀ seq ∈ acc.1.nodes, seq < log.length)
    (hplan : planSurfaceEvent acc.1 event log.length log 0 projections = .ok plan)
    (hop : isSurfaceEvent event = some (.replace startSeq endSeq))
    (hrange : replacementRange acc.1.nodes startSeq endSeq = .ok range)
    (htype : event.type ≠ .systemMessage) :
    protectedTokens log acc.1.nodes
      ≤ protectedTokens (log ++ [event])
          (Splice.splice acc.1.nodes range.startIdx range.endIdx log.length) := by
  obtain ⟨hstart, -⟩ := replacementRange_ok hrange
  obtain ⟨hlt, hget, -⟩ := List.idxOf?_eq_some_iff.mp hstart
  rw [protectedTokens_splice hbelow event hlt]
  by_cases hzero : range.startIdx = 0
  · have hhead := (startIdx_eq_zero_iff hrange).mp hzero
    have hassert : assertSystemHeadRewrite event acc.1.nodes range.startIdx range.shadowedSeqs
        log 0 = .ok () := by
      obtain ⟨-, -, op, hmetadata, hcase⟩ := planSurfaceEvent_cases hplan
      have hsame := isSurfaceEvent_of_surfaceOpOf
        (surfaceOpOf_of_validateSurfaceMetadata hmetadata)
      rw [hop] at hsame
      rcases hcase with ⟨projection, _, hfind, -, -⟩ | ⟨-, -, hmove⟩
      · -- A projected event is not on the surface.
        have hneeds := hdeclared projection (List.mem_of_find?_eq_some hfind)
        have hmatch := List.find?_some hfind
        rw [beq_iff_eq] at hmatch
        rw [hmatch] at hneeds
        have hnone : isSurfaceEvent event = none := by
          unfold isSurfaceEvent
          revert hneeds
          cases event.type <;>
            simp [EventType.needsMessageProjection, EventType.isSurfaceEligible]
        rw [hnone] at hop
        cases hop
      · subst hsame
        cases hmove with
        | replace hrange' _ _ hassert =>
          rw [hrange, Except.ok.injEq] at hrange'
          exact hrange' ▸ hassert
    have hsystem := not_isSystemAt_of_assertSystemHeadRewrite hassert htype hzero hhead
    have hunprotected : protectedTokens log acc.1.nodes = 0 := by
      simp [protectedTokens, hhead, hsystem]
    omega
  · simp [hzero]

omit [NumberText] in
theorem replacementRange_single {seq : ℕ} (h : replacementRange nodes seq seq = .ok range) :
    range.endIdx = range.startIdx ∧ range.shadowedSeqs = [seq] := by
  obtain ⟨hstart, hend, -, hshadowed⟩ := replacementRange_ok h
  obtain ⟨hlt, hget, -⟩ := List.idxOf?_eq_some_iff.mp hstart
  have hsame : range.endIdx = range.startIdx := by
    rw [hstart, Option.some.injEq] at hend
    exact hend.symm
  refine ⟨hsame, ?_⟩
  rw [hshadowed, hsame, List.take_add_one, List.getElem?_eq_getElem hlt, hget]
  simp [Nat.min_eq_left hlt.le]

theorem total_le_of_promptRewrite {startSeq endSeq : ℕ}
    (hlog : foldSurfaceState log projections = .ok acc)
    (hprompt : PromptRewrite projections log event startSeq endSeq)
    (hrange : replacementRange acc.1.nodes startSeq endSeq = .ok range) :
    messageTokens event + protectedTokens log acc.1.nodes
      ≤ (range.shadowedSeqs.map (priceAt log)).sum
        + protectedTokens (log ++ [event])
            (Splice.splice acc.1.nodes range.startIdx range.endIdx log.length) := by
  have hsingle := hprompt.single
  subst hsingle
  obtain ⟨-, hshadowed⟩ := replacementRange_single hrange
  obtain ⟨hstart, -⟩ := replacementRange_ok hrange
  obtain ⟨hlt, hget, hfirst⟩ := List.idxOf?_eq_some_iff.mp hstart
  rw [protectedTokens_splice (nodes_lt_length hlog) event hlt, hshadowed, if_pos hprompt.type_eq]
  simp only [List.map_cons, List.map_nil, List.sum_cons, List.sum_nil, add_zero]
  have hhead := startIdx_eq_zero_iff hrange
  by_cases hzero : range.startIdx = 0
  · have hprotected : protectedTokens log acc.1.nodes ≤ priceAt log endSeq := by
      unfold protectedTokens
      rw [hhead.mp hzero]
      simp only
      split <;> omega
    rw [if_pos hzero]
    omega
  · have hempty : messageTokens event = 0 := by
      rcases hprompt.emptied_or_head with hempty | hnode
      · exact hempty
      · exact absurd (hhead.mpr (hnode acc hlog)) hzero
    rw [if_neg hzero]
    omega

/-! ## The invariant -/

/-- The total covers every node that a metered replacement may remove, and holds a claim
exactly behind a metering event. -/
structure Solvent (log : List SessionEvent) (nodes : List ℕ) (pressure : ContextPressureState) :
    Prop where
  covers : (heuristicTotal (pricedSurface log nodes) : ℤ)
    ≤ pressure.surfaceTokens + protectedTokens log nodes
  armed : ∀ last, log.getLast? = some last → last.type.isShadowPrice = true →
    ∃ claim, shadowPriceOf last = .ok claim ∧ pressure.claim = some claim
  unarmed : (∀ last, log.getLast? = some last → last.type.isShadowPrice = false) →
    pressure.claim = none

theorem Solvent.initial : Solvent [] [] .init where
  covers := by simp [pricedSurface, heuristicTotal, protectedTokens, ContextPressureState.init]
  armed := by
    intro last hlast
    cases hlast
  unarmed := fun _ => rfl

variable {pressure : ContextPressureState}

theorem Solvent.nonneg (h : Solvent log nodes pressure) : 0 ≤ pressure.surfaceTokens := by
  have hcovers := h.covers
  have hle := protectedTokens_le log nodes
  omega

/-- One event is folded into the total: the delta is what the fold says, and the claim is the
one it arms. -/
theorem ContextPressureState.apply_of_fold {fold : SurfaceTokensFold}
    (h : foldSurfaceProjection pressure.claim event = .ok fold) :
    ∃ pressure', pressure.apply event = .ok pressure' ∧
      pressure'.surfaceTokens = pressure.surfaceTokens + fold.deltaTokens ∧
      pressure'.claim = fold.claim := by
  simp only [ContextPressureState.apply, h, ok_bind, pure_eq]
  exact ⟨_, rfl, by simp, rfl⟩

theorem Solvent.of_spent (hshadow : event.type.isShadowPrice = false)
    (hclaim : pressure.claim = none)
    (hcovers : (heuristicTotal (pricedSurface (log ++ [event]) nodes) : ℤ)
      ≤ pressure.surfaceTokens + protectedTokens (log ++ [event]) nodes) :
    Solvent (log ++ [event]) nodes pressure where
  covers := hcovers
  armed := by
    intro last hlast htrue
    rw [List.getLast?_concat, Option.some.injEq] at hlast
    rw [← hlast, hshadow] at htrue
    cases htrue
  unarmed := fun _ => hclaim

theorem Solvent.step {plan : Option SurfacePlan} (hdeclared : DeclaredProjections projections)
    (hcovered : Covered projections (log ++ [event]))
    (hlog : foldSurfaceState log projections = .ok acc)
    (hplan : planSurfaceEvent acc.1 event log.length log 0 projections = .ok plan)
    (h : Solvent log acc.1.nodes pressure) :
    ∃ pressure', pressure.apply event = .ok pressure' ∧
      Solvent (log ++ [event]) (applySurfacePlan acc.1 plan).1.nodes pressure' := by
  have hbelow := nodes_lt_length hlog
  have hseq : event.seq = log.length := (planSurfaceEvent_cases hplan).1
  have htotal := (pricedSurface_step hdeclared hlog hplan).1
  have hnodes := nodes_applySurfacePlan hdeclared hplan
  have hcovers := h.covers
  unfold surfaceDelta at htotal
  by_cases hshadow : event.type.isShadowPrice = true
  · -- A metering event moves nothing and arms its claim.
    obtain ⟨claim, hclaim⟩ := hcovered.declared event (by simp) hshadow
    have hnone := isSurfaceEvent_of_isShadowPrice hshadow
    have hfold : foldSurfaceProjection pressure.claim event = .ok ⟨0, some claim⟩ := by
      simp [foldSurfaceProjection, hshadow, hclaim]
    obtain ⟨pressure', happly, hsurface, hheld⟩ := ContextPressureState.apply_of_fold hfold
    rw [hnone] at hnodes htotal
    simp only at hnodes htotal
    have hprotected := protectedTokens_append hbelow event
    refine ⟨pressure', happly, ?_, ?_, ?_⟩
    · rw [hnodes] at htotal ⊢
      simp only at hsurface
      omega
    · intro last hlast _
      rw [List.getLast?_concat, Option.some.injEq] at hlast
      exact ⟨claim, hlast ▸ hclaim, hheld⟩
    · intro hall
      have hfalse := hall event List.getLast?_concat
      rw [hshadow] at hfalse
      cases hfalse
  · have hshadow : event.type.isShadowPrice = false := by simpa using hshadow
    have hspent : ∀ delta : ℤ, foldSurfaceProjection pressure.claim event = .ok ⟨delta, none⟩ →
        (heuristicTotal (pricedSurface (log ++ [event])
            (applySurfacePlan acc.1 plan).1.nodes) : ℤ)
          ≤ pressure.surfaceTokens + delta
            + protectedTokens (log ++ [event]) (applySurfacePlan acc.1 plan).1.nodes →
        ∃ pressure', pressure.apply event = .ok pressure' ∧
          Solvent (log ++ [event]) (applySurfacePlan acc.1 plan).1.nodes pressure' := by
      intro delta hfold hle
      obtain ⟨pressure', happly, hsurface, hheld⟩ := ContextPressureState.apply_of_fold hfold
      refine ⟨pressure', happly, Solvent.of_spent hshadow hheld ?_⟩
      rw [hsurface]
      exact hle
    cases hop : isSurfaceEvent event with
    | none =>
      rw [hop] at hnodes htotal
      simp only at hnodes htotal
      have hprotected := protectedTokens_append hbelow event
      refine hspent 0 (by simp [foldSurfaceProjection, hshadow, hop]) ?_
      rw [hnodes] at htotal ⊢
      omega
    | some op =>
      rw [hop] at hnodes htotal
      cases op with
      | append =>
        simp only at hnodes htotal
        refine hspent (messageTokens event) (by simp [foldSurfaceProjection, hshadow, hop]) ?_
        have hprotected : protectedTokens log acc.1.nodes
            ≤ protectedTokens (log ++ [event]) (acc.1.nodes ++ [event.seq]) := by
          rw [← protectedTokens_append hbelow event]
          cases acc.1.nodes with
          | nil => exact Nat.zero_le _
          | cons head nodes => exact le_refl _
        rw [hnodes] at htotal ⊢
        omega
      | replace startSeq endSeq =>
        obtain ⟨range, hrange, hnodes⟩ := hnodes
        simp only [hrange] at htotal
        rcases hcovered.covered log event (List.prefix_refl _) startSeq endSeq hop with
          ⟨htype, hpriced⟩ | hprompt
        · -- A metered replacement takes off the price of what it removes.
          obtain ⟨metering, tokens, hlast, hmetering, hclaim, htokens⟩ := hpriced
          obtain ⟨claim, hok, hheld⟩ := h.armed metering hlast hmetering
          rw [hclaim, Except.ok.injEq] at hok
          have htokens := htokens acc range hlog hrange
          have hkept := protectedTokens_le_of_plan hdeclared hbelow hplan hop hrange htype
          rw [← hseq, ← hnodes] at hkept
          refine hspent (messageTokens event - tokens) ?_ (by omega)
          rw [hheld, ← hok]
          simp [foldSurfaceProjection, hshadow, hop]
        · have hclaim := h.unarmed hprompt.unmetered
          have hfree := total_le_of_promptRewrite hlog hprompt hrange
          rw [← hseq, ← hnodes] at hfree
          exact hspent 0 (by simp [foldSurfaceProjection, hshadow, hop, hclaim]) (by omega)

/-- The running total of a covered log is never negative: every event is folded, and the total
covers what may still be removed. -/
theorem surfaceTokens_nonneg (hdeclared : DeclaredProjections projections)
    (hlog : foldSurfaceState log projections = .ok acc) (hcovered : Covered projections log) :
    ∃ pressure, log.foldlM ContextPressureState.apply .init = .ok pressure ∧
      0 ≤ pressure.surfaceTokens := by
  have hsolvent : ∃ pressure, log.foldlM ContextPressureState.apply .init = .ok pressure ∧
      Solvent log acc.1.nodes pressure := by
    refine foldSurfaceState_induction
      (motive := fun log acc => Covered projections log →
        ∃ pressure, log.foldlM ContextPressureState.apply .init = .ok pressure ∧
          Solvent log acc.1.nodes pressure) ?_ ?_ hlog hcovered
    · intro _
      exact ⟨.init, rfl, Solvent.initial⟩
    · intro log event acc plan hlog ih hplan hcovered
      obtain ⟨pressure, hpressure, hsolvent⟩ := ih (hcovered.of_le (List.prefix_append log [event]))
      obtain ⟨pressure', happly, hsolvent'⟩ := hsolvent.step hdeclared hcovered hlog hplan
      refine ⟨pressure', ?_, hsolvent'⟩
      rw [foldlM_snoc, hpressure, ok_bind, happly]
  obtain ⟨pressure, hpressure, hsolvent⟩ := hsolvent
  exact ⟨pressure, hpressure, hsolvent.nonneg⟩

end TianmaCoder
