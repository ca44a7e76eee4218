import TianmaCoder.Compaction.Pruner
import TianmaCoder.Compaction.Accounting
import TianmaCoder.Tokens.Drift

/-!
# What a metering event states

A metering event names a range and a price. The price a producer states is the sum, over the
surface nodes that the range covers at that moment, of what the producer's meter makes of the
heuristic price of their derived messages. The tool-result pruners take the heuristic price as
it is.

## Main definitions

* `SpanPriced` — the range of a metering event and the prices of the nodes it covers.
* `States` — the price that a producer states.

## Main results

* `pruneCandidates_induction` — the invariant rule of a pruning pass.
* `Pass.pruneSession` — a pass states exact prices and keeps a log covered.
-/

namespace TianmaCoder

open Checked

namespace Compaction

variable [NumberText] {projections : List SessionMessageProjection}

/-! ## Statements -/

/-- A metering event, with the meter that measured its price; the pruners price by the
estimator itself. -/
structure Statement where
  event : SessionEvent
  meter : Option Meter

omit [NumberText] in
/-- What the producer makes of one heuristic price. -/
def Statement.calibrate (statement : Statement) (tokens : ℤ) : ℤ :=
  match statement.meter with
  | none => tokens
  | some meter => meter.calibrate tokens

/-- A metering event of a log claims a range, which covers nodes of the given prices at that
moment. -/
structure SpanPriced (projections : List SessionMessageProjection) (log : List SessionEvent)
    (event : SessionEvent) (claim : ShadowPriceClaim) (prices : List ℕ) : Prop where
  placed : log[event.seq]? = some event
  claims : shadowPriceOf event = .ok claim
  covers : ∃ range, replacementRange
      (surfaceState projections (log.take event.seq)).nodes claim.start claim.end_ = .ok range ∧
    prices = range.shadowedSeqs.map (derivedTokens projections (log.take event.seq))

/-- The statement of a producer: the sum over its range, as its meter makes the prices. -/
def States (projections : List SessionMessageProjection) (log : List SessionEvent)
    (statement : Statement) : Prop :=
  ∃ claim prices, SpanPriced projections log statement.event claim prices ∧
    claim.tokens = (prices.map fun price : ℕ => statement.calibrate price).sum

variable {log log' : List SessionEvent} {event : SessionEvent}

theorem SpanPriced.mono {claim : ShadowPriceClaim} {prices : List ℕ}
    (h : SpanPriced projections log event claim prices) (hlog : log <+: log') :
    SpanPriced projections log' event claim prices := by
  obtain ⟨rest, rfl⟩ := hlog
  have hlt : event.seq < log.length := (List.getElem?_eq_some_iff.mp h.placed).1
  refine ⟨?_, h.claims, ?_⟩
  · rw [List.getElem?_append_left hlt]
    exact h.placed
  · rw [List.take_append_of_le_length hlt.le]
    exact h.covers

theorem States.mono {statement : Statement} (h : States projections log statement)
    (hlog : log <+: log') : States projections log' statement := by
  obtain ⟨claim, prices, hspan, htokens⟩ := h
  exact ⟨claim, prices, hspan.mono hlog, htokens⟩

/-- A metering event states the sum of the prices of its range. -/
def Exact (projections : List SessionMessageProjection) (log : List SessionEvent)
    (event : SessionEvent) : Prop :=
  ∃ claim prices, SpanPriced projections log event claim prices ∧ claim.tokens = (prices.sum : ℕ)

theorem Exact.mono (h : Exact projections log event) (hlog : log <+: log') :
    Exact projections log' event := by
  obtain ⟨claim, prices, hspan, htokens⟩ := h
  exact ⟨claim, prices, hspan.mono hlog, htokens⟩

/-- A pruner states the sum itself. -/
theorem States.exact (h : States projections log ⟨event, none⟩) : Exact projections log event := by
  obtain ⟨claim, prices, hspan, htokens⟩ := h
  refine ⟨claim, prices, hspan, ?_⟩
  rw [htokens]
  exact (map_list_sum (Nat.castRingHom ℤ) prices).symm

/-- A log as the language and the event types promise it. -/
structure Regular (log : List SessionEvent) : Prop where
  roles : ∀ event ∈ log, event.RoleTyped
  length : log.length ≤ Json.maxArrayLength

omit [NumberText] in
theorem Regular.of_prefix (h : Regular log) (hpre : log' <+: log) : Regular log' :=
  ⟨fun event hmem => h.roles event (hpre.subset hmem), hpre.length_le.trans h.length⟩

/-! ## Appends -/

variable {env : Surroundings}

omit [NumberText] in
/-- A committed append adds the event that it describes. -/
theorem Attached.appendIn_cases {s s' : Attached} {type : EventType} {data : Json}
    {surfaceOp sourceEventSeqs : Option Json}
    (h : s.appendIn projections env type data surfaceOp sourceEventSeqs = .ok s') :
    ∃ event : SessionEvent, event.type = type ∧ event.data = data ∧
      event.surfaceOp = surfaceOp ∧ event.seq = s.log.length ∧ s'.log = s.log ++ [event] ∧
      ∃ call, s.candidate call = event ∧ s.append projections call = .ok s' := by
  refine ⟨_, ?_, ?_, ?_, ?_, Attached.log_append h, _, rfl, h⟩ <;> rfl

omit [NumberText] in
/-- A count that a log reaches is a safe integer. -/
theorem sessionSeq_nat {seq : ℕ} (hlength : log.length ≤ Json.maxArrayLength) (h : seq < log.length) :
    sessionSeq (some (.nat seq)) = .ok seq := by
  have hmax := Json.maxArrayLength_le
  have hsafe : seq ≤ Json.maxSafeInteger := by omega
  simp [sessionSeq, Json.count?_nat, hsafe]

omit [NumberText] in
theorem replacementRange_of_mem {nodes : List ℕ} {seq : ℕ} (h : seq ∈ nodes) :
    ∃ range, replacementRange nodes seq seq = .ok range := by
  obtain ⟨i, hi⟩ : ∃ i, nodes.idxOf? seq = some i := by
    cases hidx : nodes.idxOf? seq with
    | some i => exact ⟨i, rfl⟩
    | none => exact absurd h (List.idxOf?_eq_none_iff.mp hidx)
  refine ⟨⟨i, i, (nodes.take (i + 1)).drop i⟩, ?_⟩
  simp [replacementRange, hi]

/-! ## The pass of a pruner -/

/-- The invariant rule of a pruning pass: a metering append whose replacement was refused ends
the pass, a landed replacement moves on to the next candidate. -/
theorem pruneCandidates_induction {motive : List PruneCandidate → Attached → Prop}
    {rewrite : List Json → Except String (Option (List Json))}
    (hskip : ∀ s candidate candidates, motive (candidate :: candidates) s → motive candidates s)
    (hmeter : ∀ s candidate candidates original metered, motive (candidate :: candidates) s →
      deriveEventMessage candidate.event (surfaceState projections s.log).projectedMessages
        = some original →
      candidate.meter projections s env original = .ok metered →
      motive (candidate :: candidates) metered)
    (hreplace : ∀ s candidate candidates original content metered replaced,
      motive (candidate :: candidates) s →
      deriveEventMessage candidate.event (surfaceState projections s.log).projectedMessages
        = some original →
      candidate.meter projections s env original = .ok metered →
      candidate.replace projections metered env original content = .ok replaced →
      motive candidates replaced) {candidates : List PruneCandidate} {s : Attached}
    (h : motive candidates s) :
    motive [] (pruneCandidates projections env rewrite s candidates).1 := by
  have hstop : ∀ candidates s, motive candidates s → motive [] s := by
    intro candidates
    induction candidates with
    | nil => exact fun s h => h
    | cons candidate candidates ih => exact fun s h => ih s (hskip s candidate candidates h)
  induction candidates generalizing s with
  | nil => exact h
  | cons candidate candidates ih =>
    unfold pruneCandidates pruneCandidate
    cases hderive : deriveEventMessage candidate.event
        (surfaceState projections s.log).projectedMessages with
    | none => exact hstop _ _ h
    | some original =>
      simp only
      cases rewrite (contentOf original) with
      | error message => exact hstop _ _ h
      | ok rewritten =>
        cases rewritten with
        | none =>
          have hrest := ih (hskip s candidate candidates h)
          simp only
          split <;> next heq => rw [heq] at hrest; exact hrest
        | some content =>
          simp only
          cases hmetered : candidate.meter projections s env original with
          | error message => exact hstop _ _ h
          | ok metered =>
            simp only
            cases hreplaced : candidate.replace projections metered env original
                content with
            | error message =>
              exact hstop _ _ (hmeter s candidate candidates original metered h hderive
                hmetered)
            | ok replaced =>
              have hrest := ih (hreplace s candidate candidates original content metered
                replaced h hderive hmetered hreplaced)
              simp only
              split <;> next heq => rw [heq] at hrest; exact hrest

/-- What a pass keeps, with the candidates that are still to come: they are distinct current
nodes, every price stated since `start` is exact, and a covered log stays covered. -/
structure Pass (projections : List SessionMessageProjection) (seed : List SessionEvent)
    (start : Attached) (candidates : List PruneCandidate) (s : Attached) : Prop where
  sound : s.Sound projections seed
  grown : start.log <+: s.log
  current : ∀ candidate ∈ candidates, s.log[candidate.seq]? = some candidate.event ∧
    candidate.seq ∈ (surfaceState projections s.log).nodes
  distinct : (candidates.map (·.seq)).Nodup
  states : Regular s.log → ∀ event ∈ s.log.drop start.log.length,
    event.type = .compactionPrune → States projections s.log ⟨event, none⟩
  covered : Regular s.log → Covered projections start.log → Covered projections s.log

namespace Pass

variable {seed : List SessionEvent} {start s : Attached} {candidate : PruneCandidate}
  {candidates : List PruneCandidate}

theorem skip (h : Pass projections seed start (candidate :: candidates) s) :
    Pass projections seed start candidates s :=
  { h with
    current := fun c hc => h.current c (List.mem_cons_of_mem _ hc)
    distinct := (List.nodup_cons.mp h.distinct).2 }

variable {original : Json}

/-- The price that the derived message of a candidate has. -/
theorem derivedTokens_of_current (h : Pass projections seed start (candidate :: candidates) s)
    (hderive : deriveEventMessage candidate.event (surfaceState projections s.log).projectedMessages
      = some original) :
    derivedTokens projections s.log candidate.seq = estimateMessage original := by
  simp only [derivedTokens, (h.current candidate (by simp)).1, hderive]

omit [NumberText] in
theorem mem_drop_snoc {n : ℕ} {e : SessionEvent} (hn : n ≤ log.length)
    (h : e ∈ (log ++ [event]).drop n) : e ∈ log.drop n ∨ e = event := by
  rw [List.drop_append_of_le_length hn] at h
  rcases List.mem_append.mp h with h | h
  · exact .inl h
  · exact .inr (List.mem_singleton.mp h)

theorem claim_of_pruneData {seq : ℕ} (hlength : log.length ≤ Json.maxArrayLength)
    (hlt : seq < log.length) (hdata : event.data = pruneData seq original) :
    shadowPriceOf event = .ok ⟨seq, seq, estimateMessage original⟩ := by
  have hseq := sessionSeq_nat hlength hlt
  have hstart : event.data.path ["shadowedRange", "start"] = some (.nat seq) := by
    rw [hdata]
    rfl
  have hend : event.data.path ["shadowedRange", "end"] = some (.nat seq) := by
    rw [hdata]
    rfl
  have htokens : intMember (event.field "shadowedTokenCount") = estimateMessage original := by
    unfold SessionEvent.field
    rw [hdata]
    rfl
  simp only [shadowPriceOf, hstart, hend, hseq, htokens, ok_bind, pure_eq]

/-- A metering append states the price of its candidate, and moves nothing. -/
theorem meter (hdeclared : DeclaredProjections projections)
    {metered : Attached} (h : Pass projections seed start (candidate :: candidates) s)
    (hderive : deriveEventMessage candidate.event (surfaceState projections s.log).projectedMessages
      = some original) (hmeter : candidate.meter projections s env original = .ok metered) :
    Pass projections seed start (candidate :: candidates) metered ∧
      ∃ event : SessionEvent, metered.log = s.log ++ [event] ∧ event.type = .compactionPrune ∧
        event.data = pruneData candidate.seq original ∧
        (surfaceState projections metered.log).nodes = (surfaceState projections s.log).nodes := by
  obtain ⟨event, htype, hdata, hop, hseq, hlog, call, hcandidate, happend⟩ :=
    Attached.appendIn_cases hmeter
  have hshadow : event.type.isShadowPrice = true := by rw [htype]; rfl
  have hnodes : (surfaceState projections metered.log).nodes
      = (surfaceState projections s.log).nodes := by
    have hnodes := Attached.nodes_append hdeclared h.sound happend
    rw [hcandidate, isSurfaceEvent_of_isShadowPrice hshadow] at hnodes
    exact hnodes
  obtain ⟨hevent, hmem⟩ := h.current candidate (by simp)
  have hlt : candidate.seq < s.log.length := (List.getElem?_eq_some_iff.mp hevent).1
  have hclaim : Regular metered.log →
      shadowPriceOf event = .ok ⟨candidate.seq, candidate.seq, estimateMessage original⟩ := by
    intro hregular
    have hshort := (hregular.of_prefix (hlog ▸ List.prefix_append s.log [event])).length
    exact claim_of_pruneData hshort hlt hdata
  refine ⟨?_, event, hlog, htype, hdata, hnodes⟩
  exact {
    sound := h.sound.append happend
    grown := hlog ▸ h.grown.trans (List.prefix_append _ _)
    current := by
      intro c hc
      obtain ⟨hcevent, hcmem⟩ := h.current c hc
      rw [hnodes, hlog, List.getElem?_append_left (List.getElem?_eq_some_iff.mp hcevent).1]
      exact ⟨hcevent, hcmem⟩
    distinct := h.distinct
    states := by
      intro hregular e he hprune
      have hpre : s.log <+: metered.log := hlog ▸ List.prefix_append s.log [event]
      rw [hlog] at he
      rcases mem_drop_snoc h.grown.length_le he with he | he
      · exact (h.states (hregular.of_prefix hpre) e he hprune).mono hpre
      · subst he
        obtain ⟨range, hrange⟩ := replacementRange_of_mem hmem
        have hprices := (replacementRange_single hrange).2
        refine ⟨_, [estimateMessage original], ⟨?_, hclaim hregular, range, ?_, ?_⟩, ?_⟩
        · rw [hlog, hseq]
          simp
        · rw [hlog, hseq, List.take_left]
          exact hrange
        · rw [hlog, hseq, List.take_left, hprices, List.map_singleton,
            h.derivedTokens_of_current hderive]
        · simp [Statement.calibrate]
    covered := by
      intro hregular hstart
      have hpre : s.log <+: metered.log := hlog ▸ List.prefix_append s.log [event]
      have hbefore := h.covered (hregular.of_prefix hpre) hstart
      rw [hlog]
      refine hbefore.snoc (fun _ => ⟨_, hclaim hregular⟩) ?_
      intro startSeq endSeq hreplace
      rw [isSurfaceEvent_of_isShadowPrice hshadow] at hreplace
      cases hreplace }

/-- A replacement append takes its candidate off the surface at the stated price. -/
theorem replace (hprojections : ∀ p ∈ projections, p = imageOffloadProjection) {content : List Json}
    {metered replaced : Attached} (h : Pass projections seed start (candidate :: candidates) s)
    (hderive : deriveEventMessage candidate.event (surfaceState projections s.log).projectedMessages
      = some original) (hmeter : candidate.meter projections s env original = .ok metered)
    (hreplace : candidate.replace projections metered env original content = .ok replaced) :
    Pass projections seed start candidates replaced := by
  have hdeclared := declared_of_imageOffload hprojections
  obtain ⟨hpass, metering, hmetering, hmtype, hmdata, hkept⟩ := h.meter hdeclared hderive hmeter
  obtain ⟨event, htype, hdata, hop, hseq, hlog, call, hcandidate, happend⟩ :=
    Attached.appendIn_cases hreplace
  obtain ⟨plan, -, hplan, -⟩ := Attached.append_cases happend
  rw [hcandidate] at hplan
  have hsurface : isSurfaceEvent event = some (.replace candidate.seq candidate.seq) :=
    isSurfaceEvent_of_replace hplan (htype ▸ rfl) hop
  have hnodes := Attached.nodes_append hdeclared hpass.sound happend
  rw [hcandidate, hsurface] at hnodes
  obtain ⟨range, hrange, hnodes⟩ := hnodes
  obtain ⟨hsingle, hshadowed⟩ := replacementRange_single hrange
  have hsegment : Splice.segment (surfaceState projections metered.log).nodes range.startIdx
      range.endIdx = [candidate.seq] := by
    rw [← hshadowed, (replacementRange_ok hrange).2.2.2]
    rfl
  have hpre : metered.log <+: replaced.log := hlog ▸ List.prefix_append metered.log [event]
  have hpre' : s.log <+: metered.log := hmetering ▸ List.prefix_append s.log [metering]
  exact {
    sound := hpass.sound.append happend
    grown := hpass.grown.trans hpre
    current := by
      intro c hc
      obtain ⟨hcevent, hcmem⟩ := hpass.current c (List.mem_cons_of_mem _ hc)
      rw [hlog, List.getElem?_append_left (List.getElem?_eq_some_iff.mp hcevent).1, ← hlog, hnodes]
      refine ⟨hcevent, Splice.mem_splice_of_not_mem_segment (by omega) hcmem ?_ _⟩
      rw [hsegment, List.mem_singleton]
      intro hsame
      have hfresh := (List.nodup_cons.mp h.distinct).1
      exact hfresh (List.mem_map.mpr ⟨c, hc, hsame⟩)
    distinct := (List.nodup_cons.mp h.distinct).2
    states := by
      intro hregular e he hprune
      rw [hlog] at he
      rcases mem_drop_snoc hpass.grown.length_le he with he | he
      · exact (hpass.states (hregular.of_prefix hpre) e he hprune).mono hpre
      · rw [he, htype] at hprune
        cases hprune
    covered := by
      intro hregular hstart
      have hbefore := hpass.covered (hregular.of_prefix hpre) hstart
      have hearlier := hregular.of_prefix (hpre'.trans hpre)
      rw [hlog]
      refine hbefore.snoc ?_ ?_
      · intro hshadow
        rw [htype] at hshadow
        cases hshadow
      · intro startSeq endSeq hop'
        rw [hsurface] at hop'
        cases hop'
        obtain ⟨hevent, -⟩ := h.current candidate (by simp)
        have hlt : candidate.seq < s.log.length := (List.getElem?_eq_some_iff.mp hevent).1
        obtain ⟨acc, hacc⟩ := h.sound.replays
        refine .inl ⟨by rw [htype]; decide, metering, estimateMessage original, ?_, ?_,
          claim_of_pruneData hearlier.length hlt hmdata, ?_⟩
        · rw [hmetering, List.getLast?_concat]
        · rw [hmtype]
          rfl
        · intro acc' range' hacc' hrange'
          have hprice := derivedTokens_eq hprojections hearlier.roles hacc candidate.seq
          rw [(replacementRange_single hrange').2, List.map_singleton, List.sum_singleton, hmetering,
            priceAt_append hlt, ← hprice, h.derivedTokens_of_current hderive] }

theorem run (hprojections : ∀ p ∈ projections, p = imageOffloadProjection)
    {rewrite : List Json → Except String (Option (List Json))}
    (h : Pass projections seed start candidates s) :
    Pass projections seed start []
      (pruneCandidates projections env rewrite s candidates).1 := by
  have hdeclared := declared_of_imageOffload hprojections
  refine pruneCandidates_induction (motive := fun candidates s =>
    Pass projections seed start candidates s) ?_ ?_ ?_ h
  · exact fun s candidate candidates h => h.skip
  · exact fun s candidate candidates original metered h hderive hmeter =>
      (h.meter hdeclared hderive hmeter).1
  · exact fun s candidate candidates original content metered replaced h hderive hmeter hreplace =>
      h.replace hprojections hderive hmeter hreplace

/-- The snapshot of a pass holds distinct current nodes. -/
theorem snapshot (hsound : s.Sound projections seed) :
    Pass projections seed s (snapshotCandidates s.log (surfaceState projections s.log).nodes) s where
  sound := hsound
  grown := List.prefix_refl _
  current := by
    intro c hc
    obtain ⟨seq, hseq, hc⟩ := List.mem_filterMap.mp hc
    obtain ⟨event, hevent, hc⟩ := Option.bind_eq_some_iff.mp hc
    split at hc
    · cases hc
      exact ⟨hevent, hseq⟩
    · cases hc
  distinct := by
    obtain ⟨acc, hacc⟩ := hsound.replays
    have hnodup : (surfaceState projections s.log).nodes.Nodup :=
      surfaceState_eq hacc ▸ nodes_nodup hacc
    have hsub : ∀ nodes : List ℕ,
        ((snapshotCandidates s.log nodes).map (·.seq)).Sublist nodes := by
      intro nodes
      induction nodes with
      | nil => exact List.Sublist.refl _
      | cons seq nodes ih =>
        unfold snapshotCandidates at ih ⊢
        rw [List.filterMap_cons]
        split
        · exact ih.cons _
        · next c hc =>
            obtain ⟨event, -, hc⟩ := Option.bind_eq_some_iff.mp hc
            split at hc
            · cases hc
              exact ih.cons_cons _
            · cases hc
    exact (hsub _).nodup hnodup
  states := by
    intro _ event hevent
    rw [List.drop_length] at hevent
    cases hevent
  covered := fun _ h => h

theorem of_sublist {candidates' : List PruneCandidate}
    (h : Pass projections seed start candidates s) (hsub : candidates'.Sublist candidates) :
    Pass projections seed start candidates' s :=
  { h with
    current := fun c hc => h.current c (hsub.subset hc)
    distinct := (hsub.map _).nodup h.distinct }

/-- A pass of a mounted pruner states exact prices and keeps a log covered. -/
theorem pruneSession (hprojections : ∀ p ∈ projections, p = imageOffloadProjection)
    (hsound : s.Sound projections seed) (pruner : ToolResultPruner) (env : Surroundings) :
    Pass projections seed s [] (pruner.pruneSession projections env s).1 := by
  cases pruner with
  | middle config => exact (snapshot hsound).run hprojections
  | recency config =>
    have hsub := (List.filter_sublist (p := config.isCompactable s.log)
      (l := (snapshotCandidates s.log (surfaceState projections s.log).nodes).take
        ((snapshotCandidates s.log (surfaceState projections s.log).nodes).length
          - config.keepRecentResults))).trans (List.take_sublist _ _)
    exact ((snapshot hsound).of_sublist hsub).run hprojections

end Pass

end Compaction

end TianmaCoder
