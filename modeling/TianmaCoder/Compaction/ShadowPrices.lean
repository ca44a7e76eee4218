import TianmaCoder.Compaction.Progress
import TianmaCoder.Compaction.Statement

/-!
# Shadow prices over a session

A session over its lifetime: compaction calls one after another, appends of other code between
their synchronous parts, and passes of the mounted tool-result pruner. Every metering event of
these producers states the price of its range, exactly where the meter that measured it leaves
the sum of the prices as it is; over a run where it does, the running total of the
context-pressure unit never falls below zero.

## Main definitions

* `MeteredSession.step` — one activity of a session.
* `Activity.Unscaled` — the calibration of a commit leaves the price of its span.

## Main results

* `commit_keeps` — what the commit of a call states and covers.
* `shadow_prices_iff` — the prices and the total, over every run.
-/

namespace TianmaCoder

open Checked

namespace Compaction

variable [NumberText] {projections : List SessionMessageProjection}

/-! ## The prices of a compaction call -/

namespace TransactionState

/-- What an append keeps of a log under the given meter: the summaries a call appended since
`start` state the price of their span, and under `keeps` they do so exactly and the log is
covered. -/
structure Keeps (projections : List SessionMessageProjection) (meter : Option Meter)
    (start : TransactionState) (keeps : Prop) (log own : List SessionEvent) : Prop where
  grown : start.log <+: log
  states : Regular log → ∀ event ∈ own.drop start.own.length, event.type = .compactionSummary →
    States projections log ⟨event, meter⟩ ∧ (keeps → Exact projections log event)
  covered : Regular log → keeps → Covered projections log
  own_le : start.own.length ≤ own.length

variable {keeps : Prop} {start : TransactionState} {meter : Option Meter} {log : List SessionEvent}

/-- What was stated stays stated when the log grows. -/
theorem Keeps.stated_mono {log' own : List SessionEvent} {event : SessionEvent}
    (h : Keeps projections meter start keeps log own) (hregular : Regular log')
    (hlog : log <+: log') (hevent : event ∈ own.drop start.own.length)
    (hsummary : event.type = .compactionSummary) :
    States projections log' ⟨event, meter⟩ ∧ (keeps → Exact projections log' event) := by
  obtain ⟨hstates, hexact⟩ := h.states (hregular.of_prefix hlog) event hevent hsummary
  exact ⟨hstates.mono hlog, fun hkeeps => (hexact hkeeps).mono hlog⟩

theorem Keeps.plain {own : List SessionEvent} {event : SessionEvent}
    (h : Keeps projections meter start keeps log own) (hshadow : event.type.isShadowPrice = false)
    (hop : event.surfaceOp = none) :
    Keeps projections meter start keeps (log ++ [event]) (own ++ [event]) where
  grown := h.grown.trans (List.prefix_append _ _)
  states := by
    intro hregular e he hsummary
    have hpre : log <+: log ++ [event] := List.prefix_append _ _
    rcases Pass.mem_drop_snoc h.own_le he with he | he
    · exact h.stated_mono hregular hpre he hsummary
    · rw [← he, hsummary] at hshadow
      cases hshadow
  covered := by
    intro hregular hkeeps
    exact (h.covered (hregular.of_prefix (List.prefix_append _ _)) hkeeps).snoc_plain hshadow hop
  own_le := by
    rw [List.length_append]
    exact h.own_le.trans (Nat.le_add_right _ _)

variable {s : TransactionState} {env : Surroundings}

theorem log_appendOwn {s' : TransactionState} {type : EventType} {data : Json}
    {surfaceOp sourceEventSeqs : Option Json}
    (h : s.appendOwn projections env type data surfaceOp sourceEventSeqs = .ok s') :
    ∃ event : SessionEvent, event.type = type ∧ event.data = data ∧ event.surfaceOp = surfaceOp ∧
      event.seq = s.log.length ∧ s'.log = s.log ++ [event] ∧ s'.own = s.own ++ [event] ∧
      ∃ call, s.toAttached.candidate call = event ∧
        s.toAttached.append projections call = .ok s'.toAttached := by
  obtain ⟨event, htype, hdata, hop, -, hseq, ⟨call, hcandidate, happend⟩, hs'⟩ := appendOwn_cases h
  refine ⟨event, htype, hdata, hop, hseq, ?_, congrArg TransactionState.own hs', call, hcandidate,
    happend⟩
  rw [← hcandidate]
  exact Attached.log_append happend

variable {bracket : Bracket}

theorem close_keeps {error : RegionError} {stage : Stage}
    (h : Keeps projections meter start keeps s.log s.own) :
    Keeps projections meter start keeps (s.close projections env bracket error stage).log
      (s.close projections env bracket error stage).own := by
  unfold close
  simp only
  split
  · next s' happend =>
      obtain ⟨event, htype, -, hop, -, hlog, hown, -⟩ := log_appendOwn happend
      simp only [hlog, hown]
      exact h.plain (by rw [htype]; rfl) hop
  · exact h

theorem begin_keeps {meter' : Option Meter} {meter : Meter} {call : Request}
    {aborted aborted' : Option String} (h : Keeps projections meter' start keeps s.log s.own) :
    Keeps projections meter' start keeps
      (s.begin_ projections env meter call aborted aborted').log
      (s.begin_ projections env meter call aborted aborted').own := by
  unfold begin_
  split
  · exact h
  · simp only
    split
    · exact h
    · next s' happend =>
        obtain ⟨event, htype, -, hop, -, hlog, hown, -⟩ := log_appendOwn happend
        have h' : Keeps projections meter' start keeps s'.log s'.own := by
          rw [hlog, hown]
          exact h.plain (by rw [htype]; rfl) hop
        split
        · exact close_keeps h'
        · cases aborted' <;> exact h'

omit [NumberText] in
theorem mem_of_idxOf? {nodes : List ℕ} {seq i : ℕ} (h : nodes.idxOf? seq = some i) :
    seq ∈ nodes := by
  obtain ⟨hlt, hget, -⟩ := List.idxOf?_eq_some_iff.mp h
  exact hget ▸ List.getElem_mem hlt

/-- The members of a summary record that its claim reads. -/
theorem path_summaryData (bracket : Bracket) (summarized : SummarizedCompaction) :
    (summaryData bracket summarized).path ["shadowedRange", "start"]
        = some (.nat summarized.start) ∧
      (summaryData bracket summarized).path ["shadowedRange", "end"]
        = some (.nat summarized.end_) ∧
      (summaryData bracket summarized).get? "shadowedTokenCount"
        = some (.int summarized.shadowedTokenCount) := by
  unfold summaryData
  cases bracket.sourceCommandId <;> cases summarized.llmStreamCall <;>
    cases summarized.rawOutput <;> exact ⟨rfl, rfl, rfl⟩

theorem shadowedTokenCount_of_spanAt (hdeclared : DeclaredProjections projections) {meter : Meter}
    {prepared : PreparedCompaction} {startIdx endIdx : ℕ} {measurement : TokenMeasurement}
    (hreplays : ∃ acc, foldSurfaceState log projections = .ok acc)
    (hspan : SpanAt projections meter log prepared startIdx endIdx measurement) :
    prepared.shadowedTokenCount
      = (prepared.shadowedSeqs.map fun seq => meter.calibrate (priceAt log seq)).sum := by
  obtain ⟨acc, hacc⟩ := hreplays
  have hnodes := Meter.measure_nodes hdeclared hacc hspan.measured
  rw [← surfaceState_eq hacc] at hnodes
  have hsegment := congrArg (fun pairs => (Splice.segment pairs startIdx endIdx).map Prod.snd) hnodes
  simp only [← Splice.map_segment, hspan.selected, hspan.shadowed, List.map_map] at hsegment
  have hheuristic : prepared.selectedNodes.map (·.heuristicTokens)
      = prepared.shadowedSeqs.map fun seq => meter.calibrate (priceAt log seq) := hsegment
  unfold PreparedCompaction.shadowedTokenCount
  rw [hheuristic]

variable {seed : List SessionEvent}

/-- The commit of a stable summary states the price of its span as its meter makes it, and
covers its replacement when the meter leaves that price. -/
theorem commit_keeps (hprojections : ∀ p ∈ projections, p = imageOffloadProjection)
    {summarized : SummarizedCompaction} {meter : Meter} {startIdx endIdx : ℕ}
    {measurement : TokenMeasurement} (hs : s.Accounted projections seed)
    (hspan : SpanAt projections meter s.log summarized.toPreparedCompaction startIdx endIdx
      measurement) (hkeeps : keeps → (summarized.shadowedSeqs.map fun seq =>
        meter.calibrate (derivedTokens projections s.log seq)).sum
      = ((summarized.shadowedSeqs.map (derivedTokens projections s.log)).sum : ℕ))
    (h : Keeps projections (some meter) start keeps s.log s.own) :
    Keeps projections (some meter) start keeps (s.commit projections env bracket summarized).log
      (s.commit projections env bracket summarized).own := by
  have hdeclared := declared_of_imageOffload hprojections
  unfold commit commitCompactionBody
  simp only
  cases hsummary : s.appendOwn projections env .compactionSummary (summaryData bracket summarized)
      none none with
  | error message => exact close_keeps h
  | ok s₁ =>
    have hs₁ := hs.appendOwn hsummary
    obtain ⟨summary, htype₁, hdata₁, hop₁, hseq₁, hlog₁, hown₁, call₁, hcandidate₁, happend₁⟩ :=
      log_appendOwn hsummary
    have hpre₁ : s.log <+: s₁.log := hlog₁ ▸ List.prefix_append s.log [summary]
    have hshadow₁ : summary.type.isShadowPrice = true := by rw [htype₁]; rfl
    obtain ⟨acc, hacc⟩ := hs.sound.replays
    have hnodes₁ : (surfaceState projections s₁.log).nodes
        = (surfaceState projections s.log).nodes := by
      have hnodes := Attached.nodes_append hdeclared hs.sound happend₁
      rw [hcandidate₁, isSurfaceEvent_of_isShadowPrice hshadow₁] at hnodes
      exact hnodes
    have hrange : replacementRange (surfaceState projections s.log).nodes summarized.start
        summarized.end_ = .ok ⟨startIdx, endIdx, summarized.shadowedSeqs⟩ := by
      unfold replacementRange
      simp only [hspan.start_at, hspan.end_at, Nat.not_lt.mpr hspan.ordered, if_false, pure_eq,
        Except.ok.injEq, ReplacementRange.mk.injEq, true_and]
      exact hspan.shadowed
    have hclaim : Regular s₁.log → shadowPriceOf summary
        = .ok ⟨summarized.start, summarized.end_, summarized.shadowedTokenCount⟩ := by
      intro hregular
      have hshort := (hregular.of_prefix hpre₁).length
      have hbelow : ∀ seq ∈ (surfaceState projections s.log).nodes, seq < s.log.length := by
        rw [surfaceState_eq hacc]
        exact nodes_lt_length hacc
      have hstart := sessionSeq_nat hshort (hbelow _ (mem_of_idxOf? hspan.start_at))
      have hend := sessionSeq_nat hshort (hbelow _ (mem_of_idxOf? hspan.end_at))
      obtain ⟨hpathStart, hpathEnd, htokens⟩ := path_summaryData bracket summarized
      unfold shadowPriceOf SessionEvent.field
      simp only [hdata₁, hpathStart, hpathEnd, htokens, hstart, hend, ok_bind, pure_eq, intMember]
    have hprices : Regular s₁.log → summarized.shadowedTokenCount
        = (summarized.shadowedSeqs.map fun seq =>
            meter.calibrate (derivedTokens projections s.log seq)).sum := by
      intro hregular
      have hroles := (hregular.of_prefix hpre₁).roles
      rw [shadowedTokenCount_of_spanAt hdeclared ⟨acc, hacc⟩ hspan]
      simp only [derivedTokens_eq hprojections hroles hacc]
    have h₁ : Keeps projections (some meter) start keeps s₁.log s₁.own := by
      refine ⟨h.grown.trans hpre₁, ?_, ?_, ?_⟩
      · intro hregular e he htype
        rw [hown₁] at he
        rcases Pass.mem_drop_snoc h.own_le he with he | he
        · exact h.stated_mono hregular hpre₁ he htype
        · subst he
          have hpriced : SpanPriced projections s₁.log e
              ⟨summarized.start, summarized.end_, summarized.shadowedTokenCount⟩
              (summarized.shadowedSeqs.map (derivedTokens projections s.log)) := by
            refine ⟨?_, hclaim hregular, ⟨startIdx, endIdx, summarized.shadowedSeqs⟩, ?_, ?_⟩
            · rw [hlog₁, hseq₁]
              simp
            · rw [hlog₁, hseq₁, List.take_left]
              exact hrange
            · rw [hlog₁, hseq₁, List.take_left]
          refine ⟨⟨_, _, hpriced, ?_⟩, fun hholds => ⟨_, _, hpriced, ?_⟩⟩
          · rw [List.map_map]
            exact hprices hregular
          · exact (hprices hregular).trans (hkeeps hholds)
      · intro hregular hholds
        rw [hlog₁]
        refine (h.covered (hregular.of_prefix hpre₁) hholds).snoc
          (fun _ => ⟨_, hclaim hregular⟩) ?_
        intro startSeq endSeq hreplace
        rw [isSurfaceEvent_of_isShadowPrice hshadow₁] at hreplace
        cases hreplace
      · rw [hown₁, List.length_append]
        exact h.own_le.trans (Nat.le_add_right _ _)
    simp only
    cases hreplace : s₁.appendOwn projections env .userMessage summarized.checkpointMessage
        (some (.obj [("op", .str "replace"), ("startSeq", .nat summarized.start),
          ("endSeq", .nat summarized.end_)]))
        (some (.arr (([bracket.startSeq, s.log.length] ++ summarized.shadowedSeqs).map .nat))) with
    | error message => exact close_keeps h₁
    | ok s₂ =>
      obtain ⟨checkpoint, htype₂, -, hop₂, -, hlog₂, hown₂, call₂, hcandidate₂, happend₂⟩ :=
        log_appendOwn hreplace
      have hpre₂ : s₁.log <+: s₂.log := hlog₂ ▸ List.prefix_append s₁.log [checkpoint]
      have hsurface : isSurfaceEvent checkpoint
          = some (.replace summarized.start summarized.end_) := by
        obtain ⟨plan, -, hplan, -⟩ := Attached.append_cases happend₂
        rw [hcandidate₂] at hplan
        exact isSurfaceEvent_of_replace hplan (htype₂ ▸ rfl) hop₂
      have h₂ : Keeps projections (some meter) start keeps s₂.log s₂.own := by
        refine ⟨h₁.grown.trans hpre₂, ?_, ?_, ?_⟩
        · intro hregular e he htype
          rw [hown₂] at he
          rcases Pass.mem_drop_snoc h₁.own_le he with he | he
          · exact h₁.stated_mono hregular hpre₂ he htype
          · rw [he, htype₂] at htype
            cases htype
        · intro hregular hholds
          have hregular₁ := hregular.of_prefix hpre₂
          rw [hlog₂]
          refine (h₁.covered hregular₁ hholds).snoc ?_ ?_
          · intro hshadow
            rw [htype₂] at hshadow
            cases hshadow
          · intro startSeq endSeq hop
            rw [hsurface] at hop
            cases hop
            refine .inl ⟨by rw [htype₂]; decide, summary, summarized.shadowedTokenCount, ?_,
              hshadow₁, hclaim hregular₁, ?_⟩
            · rw [hlog₁, List.getLast?_concat]
            · intro acc₁ range hacc₁ hrange'
              rw [← surfaceState_eq hacc₁, hnodes₁, hrange, Except.ok.injEq] at hrange'
              subst hrange'
              have hroles := (hregular₁.of_prefix hpre₁).roles
              rw [hprices hregular₁, hkeeps hholds]
              congr 2
              refine List.map_congr_left ?_
              intro seq hseq
              have hmem : seq ∈ acc.1.nodes := by
                rw [← surfaceState_eq hacc]
                exact Splice.mem_of_mem_segment (hspan.shadowed ▸ hseq)
              rw [derivedTokens_eq hprojections hroles hacc, hlog₁,
                priceAt_append (nodes_lt_length hacc seq hmem)]
        · rw [hown₂, List.length_append]
          exact h₁.own_le.trans (Nat.le_add_right _ _)
      simp only
      split
      · exact h₂
      · next s₃ hend =>
          obtain ⟨end_, htype₃, -, hop₃, -, hlog₃, hown₃, -⟩ := log_appendOwn hend
          simp only [hlog₃, hown₃]
          exact h₂.plain (by rw [htype₃]; rfl) hop₃

theorem resume_keeps (hprojections : ∀ p ∈ projections, p = imageOffloadProjection) {meter : Meter}
    {outcome : Except RegionError SummarizedCompaction} {aborted : Option String}
    (hs : s.Holds projections seed) (hcase : s.phase = .settled bracket outcome)
    (hkeeps : keeps → ∀ summarized, outcome = .ok summarized →
      (summarized.shadowedSeqs.map fun seq =>
        meter.calibrate (derivedTokens projections s.log seq)).sum
      = ((summarized.shadowedSeqs.map (derivedTokens projections s.log)).sum : ℕ))
    (h : Keeps projections (some meter) start keeps s.log s.own) :
    Keeps projections (some meter) start keeps
      (s.resume projections env meter bracket outcome aborted).log
      (s.resume projections env meter bracket outcome aborted).own := by
  have hdeclared := declared_of_imageOffload hprojections
  cases outcome with
  | error error => exact close_keeps h
  | ok summarized =>
    unfold resume
    simp only
    split
    · exact close_keeps h
    · split
      · exact close_keeps h
      · next hstable =>
          have hphase := hs.phase
          unfold PhaseHolds at hphase
          rw [hcase] at hphase
          obtain ⟨-, -, hasked⟩ := hphase
          obtain ⟨-, read, -, htaken⟩ := hasked summarized rfl
          obtain ⟨startIdx, endIdx, measurement, hspan⟩ :=
            spanAt_of_assertStable hdeclared htaken hs.accounted.sound.replays hstable
          exact commit_keeps hprojections hs.accounted hspan
            (fun hholds => hkeeps hholds summarized rfl) h

/-! ## Appends of other code -/

/-- An append of other code declares the range that it meters, and covers what it replaces. -/
def EventCovered (projections : List SessionMessageProjection) (log : List SessionEvent)
    (event : SessionEvent) : Prop :=
  (event.type.isShadowPrice = true → ∃ claim, shadowPriceOf event = .ok claim) ∧
    ∀ startSeq endSeq, isSurfaceEvent event = some (.replace startSeq endSeq) →
      ReplacementCovered projections log event startSeq endSeq

/-- Every committed append of a sequence is covered. -/
def OthersCovered (projections : List SessionMessageProjection) (s : Attached) :
    List AppendCall → Prop
  | [] => True
  | call :: calls =>
    match s.append projections call with
    | .ok s' => EventCovered projections s.log (s.candidate call) ∧
        OthersCovered projections s' calls
    | .error _ => OthersCovered projections s calls

theorem covered_appendOthers {calls : List AppendCall}
    (hothers : OthersCovered projections s.toAttached calls) (h : Covered projections s.log) :
    Covered projections (s.appendOthers projections calls).log := by
  induction calls generalizing s with
  | nil => exact h
  | cons call calls ih =>
    unfold OthersCovered at hothers
    unfold appendOthers
    cases happend : s.toAttached.append projections call with
    | error message =>
      rw [happend] at hothers
      exact ih hothers h
    | ok attached =>
      rw [happend] at hothers
      obtain ⟨⟨hdeclared, hcovered⟩, hrest⟩ := hothers
      refine ih (s := { s with toAttached := attached }) hrest ?_
      simp only [Attached.log_append happend]
      exact h.snoc hdeclared hcovered

/-- Appends of other code keep the account when they are covered. -/
theorem others_keep {calls : List AppendCall}
    (hothers : keeps → OthersCovered projections s.toAttached calls)
    (h : Keeps projections meter start keeps s.log s.own) :
    Keeps projections meter start keeps (s.appendOthers projections calls).log
      (s.appendOthers projections calls).own := by
  obtain ⟨hlog, hown, -⟩ := s.appendOthers_cases projections calls
  rw [hown]
  exact {
    grown := h.grown.trans hlog
    states := fun hregular event hevent hsummary =>
      h.stated_mono hregular hlog hevent hsummary
    covered := fun hregular hkeeps =>
      covered_appendOthers (hothers hkeeps) (h.covered (hregular.of_prefix hlog) hkeeps)
    own_le := h.own_le }

/-- The meter that prices what an action commits. -/
def Action.meter? : Action → Option Meter
  | .resume _ meter _ => some meter
  | _ => none

/-- The appends of other code that an action makes. -/
def Action.others : Action → List AppendCall
  | .other call => [call]
  | .summaryFailed _ _ _ recovery _ _ => recovery.appends
  | _ => []

/-- The meter leaves the price of the span that a resumed call may commit. -/
def Action.Unscaled (projections : List SessionMessageProjection) (s : TransactionState)
    (action : Action) : Prop :=
  ∀ meter bracket summarized, action.meter? = some meter →
    s.phase = .settled bracket (.ok summarized) →
    (summarized.shadowedSeqs.map fun seq =>
        meter.calibrate (derivedTokens projections s.log seq)).sum
      = ((summarized.shadowedSeqs.map (derivedTokens projections s.log)).sum : ℕ)

/-- One action of a call keeps the account. -/
theorem step_keeps (hprojections : ∀ p ∈ projections, p = imageOffloadProjection)
    {s' : TransactionState} {action : Action} (hs : s.Holds projections seed)
    (hothers : keeps → OthersCovered projections s.toAttached action.others)
    (hunscaled : keeps → action.Unscaled projections s)
    (h : Keeps projections action.meter? start keeps s.log s.own)
    (hstep : s.step projections action = some s') :
    Keeps projections action.meter? start keeps s'.log s'.own := by
  unfold step at hstep
  cases action with
  | other call =>
    cases hstep
    exact others_keep hothers h
  | begin_ env meter call aborted aborted' =>
    cases hcase : s.phase <;> rw [hcase] at hstep <;> cases hstep
    exact begin_keeps h
  | summaryFailed error meter meter' recovery aborted aborted' =>
    cases hcase : s.phase <;> rw [hcase] at hstep <;> cases hstep
    have hrest := others_keep hothers h
    unfold summaryFailed
    split
    · exact h
    · split
      · exact h
      · simp only
        split
        · exact hrest
        · exact hrest
        · split
          · exact hrest
          · cases aborted' <;> exact hrest
  | summaryReturned summary messageId =>
    cases hcase : s.phase <;> rw [hcase] at hstep <;> cases hstep
    exact h
  | resume env meter aborted =>
    cases hcase : s.phase <;> rw [hcase] at hstep <;> cases hstep
    next bracket outcome =>
    refine resume_keeps hprojections hs hcase ?_ h
    intro hholds summarized hok
    exact hunscaled hholds meter bracket summarized rfl (hok ▸ hcase)

end TransactionState

/-! ## A session with its producers -/

/-- A session, its compaction call, and the metering events that the producers appended. -/
structure MeteredSession [NumberText] extends TransactionState where
  stated : List Statement

/-- One activity of a session. -/
inductive Activity where
  /-- A synchronous part of the compaction call, or an append of other code. -/
  | call (action : TransactionState.Action)
  /-- The call is over; a later one may begin. -/
  | nextCall
  /-- A pass of the mounted tool-result pruner. -/
  | prune (pruner : ToolResultPruner) (env : Surroundings)

namespace MeteredSession

omit [NumberText] in
/-- The statements among appended events. -/
def statements (meter : Option Meter) (type : EventType) (events : List SessionEvent) :
    List Statement :=
  (events.filter fun event => event.type = type).map fun event => ⟨event, meter⟩

variable (projections) in
/-- One activity; `none` where the session is not where the activity takes it up. -/
def step (s : MeteredSession) : Activity → Option MeteredSession
  | .call action =>
    (s.toTransactionState.step projections action).map fun next =>
      { toTransactionState := next
        stated := s.stated
          ++ statements action.meter? .compactionSummary (next.own.drop s.own.length) }
  | .nextCall =>
    match s.phase with
    | .idle | .rejected _ | .ended _ _ => some { s with own := [], requested := [], phase := .idle }
    | _ => none
  | .prune pruner env =>
    let attached := (pruner.pruneSession projections env s.toAttached).1
    some { s with
      toAttached := attached
      stated := s.stated
        ++ statements none .compactionPrune (attached.log.drop s.log.length) }

/-- A session before its first call. -/
def initial (seed : List SessionEvent) (trace : Trace) : MeteredSession where
  toTransactionState := .initial seed trace
  stated := []

end MeteredSession

/-- Every append of other code that an activity makes is covered. -/
def Activity.OthersCovered (projections : List SessionMessageProjection) (s : MeteredSession) :
    Activity → Prop
  | .call action => TransactionState.OthersCovered projections s.toAttached action.others
  | _ => True

/-- A call that an activity may commit is priced by a meter that leaves the price of its span. -/
def Activity.Unscaled (projections : List SessionMessageProjection) (s : MeteredSession) :
    Activity → Prop
  | .call action => action.Unscaled projections s.toTransactionState
  | _ => True

namespace MeteredSession

/-- What every activity keeps, and under `keeps` also that every price is exact and the log
covered. -/
structure Holds (projections : List SessionMessageProjection) (seed : List SessionEvent)
    (keeps : Prop) (s : MeteredSession) : Prop where
  call : s.toTransactionState.Holds projections seed
  states : Regular s.log → ∀ statement ∈ s.stated, States projections s.log statement ∧
    (keeps → Exact projections s.log statement.event)
  covered : Regular s.log → keeps → Covered projections s.log

omit [NumberText] in
theorem mem_statements {meter : Option Meter} {type : EventType} {events : List SessionEvent}
    {statement : Statement} (h : statement ∈ statements meter type events) :
    statement.event ∈ events ∧ statement.event.type = type ∧ statement.meter = meter := by
  obtain ⟨event, hevent, rfl⟩ := List.mem_map.mp h
  have ⟨hmem, htype⟩ := List.mem_filter.mp hevent
  exact ⟨hmem, of_decide_eq_true htype, rfl⟩

theorem holds_step (hprojections : ∀ p ∈ projections, p = imageOffloadProjection)
    {seed : List SessionEvent} {keeps : Prop} (s : MeteredSession) (activity : Activity)
    (s' : MeteredSession) (hs : s.Holds projections seed keeps)
    (hothers : keeps → activity.OthersCovered projections s)
    (hunscaled : keeps → activity.Unscaled projections s)
    (hstep : s.step projections activity = some s') : s'.Holds projections seed keeps := by
  have hdeclared := declared_of_imageOffload hprojections
  cases activity with
  | call action =>
    obtain ⟨next, hnext, rfl⟩ := Option.map_eq_some_iff.mp hstep
    have hcall := TransactionState.holds_step hdeclared _ action next hs.call hnext
    have hkept : TransactionState.Keeps projections action.meter? s.toTransactionState keeps s.log
        s.own := by
      refine ⟨List.prefix_refl _, ?_, hs.covered, le_refl _⟩
      intro _ event hevent
      rw [List.drop_length] at hevent
      cases hevent
    have hkeeps := TransactionState.step_keeps hprojections hs.call hothers hunscaled hkept hnext
    have hlog : s.log <+: next.log := hkeeps.grown
    refine ⟨hcall, ?_, hkeeps.covered⟩
    intro hregular statement hstatement
    rcases List.mem_append.mp hstatement with hold | hnew
    · obtain ⟨hstates, hexact⟩ := hs.states (hregular.of_prefix hlog) statement hold
      exact ⟨hstates.mono hlog, fun hholds => (hexact hholds).mono hlog⟩
    · obtain ⟨hmem, htype, hmeter⟩ := mem_statements hnew
      have hstated := hkeeps.states hregular statement.event hmem htype
      rw [← hmeter] at hstated
      exact hstated
  | nextCall =>
    have hfresh : s' = { s with own := [], requested := [], phase := .idle } := by
      unfold step at hstep
      simp only at hstep
      split at hstep <;> cases hstep <;> rfl
    subst hfresh
    refine ⟨⟨⟨hs.call.accounted.sound, ?_⟩, rfl⟩, hs.states, hs.covered⟩
    intro event hevent
    cases hevent
  | prune pruner env =>
    cases hstep
    have hpass := Pass.pruneSession hprojections hs.call.accounted.sound pruner env
    refine ⟨⟨⟨hpass.sound, ?_⟩, ?_⟩, ?_, ?_⟩
    · intro event hevent
      exact (hs.call.accounted.accepted event hevent).mono hpass.grown
    · exact hs.call.phase.others hpass.grown rfl rfl rfl
    · intro hregular statement hstatement
      rcases List.mem_append.mp hstatement with hold | hnew
      · obtain ⟨hstates, hexact⟩ := hs.states (hregular.of_prefix hpass.grown) statement hold
        exact ⟨hstates.mono hpass.grown, fun hholds => (hexact hholds).mono hpass.grown⟩
      · obtain ⟨hmem, htype, hmeter⟩ := mem_statements hnew
        have hstated := hpass.states hregular statement.event hmem htype
        refine ⟨?_, fun _ => hstated.exact⟩
        rw [← hmeter] at hstated
        exact hstated
    · intro hregular hholds
      exact hpass.covered hregular (hs.covered (hregular.of_prefix hpass.grown) hholds)

/-- Over every run of a session, whatever meters are mounted: every metering event of a
producer states the price of its range exactly when its meter leaves the sum of the prices;
the pruners always do. In a run whose every commit is measured by such a meter every price is
exact, and replaying any beginning of the log keeps the running total from falling below
zero. -/
theorem shadow_prices_iff (hprojections : ∀ p ∈ projections, p = imageOffloadProjection)
    {seed : List SessionEvent} {trace : Trace}
    (hreplays : ∃ acc, foldSurfaceState seed projections = .ok acc)
    (htrace : seedTrace projections seed = .ok trace) {activities : List Activity}
    {s : MeteredSession}
    (hrun : Transition.run (step projections) (initial seed trace) activities = some s)
    (hregular : Regular s.log) :
    (∀ statement ∈ s.stated, ∃ claim prices,
      SpanPriced projections s.log statement.event claim prices ∧
      (claim.tokens = (prices.sum : ℕ) ↔
        (prices.map fun price : ℕ => statement.calibrate price).sum = (prices.sum : ℕ))) ∧
    (Covered projections seed →
      Transition.Guarded (step projections)
        (fun s activity => activity.OthersCovered projections s ∧ activity.Unscaled projections s)
        (initial seed trace) activities →
      (∀ statement ∈ s.stated, Exact projections s.log statement.event) ∧
      ∀ before, before <+: s.log →
        ∃ pressure, before.foldlM ContextPressureState.apply .init = .ok pressure ∧
          0 ≤ pressure.surfaceTokens) := by
  have hdeclared := declared_of_imageOffload hprojections
  have hinit : ∀ keeps, (keeps → Covered projections seed) →
      (initial seed trace).Holds projections seed keeps := by
    intro keeps hcovered
    refine ⟨⟨⟨Attached.sound_seed hreplays htrace, ?_⟩, rfl⟩, ?_, fun _ => hcovered⟩
    · intro event hevent
      cases hevent
    · intro _ statement hstatement
      cases hstatement
  refine ⟨?_, ?_⟩
  · have hholds : s.Holds projections seed False :=
      Transition.run_induction
        (fun s activity s' hs hstep => holds_step hprojections s activity s' hs False.elim
          False.elim hstep) (hinit False False.elim) hrun
    intro statement hstatement
    obtain ⟨⟨claim, prices, hspan, htokens⟩, -⟩ := hholds.states hregular statement hstatement
    exact ⟨claim, prices, hspan, by rw [htokens]⟩
  · intro hseed hguarded
    have hholds : s.Holds projections seed True :=
      Transition.run_induction_of_guarded
        (fun s activity s' hs hok hstep => holds_step hprojections s activity s' hs
          (fun _ => hok.1) (fun _ => hok.2) hstep) (hinit True fun _ => hseed) hguarded hrun
    refine ⟨fun statement hstatement => (hholds.states hregular statement hstatement).2 trivial, ?_⟩
    intro before hbefore
    have hcovered := (hholds.covered hregular trivial).of_le hbefore
    obtain ⟨acc, hacc⟩ := hholds.call.accounted.sound.replays
    obtain ⟨rest, hrest⟩ := hbefore
    rw [← hrest] at hacc
    obtain ⟨acc', hacc'⟩ := foldSurfaceState_of_append hacc
    exact surfaceTokens_nonneg hdeclared hacc' hcovered

theorem step_call {s : MeteredSession} {action : TransactionState.Action} {next : TransactionState}
    (h : s.toTransactionState.step projections action = some next) :
    s.step projections (.call action) = some
      { toTransactionState := next
        stated := s.stated
          ++ statements action.meter? .compactionSummary (next.own.drop s.own.length) } := by
  simp only [step, h, Option.map_some]

theorem unscaled_of_uncalibrated (s : MeteredSession) {action : TransactionState.Action}
    (h : ∀ meter, action.meter? = some meter → meter.sessionMultiplier = none) :
    Activity.Unscaled projections s (.call action) := by
  intro meter bracket summarized hmeter _
  have hcalibrate : ∀ tokens, meter.calibrate tokens = tokens := by
    intro tokens
    simp only [Meter.calibrate, h meter hmeter]
  simp only [hcalibrate]
  have hcast := map_list_sum (Nat.castRingHom ℤ)
    (summarized.shadowedSeqs.map (derivedTokens projections s.log))
  rw [List.map_map] at hcast
  exact hcast.symm

end MeteredSession

end Compaction

/-! ## A manual and a doubled commit -/

namespace Compaction.MeteredSession

open TransactionState

private instance shadowNumberText : NumberText := ⟨fun _ => 22, fun _ => 18⟩

theorem regular_of_all {log : List SessionEvent} (hlength : log.length ≤ Json.maxArrayLength)
    (h : (log.all fun event => (deriveEventMessage event []).all fun message =>
      message.get? "role" != some (.str "system")) = true) : Regular log := by
  refine ⟨?_, hlength⟩
  intro event hevent _ message hmessage
  have hrole := List.all_eq_true.mp h event hevent
  rw [hmessage] at hrole
  simpa using hrole

def manualActivities : List Activity := manualActions.map .call

def manualSession : MeteredSession where
  toTransactionState := manualCommitted
  stated := ([] ++ statements none .compactionSummary (manualBegun.own.drop 0)
    ++ statements none .compactionSummary (manualSettled.own.drop manualBegun.own.length))
    ++ statements (some plainMeter) .compactionSummary
        (manualCommitted.own.drop manualSettled.own.length)

theorem run_manualActivities :
    Transition.run (step []) (initial [longPrompt] ⟨.null, none, [longPrompt]⟩) manualActivities
      = some manualSession := by
  have hbegun : (TransactionState.initial [longPrompt] ⟨.null, none, [longPrompt]⟩).step []
      (.begin_ quiet plainMeter manualCall none none) = some manualBegun := rfl
  have hcommitted : manualSettled.step [] (.resume quiet plainMeter none)
      = some manualCommitted := rfl
  refine Transition.run_cons_eq_some_iff.mpr ⟨_, step_call hbegun, ?_⟩
  refine Transition.run_cons_eq_some_iff.mpr ⟨_, step_call step_manualBegun, ?_⟩
  exact Transition.run_cons_eq_some_iff.mpr ⟨_, step_call hcommitted, rfl⟩

/-- The manual call states an exact price, and the total stays above zero. -/
theorem shadow_prices_manual :
    (∀ statement ∈ manualSession.stated, Exact [] manualSession.log statement.event) ∧
    ∀ before, before <+: manualSession.log →
      ∃ pressure, before.foldlM ContextPressureState.apply .init = .ok pressure ∧
        0 ≤ pressure.surfaceTokens := by
  have hreplays : ∃ acc, foldSurfaceState [longPrompt] [] = .ok acc := ⟨_, rfl⟩
  have hregular : Regular manualSession.log :=
    regular_of_all (by decide +kernel) (by decide +kernel)
  have hseed : Covered [] [longPrompt] := by
    refine Covered.nil.snoc (fun h => by cases h) ?_
    intro startSeq endSeq h
    have happend : isSurfaceEvent longPrompt = some .append := by decide +kernel
    rw [happend] at h
    cases h
  have hguarded : Transition.Guarded (step [])
      (fun s activity => activity.OthersCovered [] s ∧ activity.Unscaled [] s)
      (initial [longPrompt] ⟨.null, none, [longPrompt]⟩) manualActivities := by
    have hok : ∀ activity ∈ manualActivities, ∀ s : MeteredSession,
        activity.OthersCovered [] s ∧ activity.Unscaled [] s := by
      intro activity hactivity s
      obtain ⟨action, haction, rfl⟩ := List.mem_map.mp hactivity
      have haction : action = .begin_ quiet plainMeter manualCall none none ∨
          action = .summaryReturned emptySummary "m" ∨ action = .resume quiet plainMeter none := by
        simpa [manualActions] using haction
      rcases haction with rfl | rfl | rfl
      · exact ⟨trivial, unscaled_of_uncalibrated s (fun meter h => by cases h)⟩
      · exact ⟨trivial, unscaled_of_uncalibrated s (fun meter h => by cases h)⟩
      · exact ⟨trivial, unscaled_of_uncalibrated s (fun meter h => by cases h; rfl)⟩
    exact Transition.guarded_of_mem hok _
  exact (shadow_prices_iff (by simp) hreplays rfl run_manualActivities hregular).2 hseed hguarded

/-- The summary of nothing, over a doubled measurement of the prompt. -/
def cheapSummarized : SummarizedCompaction :=
  { doubledPrepared, emptySummary with
    checkpointMessage := checkpointMessage "m" "c" none []
    smaller := by
      rw [estimateMessage_checkpoint]
      decide +kernel }

def cheapSettled : TransactionState :=
  { doubledBegun with phase := .settled manualBracket (.ok cheapSummarized) }

def cheapCommitted : TransactionState :=
  cheapSettled.resume [] quiet doubledMeter manualBracket (.ok cheapSummarized) none

def cheapActivities : List Activity :=
  [.call (.begin_ quiet doubledMeter manualCall none none),
    .call (.summaryReturned emptySummary "m"), .call (.resume quiet doubledMeter none)]

def cheapSession : MeteredSession where
  toTransactionState := cheapCommitted
  stated := ([] ++ statements none .compactionSummary (doubledBegun.own.drop 0)
    ++ statements none .compactionSummary (cheapSettled.own.drop doubledBegun.own.length))
    ++ statements (some doubledMeter) .compactionSummary
        (cheapCommitted.own.drop cheapSettled.own.length)

theorem step_cheapBegun :
    doubledBegun.step [] (.summaryReturned emptySummary "m") = some cheapSettled := by
  have hphase : doubledBegun.phase = .summarizing manualBracket doubledPrepared := by
    decide +kernel
  have haccept : acceptSummary doubledPrepared emptySummary (checkpointMessage "m" "c" none [])
      = .ok cheapSummarized := dif_pos cheapSummarized.smaller
  simp only [TransactionState.step, hphase, summaryReturned]
  exact congrArg (fun outcome => some { doubledBegun with phase := .settled manualBracket outcome })
    haccept

theorem run_cheapActivities :
    Transition.run (step []) (initial [longPrompt] ⟨.null, none, [longPrompt]⟩) cheapActivities
      = some cheapSession := by
  have hbegun : (TransactionState.initial [longPrompt] ⟨.null, none, [longPrompt]⟩).step []
      (.begin_ quiet doubledMeter manualCall none none) = some doubledBegun := rfl
  have hcommitted : cheapSettled.step [] (.resume quiet doubledMeter none)
      = some cheapCommitted := rfl
  refine Transition.run_cons_eq_some_iff.mpr ⟨_, step_call hbegun, ?_⟩
  refine Transition.run_cons_eq_some_iff.mpr ⟨_, step_call step_cheapBegun, ?_⟩
  exact Transition.run_cons_eq_some_iff.mpr ⟨_, step_call hcommitted, rfl⟩

/-- The summary event of the doubled call. -/
def cheapSummary : SessionEvent :=
  { type := .compactionSummary, seq := 2, time := 0
    data := summaryData manualBracket cheapSummarized }

theorem mem_stated_cheapSession : ⟨cheapSummary, some doubledMeter⟩ ∈ cheapSession.stated := by
  have hown : (cheapCommitted.own.drop cheapSettled.own.length)[0]? = some cheapSummary := by
    decide +kernel
  refine List.mem_append_right _ (List.mem_map.mpr ⟨cheapSummary, ?_, rfl⟩)
  exact List.mem_filter.mpr ⟨List.mem_of_getElem? hown, rfl⟩

theorem holds_cheapSettled : cheapSettled.Holds [] [longPrompt] := by
  have hinit : (TransactionState.initial [longPrompt] ⟨.null, none, [longPrompt]⟩).Holds []
      [longPrompt] := by
    refine ⟨⟨Attached.sound_seed ⟨_, rfl⟩ rfl, ?_⟩, rfl⟩
    intro event hevent
    cases hevent
  have hbegun := TransactionState.holds_step (List.forall_mem_nil _) _
    (.begin_ quiet doubledMeter manualCall none none) doubledBegun hinit rfl
  exact TransactionState.holds_step (List.forall_mem_nil _) _ _ cheapSettled hbegun step_cheapBegun

/-- The checkpoint of the doubled call stands behind its summary. -/
theorem checkpoint_cheapCommitted :
    ∃ checkpoint, cheapCommitted.log[3]? = some checkpoint ∧ checkpoint.type = .userMessage ∧
      isSurfaceEvent checkpoint = some (.replace 0 0) ∧ messageTokens checkpoint = 98 := by
  have hresult : Phase.result? cheapCommitted.phase
      = some { doubledResult with summary := [] } := by decide +kernel
  obtain ⟨summary, checkpoint, end_, hcommit⟩ :=
    committed_of_resume (List.forall_mem_nil _) holds_cheapSettled rfl hresult
  obtain ⟨rest, hrest⟩ := hcommit.placed
  have hlength : cheapSettled.log.length = 2 := by decide +kernel
  refine ⟨checkpoint, ?_, hcommit.checkpoint_type, hcommit.checkpoint_op, ?_⟩
  · rw [cheapCommitted, ← hrest, List.append_assoc, List.getElem?_append_right (by omega), hlength]
    rfl
  · have hderived : deriveEventMessage checkpoint [] = some (checkpointMessage "m" "c" none []) := by
      simp only [deriveEventMessage, List.lookup_nil, hcommit.checkpoint_type,
        hcommit.checkpoint_data]
      rfl
    unfold messageTokens
    rw [hderived]
    exact estimateMessage_checkpoint _ _ _ _

/-- The running total right after the summary record, with its claim armed. -/
def armedPressure : ContextPressureState := ⟨none, none, 244, none, some ⟨0, 0, 488⟩⟩

/-- The running total right after the replacement. -/
theorem pressure_cheapCommitted :
    ∃ pressure, (cheapCommitted.log.take 4).foldlM ContextPressureState.apply .init = .ok pressure ∧
      pressure.surfaceTokens = -146 := by
  obtain ⟨checkpoint, hcheckpoint, htype, hop, htokens⟩ := checkpoint_cheapCommitted
  have hbefore : (cheapCommitted.log.take 3).foldlM ContextPressureState.apply .init
      = .ok armedPressure := by decide +kernel
  have hfold : foldSurfaceProjection armedPressure.claim checkpoint = .ok ⟨98 - 488, none⟩ := by
    simp [foldSurfaceProjection, armedPressure, htype, hop, htokens, EventType.isShadowPrice]
  obtain ⟨pressure, happly, hsurface, -⟩ := ContextPressureState.apply_of_fold hfold
  refine ⟨pressure, ?_, by rw [hsurface]; rfl⟩
  rw [List.take_add_one, hcheckpoint, Option.toList_some, foldlM_snoc, hbefore, ok_bind, happly]

/-- With the measurement doubled, the summary over a prompt of 244 tokens states 488, and the
running total falls below zero. -/
theorem shadow_prices_doubled :
    ∃ claim prices pressure,
      Transition.run (step []) (initial [longPrompt] ⟨.null, none, [longPrompt]⟩) cheapActivities
        = some cheapSession ∧
      Regular cheapSession.log ∧
      ⟨cheapSummary, some doubledMeter⟩ ∈ cheapSession.stated ∧
      SpanPriced [] cheapSession.log cheapSummary claim prices ∧
      claim.tokens ≠ (prices.sum : ℕ) ∧
      (cheapSession.log.take 4).foldlM ContextPressureState.apply .init = .ok pressure ∧
      pressure.surfaceTokens < 0 := by
  have hregular : Regular cheapSession.log :=
    regular_of_all (by decide +kernel) (by decide +kernel)
  obtain ⟨pressure, hpressure, htotal⟩ := pressure_cheapCommitted
  have hnodes : (surfaceState [] (cheapCommitted.log.take 2)).nodes = [0] := by decide +kernel
  have hprices : [0].map (derivedTokens [] (cheapCommitted.log.take 2)) = [244] := by
    decide +kernel
  refine ⟨⟨0, 0, 488⟩, [244], pressure, run_cheapActivities, hregular, mem_stated_cheapSession,
    ⟨?_, ?_, ⟨0, 0, [0]⟩, ?_, ?_⟩, by decide, hpressure, by omega⟩
  · show cheapCommitted.log[2]? = some cheapSummary
    decide +kernel
  · decide +kernel
  · show replacementRange (surfaceState [] (cheapCommitted.log.take 2)).nodes 0 0 = _
    rw [hnodes]
    rfl
  · exact hprices.symm

end Compaction.MeteredSession

end TianmaCoder
