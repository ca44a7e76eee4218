import TianmaCoder.Compaction.Transacts

/-!
# Compaction progress under the mounted meter

A resolved call replaces its span by a checkpoint. The accept check compares the estimate of
the checkpoint with the measured price of the span, but a measurement prices the checkpoint
like every other node: by its route, and rescaled by the calibration multiplier. What the
measured surface does is decided by that price.

## Main definitions

* `Meter.messagePrice`, `spanPrice` — what a measurement says of a message and of a span.
* `Committed` — where the events of a resolved call stand.

## Main results

* `measure_committed` — the measurement after a replacement.
* `compaction_progress_iff` — when a resolved call lowers the measured surface.
-/

namespace TianmaCoder

open Checked

section Measured

variable [NumberText] {projections : List SessionMessageProjection}

/-! ## The replay fold over the events of a call -/

namespace MeterState

/-- An event that is not a surface event and marks, prices and brackets nothing leaves the state. -/
theorem foldEvent_compaction (state : MeterState) {event : SessionEvent}
    (htype : event.type = .compactionSummary ∨ event.type = .compactionEnd) :
    state.foldEvent event = .ok state := by
  have hsurface : isSurfaceEvent event = none := by
    rcases htype with htype | htype <;> simp [isSurfaceEvent, htype, EventType.isSurfaceEligible]
  have henter : state.enter event = .ok state := by
    rcases htype with htype | htype <;> simp [enter, htype]
  simp [foldEvent, henter, foldSurfaceTokens, hsurface]

variable {log : List SessionEvent} {state : MeterState}

theorem foldEvent_replace {nodes : List ℕ} {event : SessionEvent} {startSeq endSeq : ℕ}
    {range : ReplacementRange}
    (hnodes : state.surface.map (·.toPricedNode) = pricedSurface log nodes)
    (htype : event.type = .userMessage)
    (hop : isSurfaceEvent event = some (.replace startSeq endSeq))
    (hrange : replacementRange nodes startSeq endSeq = .ok range) :
    state.foldEvent event = .ok { state with
      surface := Splice.splice state.surface range.startIdx range.endIdx
        (analyzeNode event.seq (some event.data)) } := by
  have henter : state.enter event = .ok state := by simp [enter, htype]
  have hmessage : deriveEventMessage event [] = some event.data := by
    simp [deriveEventMessage, htype]
  unfold foldEvent foldSurfaceTokens
  simp only [henter, ok_bind, hop, hnodes, planSurfaceTokens_replace hrange event, hmessage, pure_eq,
    commitSurfaceTokens]

/-- An event that moves neither the surface nor the header of a replay state. -/
structure Quiet (event : SessionEvent) : Prop where
  not_surface : isSurfaceEvent event = none
  not_offload : event.type ≠ .imageOffload
  not_header : event.type ≠ .requestHeader

/-- Quiet events leave the nodes and the header as they were. -/
theorem foldlM_quiet {more : List SessionEvent} {state' : MeterState}
    (hquiet : ∀ event ∈ more, Quiet event) (hstate : log.foldlM foldEvent .init = .ok state)
    (hstate' : (log ++ more).foldlM foldEvent .init = .ok state') :
    state'.surface = state.surface ∧ state'.header = state.header := by
  induction more using List.reverseRecOn generalizing state' with
  | nil =>
    rw [List.append_nil, hstate] at hstate'
    cases hstate'
    exact ⟨rfl, rfl⟩
  | append_singleton more event ih =>
    rw [← List.append_assoc, foldlM_snoc] at hstate'
    obtain ⟨before, hbefore, hstep⟩ := bind_ok hstate'
    have ⟨hsurface, hheader⟩ :=
      ih (fun e he => hquiet e (List.mem_append_left _ he)) hbefore
    have hevent : Quiet event := hquiet event (by simp)
    unfold foldEvent foldSurfaceTokens at hstep
    obtain ⟨entered, hentered, hstep⟩ := bind_ok hstep
    rw [hevent.not_surface] at hstep
    simp only [pure_eq, ok_bind] at hstep
    cases hstep
    have hsame : entered.surface = before.surface ∧ entered.header = before.header := by
      unfold enter at hentered
      split at hentered
      · next htype => exact absurd htype hevent.not_offload
      · next htype => exact absurd htype hevent.not_header
      · split at hentered <;> cases hentered
        exact ⟨rfl, rfl⟩
      · split at hentered <;> cases hentered
        exact ⟨rfl, rfl⟩
      · split at hentered <;> cases hentered
        exact ⟨rfl, rfl⟩
      · cases hentered
        exact ⟨rfl, rfl⟩
    exact ⟨hsame.1.trans hsurface, hsame.2.trans hheader⟩

theorem header_eq (hstate : log.foldlM foldEvent .init = .ok state) :
    state.header = Compaction.foldRequestHeader log := by
  refine foldlM_induction
    (motive := fun log state => state.header = Compaction.foldRequestHeader log) hstate rfl ?_
  intro pre event before after _ ih hstep
  unfold foldEvent at hstep
  obtain ⟨entered, hentered, hstep⟩ := bind_ok hstep
  obtain ⟨surface, -, hstep⟩ := bind_ok hstep
  cases hstep
  have hfold : Compaction.foldRequestHeader (pre ++ [event])
      = if event.type = .requestHeader then
          some (canonicalHeader ((event.field "header").getD .null))
        else Compaction.foldRequestHeader pre := by
    simp only [Compaction.foldRequestHeader, List.foldl_append, List.foldl_cons, List.foldl_nil]
  have hheader := enter_header hentered
  rw [ih] at hheader
  rw [hfold]
  exact hheader

end MeterState

/-! ## Prices -/

/-- What a measurement on top of a log says of a message. -/
def Meter.messagePrice (meter : Meter) (log : List SessionEvent) (message : Json) : ℤ :=
  meter.priceOf (Compaction.foldRequestHeader log) (analyzeNode 0 (some message))

/-- What a measurement says of the span between two positions. -/
def spanPrice (measurement : TokenMeasurement) (start end_ : ℕ) : ℤ :=
  match (measurement.nodes.map (·.seq)).idxOf? start,
      (measurement.nodes.map (·.seq)).idxOf? end_ with
  | some startIdx, some endIdx =>
    ((Splice.segment measurement.nodes startIdx endIdx).map (·.tokens)).sum
  | _, _ => 0

namespace Compaction

/-! ## Where a resolved call stands -/

/-- A resolved call committed `summarized` on top of `log`: the summary record, the checkpoint
in the place of the span, the end of the bracket. -/
structure Committed (projections : List SessionMessageProjection) (meter : Meter)
    (log whole : List SessionEvent) (result : CompactionResult)
    (summarized : SummarizedCompaction) (summary checkpoint end_ : SessionEvent) : Prop where
  placed : log ++ [summary, checkpoint, end_] <+: whole
  startSeq_lt : result.startSeq < log.length
  summarySeq_eq : result.summarySeq = log.length
  endSeq_eq : result.endSeq = log.length + 2
  start_eq : result.start = summarized.start
  end_eq : result.end_ = summarized.end_
  replays : ∃ acc, foldSurfaceState log projections = .ok acc
  span : ∃ startIdx endIdx measurement, SpanAt projections meter log
    summarized.toPreparedCompaction startIdx endIdx measurement
  summary_type : summary.type = .compactionSummary
  summary_data : ∃ bracket, summary.data = TransactionState.summaryData bracket summarized
  checkpoint_type : checkpoint.type = .userMessage
  checkpoint_data : checkpoint.data = summarized.checkpointMessage
  checkpoint_op : isSurfaceEvent checkpoint = some (.replace summarized.start summarized.end_)
  end_type : end_.type = .compactionEnd

variable {meter : Meter} {result : CompactionResult} {log whole : List SessionEvent}
  {summarized : SummarizedCompaction} {summary checkpoint end_ : SessionEvent}

theorem Committed.mono {whole' : List SessionEvent}
    (h : Committed projections meter log whole result summarized summary checkpoint end_)
    (hwhole : whole <+: whole') :
    Committed projections meter log whole' result summarized summary checkpoint end_ :=
  { h with placed := h.placed.trans hwhole }

namespace TransactionState

variable {seed : List SessionEvent} {s : TransactionState} {env : Surroundings} {bracket : Bracket}

/-- Only a complete commit produces a result. -/
theorem committed_of_commit {bracket' : Bracket} {ending : Ending}
    (hs : s.Accounted projections seed) (hopened : Opened s.own bracket)
    (hspan : ∃ startIdx endIdx measurement, SpanAt projections meter s.log
      summarized.toPreparedCompaction startIdx endIdx measurement)
    (hphase : (s.commit projections env bracket summarized).phase = .ended bracket' ending)
    (hresult : ending.result = some result) :
    ∃ summary checkpoint end_, Committed projections meter s.log
      (s.commit projections env bracket summarized).log result summarized summary checkpoint
      end_ := by
  have hclosed : ∀ (s : TransactionState) error, (s.close projections env bracket error .commit).phase
      = .ended bracket' ending → ending.result = some result → False := by
    intro s error hphase hresult
    unfold close at hphase
    simp only at hphase
    split at hphase <;> cases hphase <;> cases hresult
  unfold commit commitCompactionBody at hphase ⊢
  simp only at hphase ⊢
  cases hsummary : s.appendOwn projections env .compactionSummary (summaryData bracket summarized)
      none none with
  | error message =>
    rw [hsummary] at hphase
    exact (hclosed _ _ hphase hresult).elim
  | ok s₁ =>
    rw [hsummary] at hphase
    simp only at hphase ⊢
    cases hreplace : s₁.appendOwn projections env .userMessage summarized.checkpointMessage
        (some (.obj [("op", .str "replace"), ("startSeq", .nat summarized.start),
          ("endSeq", .nat summarized.end_)]))
        (some (.arr (([bracket.startSeq, s.log.length] ++ summarized.shadowedSeqs).map .nat))) with
    | error message =>
      rw [hreplace] at hphase
      exact (hclosed _ _ hphase hresult).elim
    | ok s₂ =>
      rw [hreplace] at hphase
      simp only at hphase ⊢
      cases hend : s₂.appendOwn projections env .compactionEnd (.obj bracket.lifecycle)
          none none with
      | error message =>
        rw [hend] at hphase
        cases hphase
        cases hresult
      | ok s₃ =>
        rw [hend] at hphase
        cases hphase
        cases hresult
        obtain ⟨summary, htype₁, hdata₁, -, -, -, ⟨_, hcandidate₁, happend₁⟩, -⟩ :=
          appendOwn_cases hsummary
        obtain ⟨checkpoint, htype₂, hdata₂, hop₂, -, -, ⟨_, hcandidate₂, happend₂⟩, -⟩ :=
          appendOwn_cases hreplace
        obtain ⟨end_, htype₃, -, -, -, -, ⟨_, hcandidate₃, happend₃⟩, -⟩ :=
          appendOwn_cases hend
        have hlog₁ := Attached.log_append happend₁
        have hlog₂ := Attached.log_append happend₂
        have hlog₃ := Attached.log_append happend₃
        rw [hcandidate₁] at hlog₁
        rw [hcandidate₂] at hlog₂
        rw [hcandidate₃] at hlog₃
        refine ⟨summary, checkpoint, end_, ?_⟩
        exact {
          placed := by
            rw [hlog₃, hlog₂, hlog₁]
            simp
          startSeq_lt := by
            obtain ⟨start, hstart, -, hseq⟩ := hopened.started
            have hmem : start ∈ s.own := by
              have : start ∈ ofType .compactionStart s.own := by simp [hstart]
              exact List.mem_of_mem_filter this
            rw [← hseq]
            exact (List.getElem?_eq_some_iff.mp (hs.accepted start hmem).placed).1
          summarySeq_eq := rfl
          endSeq_eq := by
            rw [hlog₂, hlog₁]
            simp
          start_eq := rfl
          end_eq := rfl
          replays := hs.sound.replays
          span := hspan
          summary_type := htype₁
          summary_data := ⟨bracket, hdata₁⟩
          checkpoint_type := htype₂
          checkpoint_data := hdata₂
          checkpoint_op := by
            obtain ⟨plan, -, hplan, -⟩ := Attached.append_cases happend₂
            rw [hcandidate₂] at hplan
            exact isSurfaceEvent_of_replace hplan (htype₂ ▸ rfl) hop₂
          end_type := htype₃ }

/-- The result of a call, once it has one. -/
def Phase.result? : Phase → Option CompactionResult
  | .ended _ ending => ending.result
  | _ => none

/-- Every measurement of an action is taken by the given meter. -/
def Action.Metered (meter : Meter) : Action → Prop
  | .begin_ _ meter' _ _ _ => meter' = meter
  | .summaryFailed _ meter' meter'' _ _ _ => meter' = meter ∧ meter'' = meter
  | .resume _ meter' _ => meter' = meter
  | .other _ | .summaryReturned _ _ => True

/-- A call with a result committed it. -/
def Resolved (projections : List SessionMessageProjection) (meter : Meter)
    (s : TransactionState) : Prop :=
  ∀ result, Phase.result? s.phase = some result →
    ∃ log summarized summary checkpoint end_,
      Committed projections meter log s.log result summarized summary checkpoint end_

theorem result?_close (s : TransactionState) (env : Surroundings) (bracket : Bracket)
    (error : RegionError) (stage : Stage) :
    Phase.result? (s.close projections env bracket error stage).phase = none := by
  unfold close
  simp only
  split <;> rfl

theorem result?_request (s : TransactionState) (bracket : Bracket) (prepared : PreparedCompaction)
    (aborted : Option String) : Phase.result? (s.request bracket prepared aborted).phase = none := by
  cases aborted <;> rfl

theorem result?_begin (s : TransactionState) (env : Surroundings) (meter : Meter) (call : Request)
    (aborted aborted' : Option String) :
    Phase.result? (s.begin_ projections env meter call aborted aborted').phase = none := by
  unfold begin_
  split
  · rfl
  · simp only
    split
    · rfl
    · split
      · exact result?_close _ _ _ _ _
      · exact result?_request _ _ _ _

theorem result?_summaryFailed (s : TransactionState) (bracket : Bracket)
    (prepared : PreparedCompaction) (error : RegionError) (meter meter' : Meter)
    (recovery : Recovery) (aborted : Bool) (aborted' : Option String) :
    Phase.result? (s.summaryFailed projections bracket prepared error meter meter' recovery aborted
      aborted').phase = none := by
  unfold summaryFailed
  split
  · rfl
  · split
    · rfl
    · simp only
      split
      · rfl
      · rfl
      · split
        · rfl
        · exact result?_request _ _ _ _

theorem ended_of_result {phase : Phase} (h : Phase.result? phase = some result) :
    ∃ bracket ending, phase = .ended bracket ending ∧ ending.result = some result := by
  cases phase with
  | ended bracket ending => exact ⟨bracket, ending, rfl, h⟩
  | _ => cases h

/-- A call that gets its result when it resumes found its span stable and committed. -/
theorem stable_of_result {aborted : Option String}
    (h : Phase.result? (s.resume projections env meter bracket (.ok summarized) aborted).phase
      = some result) :
    assertStable projections bracket.stability meter s.log summarized.toPreparedCompaction = .ok () ∧
      s.resume projections env meter bracket (.ok summarized) aborted
        = s.commit projections env bracket summarized := by
  unfold resume at h ⊢
  simp only at h ⊢
  split at h
  · rw [result?_close] at h
    cases h
  · split at h
    · rw [result?_close] at h
      cases h
    · next hstable =>
        exact ⟨hstable, rfl⟩

theorem committed_of_resume (hdeclared : DeclaredProjections projections) {aborted : Option String}
    (hs : s.Holds projections seed) (hcase : s.phase = .settled bracket (.ok summarized))
    (hresult : Phase.result? (s.resume projections env meter bracket (.ok summarized) aborted).phase
      = some result) :
    ∃ summary checkpoint end_, Committed projections meter s.log
      (s.resume projections env meter bracket (.ok summarized) aborted).log result summarized
      summary checkpoint end_ := by
  have hphase := hs.phase
  unfold PhaseHolds at hphase
  rw [hcase] at hphase
  obtain ⟨hopened, -, hasked⟩ := hphase
  obtain ⟨hstable, hresume⟩ := stable_of_result hresult
  obtain ⟨-, read, -, htaken⟩ := hasked summarized rfl
  have hspan := spanAt_of_assertStable hdeclared htaken hs.accounted.sound.replays hstable
  rw [hresume] at hresult ⊢
  obtain ⟨bracket', ending, hended, hresult⟩ := ended_of_result hresult
  exact committed_of_commit hs.accounted hopened hspan hended hresult

/-- One action of a call whose meter stands keeps the record of its result. -/
theorem resolved_step (hdeclared : DeclaredProjections projections)
    (s : TransactionState) (action : Action) (s' : TransactionState)
    (hs : s.Holds projections seed ∧ Resolved projections meter s)
    (hmeter : Action.Metered meter action) (hstep : s.step projections action = some s') :
    s'.Holds projections seed ∧ Resolved projections meter s' := by
  refine ⟨holds_step hdeclared s action s' hs.1 hstep, ?_⟩
  obtain ⟨hholds, hresolved⟩ := hs
  unfold step at hstep
  intro result hresult
  cases action with
  | other call =>
    cases hstep
    obtain ⟨hlog, -, -, hsame, -⟩ := s.appendOthers_cases projections [call]
    rw [hsame] at hresult
    obtain ⟨log, summarized, summary, checkpoint, end_, hcommitted⟩ := hresolved result hresult
    exact ⟨log, summarized, summary, checkpoint, end_, hcommitted.mono hlog⟩
  | begin_ env meter' call aborted aborted' =>
    cases hcase : s.phase <;> rw [hcase] at hstep <;> cases hstep
    rw [result?_begin] at hresult
    cases hresult
  | summaryFailed error meter' meter'' recovery aborted aborted' =>
    cases hcase : s.phase <;> rw [hcase] at hstep <;> cases hstep
    rw [result?_summaryFailed] at hresult
    cases hresult
  | summaryReturned summary messageId =>
    cases hcase : s.phase <;> rw [hcase] at hstep <;> cases hstep
    cases hresult
  | resume env meter' aborted =>
    cases hcase : s.phase <;> rw [hcase] at hstep <;> cases hstep
    cases hmeter
    next bracket outcome =>
    cases outcome with
    | error error =>
      rw [resume, result?_close] at hresult
      cases hresult
    | ok summarized =>
      have ⟨summary, checkpoint, end_, hcommitted⟩ :=
        committed_of_resume hdeclared hholds hcase hresult
      exact ⟨s.log, summarized, summary, checkpoint, end_, hcommitted⟩

end TransactionState

/-! ## The measurement after a replacement -/

theorem folded_of_committed (hdeclared : DeclaredProjections projections)
    (h : Committed projections meter log whole result summarized summary checkpoint end_) :
    ∃ state startIdx endIdx measurement, log.foldlM MeterState.foldEvent .init = .ok state ∧
      SpanAt projections meter log summarized.toPreparedCompaction startIdx endIdx measurement ∧
      (log ++ [summary, checkpoint, end_]).foldlM MeterState.foldEvent .init
        = .ok { state with
            surface := Splice.splice state.surface startIdx endIdx
              (analyzeNode checkpoint.seq (some checkpoint.data)) } := by
  obtain ⟨startIdx, endIdx, measurement, hspan⟩ := h.span
  obtain ⟨state, hstate⟩ := Meter.folded_of_measure hspan.measured
  obtain ⟨acc, hacc⟩ := h.replays
  have hnodes := MeterState.surface_eq hdeclared hacc hstate
  have hstart := hspan.start_at
  have hend := hspan.end_at
  rw [surfaceState_eq hacc] at hstart hend
  have hrange : replacementRange acc.1.nodes summarized.start summarized.end_
      = .ok ⟨startIdx, endIdx, (acc.1.nodes.take (endIdx + 1)).drop startIdx⟩ := by
    unfold replacementRange
    simp only [hstart, hend, Nat.not_lt.mpr hspan.ordered, if_false, pure_eq]
  refine ⟨state, startIdx, endIdx, measurement, hstate, hspan, ?_⟩
  have hreplace := MeterState.foldEvent_replace hnodes h.checkpoint_type h.checkpoint_op hrange
  rw [List.foldlM_append, hstate, ok_bind]
  simp only [List.foldlM_cons, List.foldlM_nil, pure_eq]
  rw [MeterState.foldEvent_compaction _ (.inl h.summary_type), ok_bind, hreplace, ok_bind,
    MeterState.foldEvent_compaction _ (.inr h.end_type), ok_bind]

theorem measure_committed (hdeclared : DeclaredProjections projections)
    (hmeter : meter.PerOccurrence)
    (h : Committed projections meter log whole result summarized summary checkpoint end_) :
    ∃ committed after, meter.measure log = .ok committed ∧
      meter.measure (log ++ [summary, checkpoint, end_]) = .ok after ∧
      spanPrice committed summarized.start summarized.end_ = summarized.shadowedRouteTokenCount ∧
      after.surfaceTokens + spanPrice committed summarized.start summarized.end_
        = committed.surfaceTokens + meter.messagePrice log summarized.checkpointMessage := by
  obtain ⟨state, startIdx, endIdx, measurement, hstate, hspan, hafter⟩ :=
    folded_of_committed hdeclared h
  obtain ⟨acc, hacc⟩ := h.replays
  have hmeasured := Meter.measure_eq hmeter hstate
  have hcommitted : measurement = ⟨log.length, ((meter.measured state).map (·.tokens)).sum,
      meter.measured state⟩ := by
    have := hspan.measured
    rw [hmeasured] at this
    exact (Except.ok.inj this).symm
  have hseqs := Meter.measure_seqs hdeclared hacc hspan.measured
  have hprice : spanPrice measurement summarized.start summarized.end_
      = ((Splice.segment measurement.nodes startIdx endIdx).map (·.tokens)).sum := by
    have hstart := hspan.start_at
    have hend := hspan.end_at
    rw [surfaceState_eq hacc, ← hseqs] at hstart hend
    simp only [spanPrice, hstart, hend]
  refine ⟨measurement, _, hspan.measured, Meter.measure_eq hmeter hafter, ?_, ?_⟩
  · rw [hprice, hspan.selected]
    rfl
  · rw [hprice, hcommitted]
    -- The measured nodes after the replacement are the splice of the measured nodes before it.
    have hsplice : meter.measured { state with
          surface := Splice.splice state.surface startIdx endIdx
            (analyzeNode checkpoint.seq (some checkpoint.data)) }
        = Splice.splice (meter.measured state) startIdx endIdx
            ⟨checkpoint.seq, meter.messagePrice log summarized.checkpointMessage,
              meter.calibrate (analyzeNode checkpoint.seq
                (some checkpoint.data)).heuristicTokens⟩ := by
      unfold Meter.measured
      rw [Splice.map_splice, h.checkpoint_data]
      simp only [Meter.messagePrice, ← MeterState.header_eq hstate]
      rfl
    rw [hsplice]
    exact Splice.sum_splice (·.tokens) (meter.measured state) hspan.ordered _

theorem measure_quiet (hmeter : meter.PerOccurrence) {more : List SessionEvent}
    {committed : TokenMeasurement} (hcommitted : meter.measure (log ++ more) = .ok committed) :
    ∃ before, meter.measure log = .ok before ∧
      ((∀ event ∈ more, MeterState.Quiet event) →
        before.nodes = committed.nodes ∧ before.surfaceTokens = committed.surfaceTokens) := by
  obtain ⟨state', hstate'⟩ := Meter.folded_of_measure hcommitted
  obtain ⟨state, hstate, -⟩ := foldlM_prefix_ok hstate'
  rw [Meter.measure_eq hmeter hstate'] at hcommitted
  cases hcommitted
  refine ⟨_, Meter.measure_eq hmeter hstate, ?_⟩
  intro hquiet
  obtain ⟨hsurface, hheader⟩ := MeterState.foldlM_quiet hquiet hstate hstate'
  have hmeasured : meter.measured state = meter.measured state' := by
    unfold Meter.measured
    rw [hsurface, hheader]
  exact ⟨hmeasured, by rw [hmeasured]⟩

namespace TransactionState

theorem measures_of_run (hdeclared : DeclaredProjections projections) {seed : List SessionEvent}
    {trace : Trace} (hreplays : ∃ acc, foldSurfaceState seed projections = .ok acc)
    (htrace : seedTrace projections seed = .ok trace) {actions : List Action} {s : TransactionState}
    (hrun : Transition.run (step projections) (initial seed trace) actions = some s)
    (hmeter : ∀ action ∈ actions, Action.Metered meter action) (hpricing : meter.PerOccurrence)
    (hresult : Phase.result? s.phase = some result) :
    ∃ before committed after checkpoint,
      meter.measure (s.log.take result.startSeq) = .ok before ∧
      meter.measure (s.log.take result.summarySeq) = .ok committed ∧
      meter.measure (s.log.take (result.endSeq + 1)) = .ok after ∧
      s.log[result.summarySeq + 1]? = some checkpoint ∧
      (estimateMessage checkpoint.data : ℤ) < spanPrice committed result.start result.end_ ∧
      after.surfaceTokens + spanPrice committed result.start result.end_
        = committed.surfaceTokens
          + meter.messagePrice (s.log.take result.summarySeq) checkpoint.data ∧
      ((∀ event ∈ (s.log.take result.summarySeq).drop result.startSeq, MeterState.Quiet event) →
        before.nodes = committed.nodes ∧ before.surfaceTokens = committed.surfaceTokens) := by
  have hinit : (initial seed trace).Holds projections seed ∧
      Resolved projections meter (initial seed trace) := by
    refine ⟨⟨⟨Attached.sound_seed hreplays htrace, ?_⟩, rfl⟩, ?_⟩
    · intro event hevent
      cases hevent
    · intro result h
      cases h
  have hresolved : Resolved projections meter s :=
    (Transition.run_induction_of_guarded
      (motive := fun s => s.Holds projections seed ∧ Resolved projections meter s)
      (resolved_step hdeclared) hinit
      (Transition.guarded_of_mem (fun action haction _ => hmeter action haction) _) hrun).2
  obtain ⟨log, summarized, summary, checkpoint, end_, h⟩ := hresolved result hresult
  obtain ⟨committed, after, hcommitted, hafter, hprice, htotal⟩ :=
    measure_committed hdeclared hpricing h
  obtain ⟨rest, hrest⟩ := h.placed
  have hlog : s.log.take result.summarySeq = log := by
    rw [h.summarySeq_eq, ← hrest, List.append_assoc, List.take_left]
  have hend : s.log.take (result.endSeq + 1) = log ++ [summary, checkpoint, end_] := by
    have hlength : result.endSeq + 1 = (log ++ [summary, checkpoint, end_]).length := by
      rw [h.endSeq_eq]
      simp
    rw [hlength, ← hrest, List.take_left]
  have hcheckpoint : s.log[result.summarySeq + 1]? = some checkpoint := by
    rw [h.summarySeq_eq, ← hrest]
    simp
  have hstart : s.log.take result.startSeq = log.take result.startSeq := by
    rw [← hlog, List.take_take, Nat.min_eq_left]
    rw [h.summarySeq_eq]
    exact h.startSeq_lt.le
  have hsplit : log.take result.startSeq ++ log.drop result.startSeq = log :=
    List.take_append_drop _ _
  obtain ⟨before, hbefore, hquiet⟩ := measure_quiet hpricing (hsplit.symm ▸ hcommitted)
  rw [hlog, hend, hstart, h.start_eq, h.end_eq]
  refine ⟨before, committed, after, checkpoint, hbefore, hcommitted, hafter, hcheckpoint, ?_, ?_,
    hquiet⟩
  · rw [h.checkpoint_data, hprice]
    exact summarized.smaller
  · rw [h.checkpoint_data]
    exact htotal

end TransactionState

/-! ## Calibration -/

/-- A message without attachments. -/
def TextOnly (message : Json) : Prop :=
  imageBlocks (contentOf message) = [] ∧ fileBlocks (contentOf message) = []

/-- Every measurement prices a text-only message at its calibrated estimate. -/
theorem messagePrice_of_textOnly (meter : Meter) (log : List SessionEvent) {message : Json}
    (h : TextOnly message) :
    meter.messagePrice log message = meter.calibrate (estimateMessage message) := by
  have himages : (analyzeNode 0 (some message)).images = [] := h.1
  have hfiles : (analyzeNode 0 (some message)).files = [] := by
    simp only [analyzeNode, h.2, List.map_nil]
  have hheuristic : (analyzeNode 0 (some message)).heuristicTokens = estimateMessage message := rfl
  unfold Meter.messagePrice Meter.priceOf nodePrice fileTokens imageTokens
  simp only [himages, hfiles, hheuristic, if_true]
  congr 1
  split <;> split <;> simp

omit [NumberText] in
theorem calibrate_le (h : ∀ multiplier, meter.sessionMultiplier = some multiplier → multiplier ≤ 1)
    (tokens : ℕ) : meter.calibrate tokens ≤ tokens := by
  unfold Meter.calibrate
  cases hmultiplier : meter.sessionMultiplier with
  | none => exact le_refl _
  | some multiplier =>
    have hle : multiplier ≤ 1 := h multiplier hmultiplier
    simp only
    split
    · exact le_refl _
    · unfold scaleTokens
      refine max_le (Int.natCast_nonneg tokens) ?_
      have hscaled : ((tokens : ℤ) : ℚ) * multiplier ≤ ((tokens : ℤ) : ℚ) := by
        have hpos : (0 : ℚ) ≤ ((tokens : ℤ) : ℚ) := by positivity
        nlinarith
      have hlt : ⌊((tokens : ℤ) : ℚ) * multiplier + 1 / 2⌋ < (tokens : ℤ) + 1 := by
        rw [Int.floor_lt]
        push_cast
        push_cast at hscaled
        linarith
      omega

namespace TransactionState

/-- A resolved call lowers the measured surface exactly when the price of its checkpoint, as the
meter measures it, is below the price of the span, corrected by what other events moved
meanwhile. When nothing moved it, that is: below the measured price of the span; and a meter
that raises no price then always lowers the surface by a text-only checkpoint. -/
theorem compaction_progress_iff
    (hdeclared : ∀ p ∈ projections, p.type.needsMessageProjection = true) {seed : List SessionEvent}
    {trace : Trace} (hreplays : ∃ acc, foldSurfaceState seed projections = .ok acc)
    (htrace : seedTrace projections seed = .ok trace) {actions : List Action} {s : TransactionState}
    (hrun : Transition.run (step projections) (initial seed trace) actions = some s) {meter : Meter}
    (hmeter : ∀ action ∈ actions, Action.Metered meter action) (hpricing : meter.PerOccurrence)
    {bracket : Bracket} {ending : Ending} (hphase : s.phase = .ended bracket ending)
    {flush : Option RegionError} {aborted : Option String} {result : CompactionResult}
    (hresolved : ending.outcome bracket.owner flush aborted = .ok result) :
    ∃ before committed after checkpoint,
      meter.measure (s.log.take result.startSeq) = .ok before ∧
      meter.measure (s.log.take result.summarySeq) = .ok committed ∧
      meter.measure (s.log.take (result.endSeq + 1)) = .ok after ∧
      s.log[result.summarySeq + 1]? = some checkpoint ∧
      (after.surfaceTokens < before.surfaceTokens ↔
        meter.messagePrice (s.log.take result.summarySeq) checkpoint.data
            + committed.surfaceTokens
          < spanPrice committed result.start result.end_ + before.surfaceTokens) ∧
      ((∀ event ∈ (s.log.take result.summarySeq).drop result.startSeq, MeterState.Quiet event) →
        (after.surfaceTokens < before.surfaceTokens ↔
          meter.messagePrice (s.log.take result.summarySeq) checkpoint.data
            < spanPrice before result.start result.end_) ∧
        ((∀ multiplier, meter.sessionMultiplier = some multiplier → multiplier ≤ 1) →
          TextOnly checkpoint.data → after.surfaceTokens < before.surfaceTokens)) := by
  have hresult : Phase.result? s.phase = some result := by
    rw [hphase]
    exact result_of_outcome hresolved
  obtain ⟨before, committed, after, checkpoint, hbefore, hcommitted, hafter, hcheckpoint, hsmaller,
    htotal, hquiet⟩ := measures_of_run hdeclared hreplays htrace hrun hmeter hpricing hresult
  refine ⟨before, committed, after, checkpoint, hbefore, hcommitted, hafter, hcheckpoint, ?_, ?_⟩
  · constructor <;> intro h <;> omega
  · intro hevents
    obtain ⟨hnodes, hsurface⟩ := hquiet hevents
    have hspan : spanPrice before result.start result.end_
        = spanPrice committed result.start result.end_ := by
      unfold spanPrice
      rw [hnodes]
    rw [hspan]
    refine ⟨?_, ?_⟩
    · constructor <;> intro h <;> omega
    · intro hmultiplier htext
      have hprice := messagePrice_of_textOnly meter (s.log.take result.summarySeq) htext
      have hle := calibrate_le hmultiplier (estimateMessage checkpoint.data)
      omega

end TransactionState

end Compaction

end Measured

namespace Compaction.TransactionState

private instance doubledNumberText : NumberText := ⟨fun _ => 22, fun _ => 18⟩

/-- Resolving the manual call shrinks the surface as the prices of its checkpoint and of the
prompt say. -/
theorem compaction_progress_manual :
    ∃ ending result before after checkpoint,
      manualCommitted.phase = .ended manualBracket ending ∧
      ending.outcome .standalone none none = .ok result ∧
      plainMeter.measure (manualCommitted.log.take result.startSeq) = .ok before ∧
      plainMeter.measure (manualCommitted.log.take (result.endSeq + 1)) = .ok after ∧
      manualCommitted.log[result.summarySeq + 1]? = some checkpoint ∧
      (after.surfaceTokens < before.surfaceTokens ↔
        plainMeter.messagePrice (manualCommitted.log.take result.summarySeq) checkpoint.data
          < spanPrice before result.start result.end_) := by
  have hreplays : ∃ acc, foldSurfaceState [longPrompt] [] = .ok acc := ⟨_, rfl⟩
  have hmetered : ∀ action ∈ manualActions, Action.Metered plainMeter action := by
    simp [manualActions, Action.Metered]
  have hpricing : plainMeter.PerOccurrence := by
    intro provider model pricing h
    cases h
  have hended : ∃ ending result, manualCommitted.phase = .ended manualBracket ending ∧
      ending.outcome .standalone none none = .ok result ∧ result.startSeq = 1 ∧
      result.summarySeq = 2 := ⟨_, _, rfl, rfl, rfl, rfl⟩
  obtain ⟨ending, result, hphase, houtcome, hstart, hsummary⟩ := hended
  obtain ⟨before, committed, after, checkpoint, hbefore, hcommitted, hafter, hcheckpoint, -,
    hquiet⟩ := compaction_progress_iff (by simp) hreplays rfl run_manualActions hmetered hpricing
      hphase houtcome
  refine ⟨ending, result, before, after, checkpoint, hphase, houtcome, hbefore, hafter,
    hcheckpoint, ?_⟩
  have htypes : ((manualCommitted.log.take 2).drop 1).all (fun event =>
      isSurfaceEvent event = none ∧ event.type ≠ .imageOffload ∧ event.type ≠ .requestHeader)
        = true := by
    decide +kernel
  refine (hquiet ?_).1
  intro event hevent
  rw [hstart, hsummary] at hevent
  have hholds := List.all_eq_true.mp htypes event hevent
  simp only [decide_eq_true_eq] at hholds
  exact ⟨hholds.1, hholds.2.1, hholds.2.2⟩

/-! ## A doubled meter -/

/-- The calibration plugin at multiplier two. -/
def doubledMeter : Meter := ⟨fun _ _ => none, none, some 2⟩

/-- A summary whose checkpoint is dearer than the prompt, but cheaper than twice its price. -/
def wordySummary : SummaryResult :=
  ⟨List.replicate 40 (.obj [("type", .str "text"), ("text", .str "")]), "p", "m", none, none, none,
    false⟩

def doubledBegun : TransactionState :=
  (initial [longPrompt] ⟨.null, none, [longPrompt]⟩).begin_ [] quiet doubledMeter manualCall none none

def doubledPrepared : PreparedCompaction where
  start := 0
  end_ := 0
  startIdx := 0
  endIdx := 0
  shadowedSeqs := [0]
  measurement := ⟨2, 488, [⟨0, 488, 488⟩]⟩
  selectedNodes := [⟨0, 488, 488⟩]
  input := ⟨none, [longPrompt.data]⟩
  matched := rfl

def wordyCheckpoint : Json := checkpointMessage "m" "c" none wordySummary.summary

theorem estimateMessage_wordyCheckpoint : estimateMessage wordyCheckpoint = 258 := by
  rw [wordyCheckpoint, estimateMessage_checkpoint]
  decide +kernel

def doubledSummarized : SummarizedCompaction :=
  { doubledPrepared, wordySummary with
    checkpointMessage := wordyCheckpoint
    smaller := by
      rw [estimateMessage_wordyCheckpoint]
      decide +kernel }

def doubledSettled : TransactionState :=
  { doubledBegun with phase := .settled manualBracket (.ok doubledSummarized) }

def doubledCommitted : TransactionState :=
  doubledSettled.resume [] quiet doubledMeter manualBracket (.ok doubledSummarized) none

def doubledActions : List Action :=
  [.begin_ quiet doubledMeter manualCall none none, .summaryReturned wordySummary "m",
    .resume quiet doubledMeter none]

theorem run_doubledSettled :
    Transition.run (step []) (initial [longPrompt] ⟨.null, none, [longPrompt]⟩)
      (doubledActions.take 2) = some doubledSettled := by
  have hphase : doubledBegun.phase = .summarizing manualBracket doubledPrepared := by
    decide +kernel
  have haccept : acceptSummary doubledPrepared wordySummary wordyCheckpoint
      = .ok doubledSummarized := dif_pos doubledSummarized.smaller
  have hreturned : step [] doubledBegun (.summaryReturned wordySummary "m")
      = some doubledSettled := by
    simp only [step, hphase, summaryReturned]
    exact congrArg (fun outcome => some { doubledBegun with phase := .settled manualBracket outcome })
      haccept
  refine Transition.run_cons_eq_some_iff.mpr ⟨doubledBegun, rfl, ?_⟩
  exact Transition.run_cons_eq_some_iff.mpr ⟨doubledSettled, hreturned, rfl⟩

theorem run_doubledActions :
    Transition.run (step []) (initial [longPrompt] ⟨.null, none, [longPrompt]⟩) doubledActions
      = some doubledCommitted := by
  have hsplit : doubledActions
      = doubledActions.take 2 ++ [.resume quiet doubledMeter none] := rfl
  rw [hsplit, Transition.run_append, run_doubledSettled]
  rfl

theorem metered_doubledActions : ∀ action ∈ doubledActions, Action.Metered doubledMeter action := by
  simp [doubledActions, Action.Metered]

theorem perOccurrence_doubledMeter : doubledMeter.PerOccurrence := by
  intro provider model pricing h
  cases h

/-- The result of the doubled call. -/
def doubledResult : CompactionResult :=
  { summarySeq := 2, summary := wordySummary.summary, start := 0, end_ := 0, shadowedSeqs := [0]
    shadowedTokenCount := 488, compactionId := "c", sourceCommandId := none, startSeq := 1
    endSeq := 4 }

theorem result?_doubledCommitted : Phase.result? doubledCommitted.phase = some doubledResult := by
  decide +kernel

theorem holds_doubledSettled : doubledSettled.Holds [] [longPrompt] := by
  have hinit : (initial [longPrompt] ⟨.null, none, [longPrompt]⟩).Holds [] [longPrompt] := by
    refine ⟨⟨Attached.sound_seed ⟨_, rfl⟩ rfl, ?_⟩, rfl⟩
    intro event hevent
    cases hevent
  exact Transition.run_induction (holds_step (List.forall_mem_nil _)) hinit run_doubledSettled

theorem quiet_doubledCommitted :
    ∀ event ∈ (doubledCommitted.log.take 2).drop 1, MeterState.Quiet event := by
  have htypes : ((doubledCommitted.log.take 2).drop 1).all (fun event =>
      isSurfaceEvent event = none ∧ event.type ≠ .imageOffload ∧ event.type ≠ .requestHeader)
        = true := by
    decide +kernel
  intro event hevent
  have hholds := List.all_eq_true.mp htypes event hevent
  simp only [decide_eq_true_eq] at hholds
  exact ⟨hholds.1, hholds.2.1, hholds.2.2⟩

/-- With the measurement doubled, an accepted checkpoint of estimate 258 takes the place of a
prompt of estimate 244, and the measured surface grows. -/
theorem compaction_progress_doubled :
    ∃ before after,
      Transition.run (step []) (initial [longPrompt] ⟨.null, none, [longPrompt]⟩) doubledActions
        = some doubledCommitted ∧
      (∀ action ∈ doubledActions, Action.Metered doubledMeter action) ∧
      Phase.result? doubledCommitted.phase = some doubledResult ∧
      (∀ event ∈ (doubledCommitted.log.take 2).drop 1, MeterState.Quiet event) ∧
      doubledMeter.measure (doubledCommitted.log.take doubledResult.startSeq) = .ok before ∧
      doubledMeter.measure (doubledCommitted.log.take (doubledResult.endSeq + 1)) = .ok after ∧
      ¬ after.surfaceTokens < before.surfaceTokens := by
  have hreplays : ∃ acc, foldSurfaceState [longPrompt] [] = .ok acc := ⟨_, rfl⟩
  obtain ⟨before, committed, after, checkpoint, hbefore, hcommitted, hafter, hcheckpoint, -, htotal,
    hquiet⟩ := measures_of_run (List.forall_mem_nil _) hreplays rfl run_doubledActions metered_doubledActions
      perOccurrence_doubledMeter result?_doubledCommitted
  refine ⟨before, after, run_doubledActions, metered_doubledActions, result?_doubledCommitted,
    quiet_doubledCommitted, hbefore, hafter, ?_⟩
  have hmeasured : doubledMeter.measure (doubledCommitted.log.take doubledResult.summarySeq)
      = .ok ⟨2, 488, [⟨0, 488, 488⟩]⟩ := by
    decide +kernel
  rw [hmeasured, Except.ok.injEq] at hcommitted
  have hspan : spanPrice committed doubledResult.start doubledResult.end_ = 488 := by
    rw [← hcommitted]
    decide +kernel
  have hdata : checkpoint.data = wordyCheckpoint := by
    have ⟨summary, committedCheckpoint, end_, hcommit⟩ :=
      committed_of_resume (List.forall_mem_nil _) holds_doubledSettled rfl result?_doubledCommitted
    obtain ⟨rest, hrest⟩ := hcommit.placed
    have hplaced : doubledCommitted.log[doubledResult.summarySeq + 1]?
        = some committedCheckpoint := by
      rw [hcommit.summarySeq_eq, doubledCommitted, ← hrest]
      simp
    rw [hcheckpoint] at hplaced
    rw [Option.some.inj hplaced]
    exact hcommit.checkpoint_data
  have hprice : doubledMeter.messagePrice (doubledCommitted.log.take doubledResult.summarySeq)
      checkpoint.data = 516 := by
    have htext : TextOnly wordyCheckpoint := ⟨rfl, rfl⟩
    rw [hdata, messagePrice_of_textOnly _ _ htext, estimateMessage_wordyCheckpoint]
    decide +kernel
  have hunchanged := (hquiet quiet_doubledCommitted).2
  have htotalBefore : committed.surfaceTokens = 488 := by rw [← hcommitted]
  omega

end Compaction.TransactionState

end TianmaCoder
