import TianmaCoder.Compaction.Accounting
import TianmaCoder.Lib.Transition

/-!
# The compaction transaction holds

What every phase of a call guarantees, that each synchronous part of the call keeps it and
that appends of other code cannot break it. The run lemma assembles them.

## Main definitions

* `PhaseHolds` — the guarantee of the phase a call is in.

## Main results

* `holds_step` — one action keeps the account and the guarantee.
* `compactSurfaceRegion_transacts` — the transaction, over every run.
-/

namespace TianmaCoder

open Checked

namespace Compaction

variable [NumberText] {projections : List SessionMessageProjection}

namespace TransactionState

/-! ## The guarantees -/

/-- The bracket of the call is open: one start, no end. -/
structure Opened (own : List SessionEvent) (bracket : Bracket) : Prop where
  started : Started own bracket
  not_closed : ofType .compactionEnd own = []

/-- The last snapshot that a summary was asked of was taken from a beginning of the log. -/
def Requested (projections : List SessionMessageProjection) (s : TransactionState)
    (prepared : PreparedCompaction) : Prop :=
  s.requested.getLast? = some prepared ∧ ∃ read, read <+: s.log ∧ TakenAt projections read prepared

/-- What a call guarantees after its attempt to close the bracket. -/
structure Ended (projections : List SessionMessageProjection) (s : TransactionState)
    (bracket : Bracket) (ending : Ending) : Prop where
  started : Started s.own bracket
  closed : ending.closed = true → Closed s.own bracket
  refused : ending.closed = false → CloseRefused projections s.own s.log bracket
  unreplaced : ending.stage = .summary → Unreplaced s.own
  replaced : ∀ result, ending.result = some result →
    ∃ before checkpoint startIdx endIdx prepared read,
      Replaced projections s result before checkpoint startIdx endIdx prepared read

/-- The guarantee of the phase. -/
def PhaseHolds (projections : List SessionMessageProjection) (s : TransactionState) : Prop :=
  match s.phase with
  | .idle => s.own = []
  | .rejected _ => s.own = []
  | .summarizing bracket prepared =>
    Opened s.own bracket ∧ Unreplaced s.own ∧ Requested projections s prepared
  | .settled bracket outcome =>
    Opened s.own bracket ∧ Unreplaced s.own ∧ ∀ summarized, outcome = .ok summarized →
      Requested projections s summarized.toPreparedCompaction
  | .ended bracket ending => Ended projections s bracket ending

/-- The account of a call and the guarantee of its phase. -/
structure Holds (projections : List SessionMessageProjection) (seed : List SessionEvent)
    (s : TransactionState) : Prop where
  accounted : s.Accounted projections seed
  phase : s.PhaseHolds projections

/-! ## Appends of other code -/

variable {s s' : TransactionState} {prepared : PreparedCompaction}

theorem Requested.others (h : Requested projections s prepared) (hlog : s.log <+: s'.log)
    (hrequested : s'.requested = s.requested) : Requested projections s' prepared := by
  obtain ⟨hlast, read, hread, htaken⟩ := h
  refine ⟨?_, read, hread.trans hlog, htaken⟩
  rw [hrequested]
  exact hlast

variable {bracket : Bracket}

theorem Ended.others {ending : Ending} (h : Ended projections s bracket ending)
    (hlog : s.log <+: s'.log) (hown : s'.own = s.own) (hrequested : s'.requested = s.requested) :
    Ended projections s' bracket ending where
  started := hown ▸ h.started
  closed := hown ▸ h.closed
  refused := by
    intro hclosed
    obtain ⟨hnone, attempted, call, message, hattempted, hrefused⟩ := h.refused hclosed
    rw [hown]
    exact ⟨hnone, attempted, call, message, hattempted.trans hlog, hrefused⟩
  unreplaced := hown ▸ h.unreplaced
  replaced := by
    intro result hresult
    obtain ⟨before, checkpoint, startIdx, endIdx, prepared, read, hreplaced⟩ :=
      h.replaced result hresult
    refine ⟨before, checkpoint, startIdx, endIdx, prepared, read, ?_⟩
    exact { hreplaced with
      placed := hreplaced.placed.trans hlog
      own_checkpoint := hown ▸ hreplaced.own_checkpoint
      asked := hrequested ▸ hreplaced.asked }

/-- No append of other code breaks the guarantee of a phase. -/
theorem PhaseHolds.others (h : s.PhaseHolds projections) (hlog : s.log <+: s'.log)
    (hown : s'.own = s.own) (hrequested : s'.requested = s.requested) (hphase : s'.phase = s.phase) :
    s'.PhaseHolds projections := by
  unfold PhaseHolds at h ⊢
  rw [hphase]
  cases hcase : s.phase with
  | idle =>
    rw [hcase] at h
    exact hown.trans h
  | rejected error =>
    rw [hcase] at h
    exact hown.trans h
  | summarizing bracket prepared =>
    rw [hcase] at h
    obtain ⟨hopened, hunreplaced, hasked⟩ := h
    exact ⟨hown ▸ hopened, hown ▸ hunreplaced, hasked.others hlog hrequested⟩
  | settled bracket outcome =>
    rw [hcase] at h
    obtain ⟨hopened, hunreplaced, hasked⟩ := h
    exact ⟨hown ▸ hopened, hown ▸ hunreplaced,
      fun summarized hok => (hasked summarized hok).others hlog hrequested⟩
  | ended bracket ending =>
    rw [hcase] at h
    exact h.others hlog hown hrequested

variable {seed : List SessionEvent}

theorem Holds.appendOthers (h : s.Holds projections seed) (calls : List AppendCall) :
    (s.appendOthers projections calls).Holds projections seed := by
  obtain ⟨hlog, hown, hrequested, hphase, -⟩ :=
    s.appendOthers_cases projections calls
  exact ⟨h.accounted.appendOthers calls, h.phase.others hlog hown hrequested hphase⟩

/-! ## The close of the bracket -/

theorem closed_or_refused (env : Surroundings) (more : List (String × Json))
    (hs : s.Accounted projections seed) (hopened : Opened s.own bracket) :
    match s.appendOwn projections env .compactionEnd (.obj (bracket.lifecycle ++ more)) none none with
    | .ok s' => s'.Accounted projections seed ∧ Started s'.own bracket ∧ Closed s'.own bracket ∧
        (Unreplaced s.own → Unreplaced s'.own) ∧ s.log <+: s'.log ∧
        s'.requested = s.requested ∧ ∀ event ∈ s.own, event ∈ s'.own
    | .error _ => CloseRefused projections s.own s.log bracket := by
  cases happend : s.appendOwn projections env .compactionEnd
      (.obj (bracket.lifecycle ++ more)) none none with
  | ok s' =>
    obtain ⟨event, htype, hdata, hop, -, -, ⟨call, hcandidate, hattached⟩, hs'⟩ :=
      appendOwn_cases happend
    have hown : s'.own = s.own ++ [event] := congrArg TransactionState.own hs'
    have hlog : s'.log = s.log ++ [event] := by
      rw [← hcandidate]
      exact Attached.log_append hattached
    refine ⟨hs.appendOwn happend, ?_, ?_, ?_, ?_, ?_, ?_⟩
    · rw [hown]
      exact Started.append hopened.started (by simp [htype])
    · refine ⟨event, ?_, Bracket.names_lifecycle hdata⟩
      rw [hown, ofType_append, hopened.not_closed]
      simp [ofType, htype]
    · intro hunreplaced
      rw [hown]
      exact Unreplaced.append hunreplaced hop
    · rw [hlog]
      exact List.prefix_append _ _
    · rw [hs']
    · intro e he
      rw [hown]
      exact List.mem_append_left _ he
  | error message =>
    refine ⟨hopened.not_closed, s.toAttached, ?_⟩
    unfold appendOwn at happend
    simp only at happend
    cases hattached : s.toAttached.append projections
        { type := .compactionEnd, data := .obj (bracket.lifecycle ++ more), surfaceOp := none
          sourceEventSeqs := none, time := env.now s.log.length
          dispatchFailure := env.refuse (s.toAttached.candidate
            { type := .compactionEnd, data := .obj (bracket.lifecycle ++ more)
              surfaceOp := none, sourceEventSeqs := none, time := env.now s.log.length }) } with
    | ok attached =>
      rw [hattached] at happend
      cases happend
    | error message' =>
      exact ⟨_, message', List.prefix_refl _, rfl, Bracket.names_lifecycle rfl, hattached⟩

variable {env : Surroundings}

/-- A failure in a stage ends the call as that stage promises. -/
theorem holds_close {error : RegionError} {stage : Stage} (hs : s.Accounted projections seed)
    (hopened : Opened s.own bracket) (hstage : stage = .summary → Unreplaced s.own) :
    (s.close projections env bracket error stage).Holds projections seed := by
  have hclose := closed_or_refused env [("error", .str error.chain)] hs hopened
  unfold close
  simp only
  cases happend : s.appendOwn projections env .compactionEnd
      (.obj (bracket.lifecycle ++ [("error", .str error.chain)])) none none with
  | ok s' =>
    rw [happend] at hclose
    obtain ⟨haccounted, hstarted, hclosed, hunreplaced, -, -, -⟩ := hclose
    refine ⟨⟨haccounted.sound, haccounted.accepted⟩, ?_⟩
    exact {
      started := hstarted
      closed := fun _ => hclosed
      refused := fun h => absurd h (by simp)
      unreplaced := fun h => hunreplaced (hstage h)
      replaced := fun result h => absurd h (by simp) }
  | error message =>
    rw [happend] at hclose
    refine ⟨⟨hs.sound, hs.accepted⟩, ?_⟩
    exact {
      started := hopened.started
      closed := fun h => absurd h (by simp)
      refused := fun _ => hclose
      unreplaced := hstage
      replaced := fun result h => absurd h (by simp) }

/-! ## The commit -/

variable {meter : Meter}

theorem holds_commit (hdeclared : DeclaredProjections projections)
    {summarized : SummarizedCompaction} {startIdx endIdx : ℕ} {measurement : TokenMeasurement}
    (hs : s.Accounted projections seed) (hopened : Opened s.own bracket)
    (hasked : Requested projections s summarized.toPreparedCompaction)
    (hspan : SpanAt projections meter s.log summarized.toPreparedCompaction startIdx endIdx
      measurement) : (s.commit projections env bracket summarized).Holds projections seed := by
  unfold commit commitCompactionBody
  simp only
  cases hsummary : s.appendOwn projections env .compactionSummary (summaryData bracket summarized)
      none none with
  | error message => exact holds_close hs hopened (fun h => by cases h)
  | ok s₁ =>
    have hs₁ := hs.appendOwn hsummary
    obtain ⟨summary, htype₁, -, hop₁, -, -, ⟨call₁, hcandidate₁, happend₁⟩, hstate₁⟩ :=
      appendOwn_cases hsummary
    have hown₁ : s₁.own = s.own ++ [summary] := congrArg TransactionState.own hstate₁
    have hlog₁ : s₁.log = s.log ++ [summary] := by
      rw [← hcandidate₁]
      exact Attached.log_append happend₁
    have hopened₁ : Opened s₁.own bracket := by
      rw [hown₁]
      refine ⟨hopened.started.append (by simp [htype₁]), ?_⟩
      rw [ofType_append, hopened.not_closed]
      simp [ofType, htype₁]
    -- The summary record is not a surface event.
    have hnodes₁ : (surfaceState projections s₁.log).nodes
        = (surfaceState projections s.log).nodes := by
      have hnodes := Attached.nodes_append hdeclared hs.sound happend₁
      rw [hcandidate₁] at hnodes
      simpa [isSurfaceEvent, hop₁] using hnodes
    simp only
    cases hreplace : s₁.appendOwn projections env .userMessage summarized.checkpointMessage
        (some (.obj [("op", .str "replace"), ("startSeq", .nat summarized.start),
          ("endSeq", .nat summarized.end_)]))
        (some (.arr (([bracket.startSeq, s.log.length] ++ summarized.shadowedSeqs).map .nat))) with
    | error message => exact holds_close hs₁ hopened₁ (fun h => by cases h)
    | ok s₂ =>
      have hs₂ := hs₁.appendOwn hreplace
      obtain ⟨checkpoint, htype₂, -, hop₂, -, hseq₂, ⟨call₂, hcandidate₂, happend₂⟩, hstate₂⟩ :=
        appendOwn_cases hreplace
      have hown₂ : s₂.own = s₁.own ++ [checkpoint] := congrArg TransactionState.own hstate₂
      have hlog₂ : s₂.log = s₁.log ++ [checkpoint] := by
        rw [← hcandidate₂]
        exact Attached.log_append happend₂
      have hopened₂ : Opened s₂.own bracket := by
        rw [hown₂]
        refine ⟨hopened₁.started.append (by simp [htype₂]), ?_⟩
        rw [ofType_append, hopened₁.not_closed]
        simp [ofType, htype₂]
      -- The replacement is located at the prepared span.
      have hspliced : (surfaceState projections s₂.log).nodes
          = Splice.splice (surfaceState projections s₁.log).nodes startIdx endIdx
              checkpoint.seq := by
        obtain ⟨plan, -, hplan, -⟩ := Attached.append_cases happend₂
        rw [hcandidate₂] at hplan
        have hnodes := Attached.nodes_append hdeclared hs₁.sound happend₂
        rw [hcandidate₂, isSurfaceEvent_of_replace hplan (htype₂ ▸ rfl) hop₂, hnodes₁] at hnodes
        obtain ⟨range, hrange, hnodes⟩ := hnodes
        obtain ⟨hstart, hend, -⟩ := replacementRange_ok hrange
        rw [hspan.start_at, Option.some.injEq] at hstart
        rw [hspan.end_at, Option.some.injEq] at hend
        rw [hnodes, hnodes₁, hstart, hend, hseq₂]
      have hclose := closed_or_refused env [] hs₂ hopened₂
      rw [List.append_nil] at hclose
      simp only
      cases hend : s₂.appendOwn projections env .compactionEnd (.obj bracket.lifecycle)
          none none with
      | error message =>
        rw [hend] at hclose
        refine ⟨⟨hs₂.sound, hs₂.accepted⟩, ?_⟩
        exact {
          started := hopened₂.started
          closed := fun h => absurd h (by simp)
          refused := fun _ => hclose
          unreplaced := fun h => absurd h (by simp)
          replaced := fun result h => absurd h (by simp) }
      | ok s₃ =>
        rw [hend] at hclose
        obtain ⟨haccounted, hstarted, hclosed, -, hlog₃, hrequested₃, hkept⟩ := hclose
        refine ⟨⟨haccounted.sound, haccounted.accepted⟩, ?_⟩
        obtain ⟨hlast, read, hread, htaken⟩ := hasked
        refine {
          started := hstarted
          closed := fun _ => hclosed
          refused := fun h => absurd h (by simp)
          unreplaced := fun h => absurd h (by simp)
          replaced := ?_ }
        intro result hresult
        cases hresult
        refine ⟨s₁.log, checkpoint, startIdx, endIdx, summarized.toPreparedCompaction, read, ?_⟩
        exact {
          placed := hlog₂ ▸ hlog₃
          own_checkpoint := hkept checkpoint (by rw [hown₂]; simp)
          start_at := hnodes₁ ▸ hspan.start_at
          end_at := hnodes₁ ▸ hspan.end_at
          ordered := hspan.ordered
          span := hnodes₁ ▸ hspan.shadowed
          spliced := hlog₂ ▸ hspliced
          asked := by
            rw [hrequested₃, hstate₂, hstate₁]
            exact hlast
          earlier := hread.trans (hlog₁ ▸ List.prefix_append _ _)
          taken := htaken
          same_span := rfl }

/-! ## The synchronous parts -/

variable {aborted : Option String}

theorem requested_of_takenAt (hopened : Opened s.own bracket) (hunreplaced : Unreplaced s.own)
    (htaken : TakenAt projections s.log prepared) :
    (s.request bracket prepared aborted).PhaseHolds projections := by
  cases aborted with
  | some reason => exact ⟨hopened, hunreplaced, fun summarized h => by cases h⟩
  | none =>
    refine ⟨hopened, hunreplaced, ?_, s.log, List.prefix_refl _, htaken⟩
    simp [request]

theorem selects_of_enter {call : Request} {selection : SurfaceSelection} {turn : Json}
    (h : s.enter projections call aborted = .ok (selection, turn)) :
    Selects (surfaceState projections s.log).nodes selection := by
  unfold enter at h
  obtain ⟨_, -, h⟩ := bind_ok h
  obtain ⟨selected, hregion, h⟩ := bind_ok h
  obtain ⟨_, -, h⟩ := bind_ok h
  obtain ⟨_, -, h⟩ := bind_ok h
  cases h
  exact (validateSurfaceRegion_ok (plain_ok hregion)).2.2

/-- The entry: the call is rejected with nothing appended, or its bracket opens. -/
theorem holds_begin (hdeclared : DeclaredProjections projections) {call : Request}
    {aborted' : Option String} (hs : s.Accounted projections seed) (hown : s.own = []) :
    (s.begin_ projections env meter call aborted aborted').Holds projections seed := by
  unfold begin_
  cases henter : s.enter projections call aborted with
  | error error => exact ⟨⟨hs.sound, hs.accepted⟩, hown⟩
  | ok entered =>
    obtain ⟨selection, turn⟩ := entered
    simp only
    generalize hbracket : (⟨call.compactionId, call.sourceCommandId, turn, s.log.length,
      call.owner, call.stability⟩ : Bracket) = bracket
    cases hstart : s.appendOwn projections env .compactionStart (.obj bracket.lifecycle) none
        none with
    | error message => exact ⟨⟨hs.sound, hs.accepted⟩, hown⟩
    | ok s₁ =>
      have hs₁ := hs.appendOwn hstart
      obtain ⟨start, htype, hdata, hop, -, hseq, ⟨_, hcandidate, happend⟩, hstate⟩ :=
        appendOwn_cases hstart
      have hown₁ : s₁.own = [start] := by
        have happended : s₁.own = s.own ++ [start] := congrArg TransactionState.own hstate
        rw [happended, hown, List.nil_append]
      have hopened : Opened s₁.own bracket := by
        rw [hown₁]
        refine ⟨⟨start, by simp [ofType, htype], ?_, ?_⟩, by simp [ofType, htype]⟩
        · have hlifecycle : start.data = .obj (bracket.lifecycle ++ []) := by
            rw [hdata, List.append_nil]
          exact Bracket.names_lifecycle hlifecycle
        · rw [hseq, ← hbracket]
      have hunreplaced : Unreplaced s₁.own := by
        intro event hevent startSeq endSeq
        rw [hown₁, List.mem_singleton] at hevent
        simp [hevent, isSurfaceEvent, hop]
      -- The start is not a surface event, so the selection still names its span.
      have hselects : Selects (surfaceState projections s₁.log).nodes selection := by
        have hnodes := Attached.nodes_append hdeclared hs.sound happend
        rw [hcandidate] at hnodes
        simp only [isSurfaceEvent, hop, Option.map_none, ite_self] at hnodes
        rw [hnodes]
        exact selects_of_enter henter
      simp only
      cases hprepare : prepareCompaction projections meter s₁.log selection with
      | error error => exact holds_close hs₁ hopened (fun _ => hunreplaced)
      | ok prepared =>
        have htaken := takenAt_of_prepareCompaction hs₁.sound.replays hselects hprepare
        refine ⟨?_, requested_of_takenAt hopened hunreplaced htaken⟩
        cases aborted' <;> exact ⟨hs₁.sound, hs₁.accepted⟩

theorem takenAt_of_prepareAgain {log : List SessionEvent} {prepared' : PreparedCompaction}
    (hreplays : ∃ acc, foldSurfaceState log projections = .ok acc)
    (h : prepareAgain projections meter log prepared = .ok prepared') :
    TakenAt projections log prepared' := by
  unfold prepareAgain at h
  obtain ⟨selection, hregion, h⟩ := bind_ok h
  exact takenAt_of_prepareCompaction hreplays (validateSurfaceRegion_ok (plain_ok hregion)).2.2 h

/-- A failed summary either settles the call or asks again over a fresh snapshot. -/
theorem holds_summaryFailed {error : RegionError} {meter' : Meter} {recovery : Recovery}
    {aborted : Bool} {aborted' : Option String} (hs : s.Accounted projections seed)
    (hopened : Opened s.own bracket) (hunreplaced : Unreplaced s.own) :
    (s.summaryFailed projections bracket prepared error meter meter' recovery aborted
      aborted').Holds projections seed := by
  have hsettled : ∀ (s : TransactionState), s.Accounted projections seed → Opened s.own bracket →
      Unreplaced s.own → ∀ error,
      ({ s with phase := .settled bracket (.error error) } : TransactionState).Holds projections
        seed := by
    intro s hs hopened hunreplaced error
    exact ⟨⟨hs.sound, hs.accepted⟩, hopened, hunreplaced, fun summarized h => by cases h⟩
  unfold summaryFailed
  cases aborted with
  | true => exact hsettled s hs hopened hunreplaced error
  | false =>
    simp only [Bool.false_eq_true, if_false]
    cases assertStable projections bracket.stability meter s.log prepared with
    | error changed => exact hsettled s hs hopened hunreplaced changed
    | ok _ =>
      simp only
      have hs₁ : (s.appendOthers projections recovery.appends).Accounted projections seed :=
        hs.appendOthers recovery.appends
      obtain ⟨-, hown, -⟩ := s.appendOthers_cases projections recovery.appends
      have hopened₁ : Opened (s.appendOthers projections recovery.appends).own bracket :=
        hown ▸ hopened
      have hunreplaced₁ : Unreplaced (s.appendOthers projections recovery.appends).own :=
        hown ▸ hunreplaced
      cases recovery.answer with
      | error thrown => exact hsettled _ hs₁ hopened₁ hunreplaced₁ thrown
      | ok handled =>
        cases handled with
        | false => exact hsettled _ hs₁ hopened₁ hunreplaced₁ error
        | true =>
          simp only
          cases hprepare : prepareAgain projections meter'
              (s.appendOthers projections recovery.appends).log prepared with
          | error failed => exact hsettled _ hs₁ hopened₁ hunreplaced₁ failed
          | ok prepared' =>
            have htaken := takenAt_of_prepareAgain hs₁.sound.replays hprepare
            refine ⟨?_, requested_of_takenAt hopened₁ hunreplaced₁ htaken⟩
            cases aborted' <;> exact ⟨hs₁.sound, hs₁.accepted⟩

theorem prepared_of_acceptSummary {result : SummaryResult} {message : Json}
    {summarized : SummarizedCompaction} (h : acceptSummary prepared result message = .ok summarized) :
    summarized.toPreparedCompaction = prepared := by
  unfold acceptSummary at h
  split at h
  · cases h
    rfl
  · cases h

/-- The continuation of the transaction commits a stable summary or closes with the failure. -/
theorem holds_resume (hdeclared : DeclaredProjections projections)
    {outcome : Except RegionError SummarizedCompaction} (hs : s.Accounted projections seed)
    (hopened : Opened s.own bracket) (hunreplaced : Unreplaced s.own)
    (hasked : ∀ summarized, outcome = .ok summarized →
      Requested projections s summarized.toPreparedCompaction) :
    (s.resume projections env meter bracket outcome aborted).Holds projections seed := by
  have hclose : ∀ error, (s.close projections env bracket error .summary).Holds projections seed :=
    fun error => holds_close hs hopened fun _ => hunreplaced
  cases outcome with
  | error error => exact hclose error
  | ok summarized =>
    unfold resume
    cases hstable : assertStable projections bracket.stability meter s.log
        summarized.toPreparedCompaction with
    | error changed =>
      cases bracket.owner with
      | currentTurn => simpa only [hstable] using hclose changed
      | standalone =>
        cases aborted with
        | none => simpa only [hstable] using hclose changed
        | some reason => exact hclose (.error reason)
    | ok _ =>
      obtain ⟨-, read, -, htaken⟩ := hasked summarized rfl
      obtain ⟨startIdx, endIdx, measurement, hspan⟩ :=
        spanAt_of_assertStable hdeclared htaken hs.sound.replays hstable
      have hcommit : (s.commit projections env bracket summarized).Holds projections seed :=
        holds_commit hdeclared hs hopened (hasked summarized rfl) hspan
      cases bracket.owner with
      | currentTurn => simpa only [hstable] using hcommit
      | standalone =>
        cases aborted with
        | none => simpa only [hstable] using hcommit
        | some reason => exact hclose (.error reason)

/-! ## Runs -/

theorem holds_step (hdeclared : DeclaredProjections projections) (s : TransactionState)
    (action : Action) (s' : TransactionState) (hs : s.Holds projections seed)
    (hstep : s.step projections action = some s') : s'.Holds projections seed := by
  have hphase := hs.phase
  unfold PhaseHolds at hphase
  unfold step at hstep
  cases action with
  | other call =>
    cases hstep
    exact hs.appendOthers [call]
  | begin_ env meter call aborted aborted' =>
    cases hcase : s.phase <;> rw [hcase] at hstep hphase <;> cases hstep
    exact holds_begin hdeclared hs.accounted hphase
  | summaryFailed error meter meter' recovery aborted aborted' =>
    cases hcase : s.phase <;> rw [hcase] at hstep hphase <;> cases hstep
    exact holds_summaryFailed hs.accounted hphase.1 hphase.2.1
  | summaryReturned result messageId =>
    cases hcase : s.phase <;> rw [hcase] at hstep hphase <;> cases hstep
    obtain ⟨hopened, hunreplaced, hasked⟩ := hphase
    refine ⟨⟨hs.accounted.sound, hs.accounted.accepted⟩, hopened, hunreplaced, ?_⟩
    intro summarized hok
    rw [prepared_of_acceptSummary hok]
    exact hasked
  | resume env meter aborted =>
    cases hcase : s.phase <;> rw [hcase] at hstep hphase <;> cases hstep
    exact holds_resume hdeclared hs.accounted hphase.1 hphase.2.1 hphase.2.2

omit [NumberText] in
/-- A promise resolves with the result of a call whose bracket was closed. -/
theorem result_of_outcome {ending : Ending} {owner : Owner} {flush : Option RegionError}
    {result : CompactionResult} (h : ending.outcome owner flush aborted = .ok result) :
    ending.result = some result := by
  unfold Ending.outcome at h
  split at h
  · cases h
  · split at h
    · split at h <;> cases h
    · cases h
    · next hresult =>
        split at h
        · cases h
        · cases h
          exact hresult

/-- Over every run, whatever the summarizer does and whatever other code appends: a call either
rejects before it appended anything, or appended one start and at most one end of the same
identity and owner, exactly one unless that append was refused; when it resolves, its
replacement puts the checkpoint in the place of the selected span, which consists of the same
surface events as the input of the accepted summary; a failure before the commit stage leaves
no replacement; and the companion accepted every event of the call. -/
theorem compactSurfaceRegion_transacts
    (hdeclared : ∀ p ∈ projections, p.type.needsMessageProjection = true) {seed : List SessionEvent}
    {trace : Trace} (hreplays : ∃ acc, foldSurfaceState seed projections = .ok acc)
    (htrace : seedTrace projections seed = .ok trace) {actions : List Action} {s : TransactionState}
    (hrun : Transition.run (step projections) (initial seed trace) actions = some s) :
    (∀ event ∈ s.own, Accepted projections seed s.log event) ∧
    (∀ error, s.phase = .rejected error → s.own = []) ∧
    (∀ bracket prepared, s.phase = .summarizing bracket prepared →
      Started s.own bracket ∧ ofType .compactionEnd s.own = [] ∧ Unreplaced s.own) ∧
    (∀ bracket outcome, s.phase = .settled bracket outcome →
      Started s.own bracket ∧ ofType .compactionEnd s.own = [] ∧ Unreplaced s.own) ∧
    ∀ bracket ending, s.phase = .ended bracket ending →
      Started s.own bracket ∧
      (ending.closed = true → Closed s.own bracket) ∧
      (ending.closed = false → CloseRefused projections s.own s.log bracket) ∧
      (ending.stage = .summary → Unreplaced s.own) ∧
      ∀ flush aborted result, ending.outcome bracket.owner flush aborted = .ok result →
        ∃ before checkpoint startIdx endIdx prepared read,
          Replaced projections s result before checkpoint startIdx endIdx prepared read := by
  have hinit : (initial seed trace).Holds projections seed := by
    refine ⟨⟨Attached.sound_seed hreplays htrace, ?_⟩, rfl⟩
    intro event hevent
    cases hevent
  have hholds : s.Holds projections seed :=
    Transition.run_induction (holds_step hdeclared) hinit hrun
  have hphase := hholds.phase
  unfold PhaseHolds at hphase
  refine ⟨hholds.accounted.accepted, ?_, ?_, ?_, ?_⟩
  · intro error hcase
    rw [hcase] at hphase
    exact hphase
  · intro bracket prepared hcase
    rw [hcase] at hphase
    exact ⟨hphase.1.started, hphase.1.not_closed, hphase.2.1⟩
  · intro bracket outcome hcase
    rw [hcase] at hphase
    exact ⟨hphase.1.started, hphase.1.not_closed, hphase.2.1⟩
  · intro bracket ending hcase
    rw [hcase] at hphase
    refine ⟨hphase.started, hphase.closed, hphase.refused, hphase.unreplaced, ?_⟩
    intro flush aborted result hresult
    exact hphase.replaced result (result_of_outcome hresult)

end TransactionState

end Compaction

/-! ## A manual compaction -/

namespace Compaction.TransactionState

private instance manualNumberText : NumberText := ⟨fun _ => 22, fun _ => 18⟩

/-- A prompt of sixty blocks, dearer than the framing of a checkpoint. -/
def longPrompt : SessionEvent :=
  { type := .userMessage, seq := 0, time := 0
    data := .obj [("role", .str "user"),
      ("content", .arr (List.replicate 60 (.obj [("type", .str "text"), ("text", .str "")])))]
    surfaceOp := some (.str "append") }

def plainMeter : Meter := ⟨fun _ _ => none, none, none⟩

def quiet : Surroundings := ⟨fun _ => 0, fun _ => none⟩

def manualCall : Request :=
  { start := 0, end_ := 0, owner := .standalone, stability := .wholeSurface
    sourceCommandId := none, compactionId := "c" }

def emptySummary : SummaryResult := ⟨[], "p", "m", none, none, none, false⟩

def manualBegun : TransactionState :=
  (initial [longPrompt] ⟨.null, none, [longPrompt]⟩).begin_ [] quiet plainMeter manualCall none none

def manualBracket : Bracket := ⟨"c", none, .null, 1, .standalone, .wholeSurface⟩

def manualPrepared : PreparedCompaction where
  start := 0
  end_ := 0
  startIdx := 0
  endIdx := 0
  shadowedSeqs := [0]
  measurement := ⟨2, 244, [⟨0, 244, 244⟩]⟩
  selectedNodes := [⟨0, 244, 244⟩]
  input := ⟨none, [longPrompt.data]⟩
  matched := rfl

def manualSummarized : SummarizedCompaction :=
  { manualPrepared, emptySummary with
    checkpointMessage := checkpointMessage "m" "c" none []
    smaller := by
      rw [estimateMessage_checkpoint]
      decide +kernel }

def manualSettled : TransactionState :=
  { manualBegun with phase := .settled manualBracket (.ok manualSummarized) }

def manualCommitted : TransactionState :=
  manualSettled.resume [] quiet plainMeter manualBracket (.ok manualSummarized) none

def manualActions : List Action :=
  [.begin_ quiet plainMeter manualCall none none, .summaryReturned emptySummary "m",
    .resume quiet plainMeter none]

theorem step_manualBegun :
    step [] manualBegun (.summaryReturned emptySummary "m") = some manualSettled := by
  have hphase : manualBegun.phase = .summarizing manualBracket manualPrepared := by rfl
  have haccept : acceptSummary manualPrepared emptySummary (checkpointMessage "m" "c" none [])
      = .ok manualSummarized := dif_pos manualSummarized.smaller
  simp only [step, hphase, summaryReturned]
  exact congrArg (fun outcome => some { manualBegun with phase := .settled manualBracket outcome })
    haccept

theorem run_manualActions :
    Transition.run (step []) (initial [longPrompt] ⟨.null, none, [longPrompt]⟩) manualActions
      = some manualCommitted := by
  refine Transition.run_cons_eq_some_iff.mpr ⟨manualBegun, rfl, ?_⟩
  exact Transition.run_cons_eq_some_iff.mpr ⟨manualSettled, step_manualBegun, rfl⟩

/-- A manual call over the prompt resolves, and the checkpoint takes its place. -/
theorem compactSurfaceRegion_transacts_manual :
    ∃ ending result before checkpoint startIdx endIdx prepared read,
      manualCommitted.phase = .ended manualBracket ending ∧
      ending.outcome .standalone none none = .ok result ∧
      Replaced [] manualCommitted result before checkpoint startIdx endIdx prepared read := by
  have hreplays : ∃ acc, foldSurfaceState [longPrompt] [] = .ok acc := ⟨_, rfl⟩
  have hholds := compactSurfaceRegion_transacts (by simp) hreplays rfl run_manualActions
  have hended : ∃ ending result, manualCommitted.phase = .ended manualBracket ending ∧
      ending.outcome .standalone none none = .ok result := ⟨_, _, rfl, rfl⟩
  obtain ⟨ending, result, hphase, houtcome⟩ := hended
  obtain ⟨before, checkpoint, startIdx, endIdx, prepared, read, hreplaced⟩ :=
    (hholds.2.2.2.2 manualBracket ending hphase).2.2.2.2 none none result houtcome
  exact ⟨ending, result, before, checkpoint, startIdx, endIdx, prepared, read, hphase, houtcome,
    hreplaced⟩

end Compaction.TransactionState

end TianmaCoder
