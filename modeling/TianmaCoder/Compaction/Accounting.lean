import TianmaCoder.Compaction.Transaction
import TianmaCoder.Tokens.Metered

/-!
# What a compaction call appends

The invariant of the transaction. In every phase the events of the call stand in the log at
their own positions and were accepted by the compaction companion there; the open bracket is
one start and no end; the snapshot a summary is asked of was taken from a beginning of the
log. From it follows what a finished call has appended, and what a resolved one replaced.

## Main definitions

* `Accounted` — every event of the call stands in the log and was accepted.
* `TakenAt` — a snapshot describes one log.
* `Replaced` — the replacement of a resolved call.

## Main results

* `spanAt_of_assertStable` — a stable summary finds its span where it can be replaced.
* `Attached.nodes_append` — what a committed append does to the surface.
-/

namespace TianmaCoder

open Checked

namespace Compaction

variable [NumberText] {projections : List SessionMessageProjection}

/-! ## Appends of the call and of other code -/

/-- An event stands in the log, and the companion accepted it on the events before it. -/
structure Accepted (projections : List SessionMessageProjection) (seed log : List SessionEvent)
    (event : SessionEvent) : Prop where
  placed : log[event.seq]? = some event
  validated : ∃ trace transition, liveTrace projections seed (log.take event.seq) = .ok trace ∧
    validateCompactionEvent projections trace event = .ok transition

variable {log seed : List SessionEvent} {event : SessionEvent}

omit [NumberText] in
theorem Accepted.mono {log' : List SessionEvent} (h : Accepted projections seed log event)
    (hlog : log <+: log') : Accepted projections seed log' event := by
  obtain ⟨rest, rfl⟩ := hlog
  have hlt : event.seq < log.length := (List.getElem?_eq_some_iff.mp h.placed).1
  refine ⟨?_, ?_⟩
  · rw [List.getElem?_append_left hlt]
    exact h.placed
  · rw [List.take_append_of_le_length hlt.le]
    exact h.validated

namespace TransactionState

/-- The events of the call are accounted for, and the session is sound. -/
structure Accounted (projections : List SessionMessageProjection) (seed : List SessionEvent)
    (s : TransactionState) : Prop where
  sound : s.toAttached.Sound projections seed
  accepted : ∀ event ∈ s.own, Accepted projections seed s.log event

variable {s : TransactionState}

/-- A committed append of the call adds one event to the log and to its own events. -/
theorem appendOwn_cases {s' : TransactionState} {env : Surroundings} {type : EventType}
    {data : Json} {surfaceOp sourceEventSeqs : Option Json}
    (h : s.appendOwn projections env type data surfaceOp sourceEventSeqs = .ok s') :
    ∃ event : SessionEvent, event.type = type ∧ event.data = data ∧
      event.surfaceOp = surfaceOp ∧ event.sourceEventSeqs = sourceEventSeqs ∧
      event.seq = s.log.length ∧
      (∃ call, s.toAttached.candidate call = event ∧
        s.toAttached.append projections call = .ok s'.toAttached) ∧
      s' = { s with toAttached := s'.toAttached, own := s.own ++ [event] } := by
  unfold appendOwn at h
  obtain ⟨attached, happend, h⟩ := bind_ok h
  cases h
  exact ⟨_, rfl, rfl, rfl, rfl, rfl, ⟨_, rfl, happend⟩, rfl⟩

/-- A committed append of the call keeps the account. -/
theorem Accounted.appendOwn {s' : TransactionState} {env : Surroundings} {type : EventType}
    {data : Json} {surfaceOp sourceEventSeqs : Option Json} (hs : s.Accounted projections seed)
    (h : s.appendOwn projections env type data surfaceOp sourceEventSeqs = .ok s') :
    s'.Accounted projections seed := by
  obtain ⟨event, -, -, -, -, hseq, ⟨call, hcandidate, happend⟩, hs'⟩ := appendOwn_cases h
  obtain ⟨_, transition, -, -, hvalid, -, hattached⟩ := Attached.append_cases happend
  rw [hcandidate] at hvalid hattached
  have hlog : s'.log = s.log ++ [event] := congrArg Attached.log hattached
  have hown : s'.own = s.own ++ [event] := congrArg TransactionState.own hs'
  refine ⟨hs.sound.append happend, ?_⟩
  intro e he
  rw [hown] at he
  rw [hlog]
  rcases List.mem_append.mp he with he | he
  · exact (hs.accepted e he).mono (List.prefix_append _ _)
  · rw [List.mem_singleton.mp he]
    refine ⟨?_, s.trace, transition, ?_, hvalid⟩
    · rw [hseq]
      simp
    · rw [hseq, List.take_left]
      exact hs.sound.traced

variable (projections) in
theorem appendOthers_cases (s : TransactionState) (calls : List AppendCall) :
    s.log <+: (s.appendOthers projections calls).log ∧
    (s.appendOthers projections calls).own = s.own ∧
    (s.appendOthers projections calls).requested = s.requested ∧
    (s.appendOthers projections calls).phase = s.phase ∧
    ∀ seed, s.toAttached.Sound projections seed →
      (s.appendOthers projections calls).toAttached.Sound projections seed := by
  induction calls generalizing s with
  | nil => exact ⟨List.prefix_refl _, rfl, rfl, rfl, fun _ h => h⟩
  | cons call calls ih =>
    unfold appendOthers
    cases happend : s.toAttached.append projections call with
    | error message => exact ih s
    | ok attached =>
      have hlog : s.log <+: attached.log := by
        rw [Attached.log_append happend]
        exact List.prefix_append _ _
      obtain ⟨hlog', hown, hrequested, hphase, hsound⟩ := ih { s with toAttached := attached }
      exact ⟨hlog.trans hlog', hown, hrequested, hphase,
        fun seed h => hsound seed (h.append happend)⟩

theorem Accounted.appendOthers (hs : s.Accounted projections seed) (calls : List AppendCall) :
    (s.appendOthers projections calls).Accounted projections seed := by
  obtain ⟨hlog, hown, -, -, hsound⟩ := s.appendOthers_cases projections calls
  refine ⟨hsound seed hs.sound, ?_⟩
  intro event hevent
  rw [hown] at hevent
  exact (hs.accepted event hevent).mono hlog

end TransactionState

/-! ## Brackets -/

/-- An event carries the identity and the owner of a bracket. -/
def Bracket.Names (bracket : Bracket) (event : SessionEvent) : Prop :=
  event.field "compactionId" = some (.str bracket.compactionId) ∧
    event.field "turn" = some bracket.turn

omit [NumberText] in
theorem Bracket.names_lifecycle {bracket : Bracket} {more : List (String × Json)}
    (h : event.data = .obj (bracket.lifecycle ++ more)) : bracket.Names event := by
  unfold Names SessionEvent.field lifecycle at *
  rw [h]
  cases bracket.sourceCommandId <;> exact ⟨rfl, rfl⟩

/-- The events of one type among the own events. -/
def ofType (type : EventType) (own : List SessionEvent) : List SessionEvent :=
  own.filter fun event => event.type = type

omit [NumberText] in
@[simp] theorem ofType_append (type : EventType) (xs ys : List SessionEvent) :
    ofType type (xs ++ ys) = ofType type xs ++ ofType type ys :=
  List.filter_append ..

/-- The call appended one start, which names its bracket. -/
def Started (own : List SessionEvent) (bracket : Bracket) : Prop :=
  ∃ start, ofType .compactionStart own = [start] ∧ bracket.Names start ∧
    start.seq = bracket.startSeq

/-- The call appended one end, which names its bracket. -/
def Closed (own : List SessionEvent) (bracket : Bracket) : Prop :=
  ∃ end_, ofType .compactionEnd own = [end_] ∧ bracket.Names end_

/-- The close of the bracket was attempted and refused, and nothing else closed it. -/
def CloseRefused (projections : List SessionMessageProjection) (own log : List SessionEvent)
    (bracket : Bracket) : Prop :=
  ofType .compactionEnd own = [] ∧
    ∃ (attempted : Attached) (call : AppendCall) (message : String), attempted.log <+: log ∧
      call.type = .compactionEnd ∧ bracket.Names (attempted.candidate call) ∧
      attempted.append projections call = .error message

/-- No event of the call replaces surface nodes. -/
def Unreplaced (own : List SessionEvent) : Prop :=
  ∀ event ∈ own, ∀ startSeq endSeq, isSurfaceEvent event ≠ some (.replace startSeq endSeq)

omit [NumberText] in
theorem Started.append {own : List SessionEvent} {bracket : Bracket} (h : Started own bracket)
    (htype : event.type ≠ .compactionStart) : Started (own ++ [event]) bracket := by
  obtain ⟨start, hstart, hnames⟩ := h
  refine ⟨start, ?_, hnames⟩
  rw [ofType_append, hstart]
  simp [ofType, htype]

omit [NumberText] in
theorem Unreplaced.append {own : List SessionEvent} (h : Unreplaced own)
    (hop : event.surfaceOp = none) : Unreplaced (own ++ [event]) := by
  intro e he startSeq endSeq
  rcases List.mem_append.mp he with he | he
  · exact h e he startSeq endSeq
  · rw [List.mem_singleton.mp he]
    simp [isSurfaceEvent, hop]

/-! ## Snapshots -/

/-- A selection names a span of the given nodes. -/
structure Selects (nodes : List ℕ) (selection : SurfaceSelection) : Prop where
  start_at : nodes.idxOf? selection.start = some selection.startIdx
  end_at : nodes.idxOf? selection.end_ = some selection.endIdx
  ordered : selection.startIdx ≤ selection.endIdx
  shadowed : selection.shadowedSeqs = Splice.segment nodes selection.startIdx selection.endIdx

/-- A snapshot describes the surface, the measurement and the input of one log. -/
structure TakenAt (projections : List SessionMessageProjection) (read : List SessionEvent)
    (prepared : PreparedCompaction) : Prop where
  replays : ∃ acc, foldSurfaceState read projections = .ok acc
  selects : Selects (surfaceState projections read).nodes prepared.toSurfaceSelection
  measured : ∃ meter : Meter, meter.measure read = .ok prepared.measurement
  selected : prepared.selectedNodes
    = Splice.segment prepared.measurement.nodes prepared.startIdx prepared.endIdx
  input_eq : prepared.input
    = buildSummarizationInput read (surfaceState projections read) prepared.shadowedSeqs

omit [NumberText] in
/-- A validated selection names the requested span of the nodes it was validated on. -/
theorem validateSurfaceRegion_ok {nodes : List ℕ} {start end_ : ℕ} {selection : SurfaceSelection}
    (h : validateSurfaceRegion log nodes start end_ = .ok selection) :
    selection.start = start ∧ selection.end_ = end_ ∧ Selects nodes selection := by
  unfold validateSurfaceRegion at h
  cases hstart : nodes.idxOf? start with
  | none => simp [hstart] at h
  | some startIdx =>
    cases hend : nodes.idxOf? end_ with
    | none => simp [hstart, hend] at h
    | some endIdx =>
      by_cases hlt : endIdx < startIdx
      · simp [hstart, hend, hlt] at h
      · simp only [hstart, hend, hlt, if_false, pure_eq] at h
        obtain ⟨before, -, h⟩ := bind_ok h
        cases before with
        | false => simp at h
        | true =>
          obtain ⟨after, -, h⟩ := bind_ok h
          cases after with
          | false => simp at h
          | true =>
            cases h
            exact ⟨rfl, rfl, hstart, hend, Nat.le_of_not_lt hlt, rfl⟩

omit [NumberText] in
theorem plain_ok {α : Type} {result : Except String α} {value : α}
    (h : plain result = .ok value) : result = .ok value := by
  cases result with
  | error message => cases h
  | ok value' => exact congrArg Except.ok (Except.ok.inj h)

theorem takenAt_of_prepareCompaction {meter : Meter} {selection : SurfaceSelection}
    {prepared : PreparedCompaction} (hreplays : ∃ acc, foldSurfaceState log projections = .ok acc)
    (hselects : Selects (surfaceState projections log).nodes selection)
    (h : prepareCompaction projections meter log selection = .ok prepared) :
    TakenAt projections log prepared := by
  unfold prepareCompaction at h
  obtain ⟨measurement, hmeasured, h⟩ := bind_ok h
  simp only at h
  split at h
  · cases h
    exact ⟨hreplays, hselects, ⟨meter, plain_ok hmeasured⟩, rfl, rfl⟩
  · cases h

/-! ## Stability -/

/-- The selected span at a log: where it stands, and that it is the prepared one. -/
structure SpanAt (projections : List SessionMessageProjection) (meter : Meter)
    (log : List SessionEvent) (prepared : PreparedCompaction) (startIdx endIdx : ℕ)
    (measurement : TokenMeasurement) : Prop where
  start_at : (surfaceState projections log).nodes.idxOf? prepared.start = some startIdx
  end_at : (surfaceState projections log).nodes.idxOf? prepared.end_ = some endIdx
  ordered : startIdx ≤ endIdx
  measured : meter.measure log = .ok measurement
  shadowed : Splice.segment (surfaceState projections log).nodes startIdx endIdx
    = prepared.shadowedSeqs
  selected : Splice.segment measurement.nodes startIdx endIdx = prepared.selectedNodes

/-- Under either stability mode a summary that may still replace its span finds the prepared
positions, at their prepared prices. -/
theorem spanAt_of_assertStable (hdeclared : DeclaredProjections projections)
    {stability : Stability} {meter : Meter} {read : List SessionEvent}
    {prepared : PreparedCompaction} (htaken : TakenAt projections read prepared)
    (hreplays : ∃ acc, foldSurfaceState log projections = .ok acc)
    (h : assertStable projections stability meter log prepared = .ok ()) :
    ∃ startIdx endIdx measurement,
      SpanAt projections meter log prepared startIdx endIdx measurement := by
  cases stability with
  | selectedSpan =>
    simp only [assertStable, assertSelectedSpanStable] at h
    cases hregion : validateSurfaceRegion log (surfaceState projections log).nodes
        prepared.start prepared.end_ with
    | error message =>
      rw [hregion] at h
      cases h
    | ok current =>
      rw [hregion] at h
      obtain ⟨hstart, hend, hselects⟩ := validateSurfaceRegion_ok hregion
      by_cases hsame : current.shadowedSeqs = prepared.shadowedSeqs
      · simp only [hsame, ne_eq, not_true_eq_false, if_false] at h
        obtain ⟨measured, hmeasured, h⟩ := bind_ok h
        by_cases hselected : Splice.segment measured.nodes current.startIdx current.endIdx
            = prepared.selectedNodes
        · exact ⟨current.startIdx, current.endIdx, measured, hstart ▸ hselects.start_at,
            hend ▸ hselects.end_at, hselects.ordered, plain_ok hmeasured,
            hselects.shadowed.symm.trans hsame, hselected⟩
        · simp [hselected] at h
      · simp [hsame] at h
  | wholeSurface =>
    simp only [assertStable, assertWholeSurfaceUnchanged] at h
    obtain ⟨current, hcurrent, h⟩ := bind_ok h
    by_cases hsame : current.nodes = prepared.measurement.nodes
    · have hmeasured := plain_ok hcurrent
      obtain ⟨acc, hacc⟩ := hreplays
      obtain ⟨before, hbefore⟩ := htaken.replays
      obtain ⟨meter', hmeasured'⟩ := htaken.measured
      -- Equal measured nodes stand at equal surface positions.
      have hnodes : (surfaceState projections log).nodes
          = (surfaceState projections read).nodes := by
        rw [surfaceState_eq hacc, surfaceState_eq hbefore,
          ← Meter.measure_seqs hdeclared hacc hmeasured,
          ← Meter.measure_seqs hdeclared hbefore hmeasured', hsame]
      refine ⟨prepared.startIdx, prepared.endIdx, current, ?_, ?_, htaken.selects.ordered,
        hmeasured, ?_, ?_⟩
      · rw [hnodes]
        exact htaken.selects.start_at
      · rw [hnodes]
        exact htaken.selects.end_at
      · rw [hnodes]
        exact htaken.selects.shadowed.symm
      · rw [hsame]
        exact htaken.selected.symm
    · simp [hsame] at h

/-! ## The replacement -/

omit [NumberText] in
/-- The operation of a positional replacement names the positions it was built from. -/
theorem eq_of_replaceOp? {startSeq endSeq : ℕ} {op : SurfaceOp}
    (h : replaceOp? (.obj [("op", .str "replace"), ("startSeq", .nat startSeq),
      ("endSeq", .nat endSeq)]) = some op) : op = .replace startSeq endSeq := by
  have hstart : Json.get? (.obj [("op", .str "replace"), ("startSeq", .nat startSeq),
      ("endSeq", .nat endSeq)]) "startSeq" = some (.nat startSeq) := rfl
  have hend : Json.get? (.obj [("op", .str "replace"), ("startSeq", .nat startSeq),
      ("endSeq", .nat endSeq)]) "endSeq" = some (.nat endSeq) := rfl
  unfold replaceOp? at h
  simp only [hstart, hend, Json.count?_nat] at h
  by_cases hsafe : startSeq ≤ Json.maxSafeInteger
  · by_cases hsafe' : endSeq ≤ Json.maxSafeInteger
    · simp only [hsafe, hsafe', if_true] at h
      split at h
      · exact (Option.some.inj h).symm
      · cases h
    · simp [hsafe, hsafe'] at h
  · simp [hsafe] at h

omit [NumberText] in
/-- A planned positional replacement is the operation that the folds read. -/
theorem isSurfaceEvent_of_replace {state : SurfaceFoldState} {n startSeq endSeq : ℕ}
    {plan : Option SurfacePlan}
    (hplan : planSurfaceEvent state event n log 0 projections = .ok plan)
    (heligible : event.type.isSurfaceEligible = true)
    (hop : event.surfaceOp = some (.obj [("op", .str "replace"), ("startSeq", .nat startSeq),
      ("endSeq", .nat endSeq)])) : isSurfaceEvent event = some (.replace startSeq endSeq) := by
  obtain ⟨-, -, op, hmetadata, -⟩ := planSurfaceEvent_cases hplan
  have hadmitted := surfaceOpOf_of_validateSurfaceMetadata hmetadata
  rw [isSurfaceEvent_of_surfaceOpOf hadmitted]
  unfold surfaceOpOf at hadmitted
  simp only [heligible, hop, Bool.not_true, Bool.false_eq_true, if_false] at hadmitted
  split at hadmitted
  · next op' hreplace =>
      cases hadmitted
      rw [eq_of_replaceOp? hreplace]
  · cases hadmitted

omit [NumberText] in
theorem Attached.nodes_append (hdeclared : DeclaredProjections projections)
    {s s' : Attached} {call : AppendCall} (hs : s.Sound projections seed)
    (happend : s.append projections call = .ok s') :
    match isSurfaceEvent (s.candidate call) with
    | none => (surfaceState projections s'.log).nodes = (surfaceState projections s.log).nodes
    | some .append => (surfaceState projections s'.log).nodes
        = (surfaceState projections s.log).nodes ++ [s.log.length]
    | some (.replace startSeq endSeq) =>
      ∃ range, replacementRange (surfaceState projections s.log).nodes startSeq endSeq
          = .ok range ∧
        (surfaceState projections s'.log).nodes
          = Splice.splice (surfaceState projections s.log).nodes range.startIdx range.endIdx
              s.log.length := by
  obtain ⟨plan, transition, hplan, -, -, -, rfl⟩ := append_cases happend
  obtain ⟨acc, hacc⟩ := hs.replays
  rw [surfaceState_eq hacc] at hplan ⊢
  have hnext := foldSurfaceState_snoc_ok_iff.mpr ⟨acc, plan, hacc, hplan, rfl⟩
  rw [surfaceState_eq hnext]
  exact nodes_applySurfacePlan hdeclared hplan

/-- The replacement of a resolved call. Right before it the result's span stands on the surface;
right after it the checkpoint stands in its place; and the last snapshot a summary was asked of
was taken from an earlier log, over the same surface events. -/
structure Replaced (projections : List SessionMessageProjection) (s : TransactionState)
    (result : CompactionResult) (before : List SessionEvent) (checkpoint : SessionEvent)
    (startIdx endIdx : ℕ) (prepared : PreparedCompaction) (read : List SessionEvent) : Prop where
  placed : before ++ [checkpoint] <+: s.log
  own_checkpoint : checkpoint ∈ s.own
  start_at : (surfaceState projections before).nodes.idxOf? result.start = some startIdx
  end_at : (surfaceState projections before).nodes.idxOf? result.end_ = some endIdx
  ordered : startIdx ≤ endIdx
  span : Splice.segment (surfaceState projections before).nodes startIdx endIdx
    = result.shadowedSeqs
  spliced : (surfaceState projections (before ++ [checkpoint])).nodes
    = Splice.splice (surfaceState projections before).nodes startIdx endIdx checkpoint.seq
  asked : s.requested.getLast? = some prepared
  earlier : read <+: before
  taken : TakenAt projections read prepared
  same_span : prepared.shadowedSeqs = result.shadowedSeqs

end Compaction

end TianmaCoder
