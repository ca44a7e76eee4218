import TianmaCoder.Session.RepairBalance

/-!
# Forking a session

A fork copies an inclusive prefix of the source log, marks its inherited cut with a tagged
`session/end-seed`, and closes the open tail of the prefix with synthetic events. The
constructor admits that seed exactly when the copied events have the seed shape and no
waiting call has an empty id, for the synthetic result of such a call has no tool source.

## Main definitions

* `buildForkSeed`, `Session.fork` — the seed, and the constructed child.
* `Lineage` — sessions built by construction, appends, reads and forks.
* `ForkLaw` — what a child of a boundary is.

## Main results

* `fork_spec` — when a fork is accepted, and the law of its child, along every lineage.
-/

namespace TianmaCoder

open Checked

/-! ## The fork seed -/

/-- The tagged marker of the inherited cut after `boundary`. -/
def forkMarker (events : List SessionEvent) (boundary : ℕ) : SessionEvent where
  type := .sessionEndSeed
  seq := boundary + 1
  time := ((events[boundary]?).map (·.time)).getD 0
  data := .obj [("inherited", .bool true)]

/-- The copied prefix and its marker. -/
def markedPrefix (events : List SessionEvent) (boundary : ℕ) : List SessionEvent :=
  events.take (boundary + 1) ++ [forkMarker events boundary]

/-- Copy an inclusive event prefix, mark its inherited cut, and close its open tail. -/
def buildForkSeed (events : List SessionEvent) (boundary : ℕ) : List SessionEvent :=
  markedPrefix events boundary ++ openTurnClosers (markedPrefix events boundary) .forked

/-- Check a boundary against the contiguous log of session `id`. -/
def checkBoundary (id : String) (events : List SessionEvent) (boundary : ℕ) :
    Except String (Option ℕ) := do
  if Json.maxSafeInteger < boundary then
    throw s!"fork boundary for session \"{id}\" must be a non-negative safe integer, got {boundary}"
  match events[boundary]? with
  | none =>
    let last := (events.getLast?.map fun event => toString event.seq).getD "none"
    throw s!"fork boundary {boundary} does not exist in session \"{id}\" (last seq: {last})"
  | some event =>
    if event.seq ≠ boundary then
      throw s!"fork boundary {boundary} does not match a contiguous event seq in session \"{id}\""
    return some boundary

/-- The boundary a fork resolves; `none` forks an empty child of an empty source. -/
def forkBoundary (id : String) (events : List SessionEvent) (requested : Option ℕ) :
    Except String (Option ℕ) :=
  match requested, events.getLast? with
  | some boundary, _ => checkBoundary id events boundary
  | none, some last => checkBoundary id events last.seq
  | none, none => pure none

/-- `SessionStore.fork`, on a live source with header id `id`. -/
def Session.fork (projections : List SessionMessageProjection) (s : Session) (id : String)
    (requested : Option ℕ) (now : ℤ) : Except String Session := do
  let resolved ← forkBoundary id s.events requested
  match resolved with
  | none => Session.create projections (some []) true (some 0) now
  | some boundary =>
    Session.create projections (some (buildForkSeed s.events boundary)) true
      (some (boundary + 1)) now

variable {projections : List SessionMessageProjection}

/-! ## Seed shapes of synthetic events -/

/-- A synthetic result has the seed shape exactly when its call id is nonempty. -/
theorem envelope_closerResult (cause : OpenTurnCloseCause) (turn : Json) {time : ℤ}
    (callId : String) (call : PendingCall) {seq : ℕ} (hseq : seq ≤ Json.maxSafeInteger)
    (htime : Json.isSafeInteger time = true) (index : ℕ) :
    assertSessionEventEnvelope (closerResult cause turn time callId call seq) index = .ok () ↔
      callId ≠ "" := by
  have hdata : ∀ subject,
      validateSessionEventData (closerResult cause turn time callId call seq) subject
        = .ok () := by
    intro subject
    cases call.callSeq <;> rfl
  have hsafe : ¬Json.maxSafeInteger < seq := Nat.not_lt.mpr hseq
  unfold assertSessionEventEnvelope
  simp only [hdata]
  simp [closerResult, hsafe, htime, assertCurrentLlmShape, assertMessageEventShape, messageRole?,
    SessionEvent.field, closerMessage, Json.nonEmptyStr?, Json.arr?]

variable {event : SessionEvent}

theorem envelope_plain (hextra : event.extra = []) (hseq : event.seq ≤ Json.maxSafeInteger)
    (htime : Json.isSafeInteger event.time = true) (hignorable : event.ignorable = none)
    (htype : event.type = .sessionEndSeed ∨ event.type = .stepEnd ∨ event.type = .turnEnd)
    (index : ℕ) : assertSessionEventEnvelope event index = .ok () := by
  have hsafe : ¬Json.maxSafeInteger < event.seq := Nat.not_lt.mpr hseq
  rcases htype with htype | htype | htype <;>
    simp [assertSessionEventEnvelope, hextra, hsafe, htime, hignorable, htype,
      validateSessionEventData, EventType.isSurfaceEligible, assertCurrentLlmShape]

theorem shaped_closerResults (cause : OpenTurnCloseCause) (turn : Json) {time : ℤ}
    (htime : Json.isSafeInteger time = true) (calls : OrderedMap String PendingCall) :
    ∀ {events : List SessionEvent}, events.length + calls.length ≤ Json.maxSafeInteger →
    (Session.SeedShaped (events ++ closerResults cause turn time calls events.length) ↔
      Session.SeedShaped events ∧ "" ∉ OrderedMap.keys calls) := by
  induction calls with
  | nil =>
    intro events _
    simp [closerResults]
  | cons entry calls ih =>
    intro events hlength
    obtain ⟨callId, call⟩ := entry
    rw [List.length_cons] at hlength
    have hnext : (events ++ [closerResult cause turn time callId call events.length]).length
        = events.length + 1 := by simp
    have hrest := @ih (events ++ [closerResult cause turn time callId call events.length])
      (by omega)
    rw [hnext, Session.seedShaped_snoc_iff,
      envelope_closerResult cause turn callId call (by omega) htime] at hrest
    rw [closerResults, List.append_cons, hrest]
    simp only [OrderedMap.keys_cons, List.mem_cons, not_or, ne_eq, eq_comm, and_assoc]

variable {events : List SessionEvent}

theorem shaped_boundaryClosers (cause : OpenTurnCloseCause) (turn : Json) (openStep : Option Json)
    {time : ℤ} (htime : Json.isSafeInteger time = true)
    (hlength : events.length + 1 ≤ Json.maxSafeInteger) :
    Session.SeedShaped (events ++ boundaryClosers cause turn openStep time events.length) ↔
      Session.SeedShaped events := by
  cases openStep with
  | none =>
    have hend : assertSessionEventEnvelope (closerTurnEnd cause turn time events.length)
        events.length = .ok () :=
      envelope_plain rfl (Nat.le_of_succ_le hlength) htime rfl (.inr (.inr rfl)) _
    rw [boundaryClosers, Session.seedShaped_snoc_iff]
    exact and_iff_left hend
  | some step =>
    have hstep : assertSessionEventEnvelope (closerStepEnd turn step time events.length)
        events.length = .ok () :=
      envelope_plain rfl (Nat.le_of_succ_le hlength) htime rfl (.inr (.inl rfl)) _
    have hnext : (events ++ [closerStepEnd turn step time events.length]).length
        = events.length + 1 := by simp
    have hend : assertSessionEventEnvelope (closerTurnEnd cause turn time (events.length + 1))
        (events.length + 1) = .ok () :=
      envelope_plain rfl hlength htime rfl (.inr (.inr rfl)) _
    rw [boundaryClosers, List.append_cons, Session.seedShaped_snoc_iff, hnext,
      Session.seedShaped_snoc_iff]
    exact (and_iff_left hend).trans (and_iff_left hstep)

/-! ## The marked prefix -/

/-- A source of forks: its log replays and the session invariant accepts it. -/
structure ForkSource (projections : List SessionMessageProjection) (s : Session) : Prop where
  valid : s.Valid projections
  traced : ∃ trace, runTrace s.events = .ok trace

theorem replays_take (h : ∃ acc, foldSurfaceState events projections = .ok acc) (n : ℕ) :
    ∃ acc, foldSurfaceState (events.take n) projections = .ok acc := by
  obtain ⟨acc, hacc⟩ := h
  cases hfold : foldSurfaceState (events.take n) projections with
  | ok acc => exact ⟨acc, rfl⟩
  | error message =>
    have herror : foldSurfaceState (events.take n ++ events.drop n) projections
        = .error message := SurfaceManager.foldSurfaceState_error_append hfold
    rw [List.take_append_drop, hacc] at herror
    cases herror

theorem traced_take (h : ∃ trace, runTrace events = .ok trace) (n : ℕ) :
    ∃ trace, runTrace (events.take n) = .ok trace := by
  obtain ⟨trace, htrace⟩ := h
  rw [← List.take_append_drop n events] at htrace
  obtain ⟨trace', hpre, -⟩ := foldlM_prefix_ok htrace
  exact ⟨trace', hpre⟩

theorem shaped_take (h : Session.SeedShaped events) (n : ℕ) :
    Session.SeedShaped (events.take n) := by
  intro i hi
  rw [List.getElem_take]
  exact h i (by
    rw [List.length_take] at hi
    omega)

/-- A tagged marker moves nothing in the trace but the position. -/
theorem traceEvent_marker {trace : SessionTrace} (htype : event.type = .sessionEndSeed)
    (hseq : trace.lastSeq < event.seq) :
    traceEvent trace event = .ok { trace with lastSeq := event.seq } := by
  have hlate : ¬(event.seq : ℤ) ≤ trace.lastSeq := Int.not_le.mpr hseq
  unfold traceEvent validateEvent
  simp only [htype, hlate, if_false, pure_eq, ok_bind, SessionTrace.stay, applyTransition]

/-- What the marked prefix of an accepted log is. -/
structure Marked (projections : List SessionMessageProjection) (events : List SessionEvent)
    (boundary : ℕ) : Prop where
  length_take : (events.take (boundary + 1)).length = boundary + 1
  replays : ∃ acc, foldSurfaceState (events.take (boundary + 1)) projections = .ok acc
    ∧ foldSurfaceState (markedPrefix events boundary) projections = .ok acc
  traced : ∃ trace, runTrace (markedPrefix events boundary) = .ok trace
    ∧ Agrees (markedPrefix events boundary) trace

variable {boundary : ℕ} {s : Session}

theorem marked_of_source (hdeclared : DeclaredProjections projections)
    (h : ForkSource projections s) (hboundary : boundary < s.events.length) :
    Marked projections s.events boundary := by
  have hlength : (s.events.take (boundary + 1)).length = boundary + 1 := by
    rw [List.length_take]
    omega
  obtain ⟨acc, hacc⟩ := replays_take h.valid.replays (boundary + 1)
  obtain ⟨trace, htrace⟩ := traced_take h.traced (boundary + 1)
  have hmarked : foldSurfaceState (markedPrefix s.events boundary) projections = .ok acc := by
    have hplan : planSurfaceEvent acc.1 (forkMarker s.events boundary)
        (s.events.take (boundary + 1)).length (s.events.take (boundary + 1)) 0 projections
          = .ok none := by
      rw [hlength]
      exact planSurfaceEvent_logOnly hdeclared rfl rfl rfl rfl acc.1 _
    exact Session.foldSurfaceState_snoc_none hacc hplan
  have hagrees := agrees_of_runTrace hacc htrace
  have hlast : trace.lastSeq < (forkMarker s.events boundary).seq := by
    have heq := hagrees.lastSeq_eq
    rw [hlength] at heq
    simp only [forkMarker]
    omega
  have htraced : runTrace (markedPrefix s.events boundary)
      = .ok { trace with lastSeq := (forkMarker s.events boundary).seq } := by
    rw [markedPrefix, runTrace_snoc, htrace, ok_bind, traceEvent_marker rfl hlast]
  exact ⟨hlength, ⟨acc, hacc, hmarked⟩, ⟨_, htraced, agrees_of_runTrace hmarked htraced⟩⟩

/-! ## When the seed is accepted -/

/-- The copied events have the seed shape, and every waiting call has a nonempty id. -/
structure Forkable (events : List SessionEvent) (boundary : ℕ) : Prop where
  shaped : Session.SeedShaped (events.take (boundary + 1))
  named : "" ∉ untouchedCalls (events.take (boundary + 1))

theorem safe_time_of_envelope {index : ℕ} (h : assertSessionEventEnvelope event index = .ok ()) :
    Json.isSafeInteger event.time = true := by
  by_contra htime
  have hnot : Json.isSafeInteger event.time = false := by simpa using htime
  simp [assertSessionEventEnvelope, hnot] at h

theorem forkMarker_time_safe (hboundary : boundary < events.length)
    (h : Session.SeedShaped (events.take (boundary + 1))) :
    Json.isSafeInteger (forkMarker events boundary).time = true := by
  have hlt : boundary < (events.take (boundary + 1)).length := by
    rw [List.length_take]
    omega
  have hlast := safe_time_of_envelope (h boundary hlt)
  rw [List.getElem_take] at hlast
  simpa [forkMarker, List.getElem?_eq_getElem hboundary] using hlast

theorem untouchedCalls_markedPrefix (events : List SessionEvent) (boundary : ℕ) :
    untouchedCalls (markedPrefix events boundary)
      = untouchedCalls (events.take (boundary + 1)) := by
  have htype : (forkMarker events boundary).type = .sessionEndSeed := rfl
  exact untouchedCalls_quiet (by simp [SessionEvent.isBoundary, htype]) (by simp [htype])
    (by simp [htype])

theorem shaped_markedPrefix (hboundary : boundary < events.length)
    (hsafe : boundary + 1 ≤ Json.maxSafeInteger) :
    Session.SeedShaped (markedPrefix events boundary) ↔
      Session.SeedShaped (events.take (boundary + 1)) := by
  rw [markedPrefix, Session.seedShaped_snoc_iff]
  refine and_iff_left_of_imp fun h => ?_
  exact envelope_plain rfl hsafe (forkMarker_time_safe hboundary h) rfl (.inl rfl) _

/-- The whole seed has the seed shape exactly at a forkable boundary. -/
theorem shaped_buildForkSeed (h : Marked projections events boundary)
    (hboundary : boundary < events.length)
    (hlength : (buildForkSeed events boundary).length ≤ Json.maxArrayLength) :
    Session.SeedShaped (buildForkSeed events boundary) ↔ Forkable events boundary := by
  have hmax := Json.maxArrayLength_le
  have hmarked : (markedPrefix events boundary).length = boundary + 2 := by
    rw [markedPrefix, List.length_append, h.length_take]
    rfl
  rw [buildForkSeed, List.length_append, hmarked] at hlength
  obtain ⟨trace, htrace, hagrees⟩ := h.traced
  obtain ⟨acc, -, hacc⟩ := h.replays
  have hkeys : "" ∈ OrderedMap.keys (scanLog (markedPrefix events boundary)).pendingCalls ↔
      "" ∈ untouchedCalls (events.take (boundary + 1)) := by
    rw [← untouchedCalls_markedPrefix]
    exact hagrees.tracked.mem_iff ""
  have hpre := shaped_markedPrefix hboundary (by omega : boundary + 1 ≤ Json.maxSafeInteger)
  have hforkable : Forkable events boundary ↔
      Session.SeedShaped (markedPrefix events boundary)
        ∧ "" ∉ OrderedMap.keys (scanLog (markedPrefix events boundary)).pendingCalls := by
    rw [hpre, hkeys]
    exact ⟨fun h => ⟨h.shaped, h.named⟩, fun h => ⟨h.1, h.2⟩⟩
  rw [hforkable, buildForkSeed]
  cases hturn : trace.openTurn with
  | none =>
    rw [openTurnClosers_closed hagrees hturn, List.append_nil,
      hagrees.pending_nil (hagrees.step_in_turn hturn)]
    simp
  | some turn =>
    obtain ⟨time, hlast, hclosers⟩ :=
      openTurnClosers_eq hagrees hturn (seq_of_foldSurfaceState hacc) .forked
    have htime : time = (forkMarker events boundary).time := by
      rw [markedPrefix, List.getLast?_append, List.getLast?_singleton] at hlast
      simpa using hlast.symm
    rw [hclosers, List.length_append, length_closerResults] at hlength
    have hone : 1 ≤ (boundaryClosers .forked turn trace.openStep time
        ((markedPrefix events boundary).length
          + (scanLog (markedPrefix events boundary)).pendingCalls.length)).length := by
      cases trace.openStep <;> simp [boundaryClosers]
    have hresults : (markedPrefix events boundary ++ closerResults .forked turn time
          (scanLog (markedPrefix events boundary)).pendingCalls
          (markedPrefix events boundary).length).length
        = (markedPrefix events boundary).length
          + (scanLog (markedPrefix events boundary)).pendingCalls.length := by
      rw [List.length_append, length_closerResults]
    rw [hclosers, ← List.append_assoc]
    by_cases hQ : Session.SeedShaped (markedPrefix events boundary)
    · have hsafe : Json.isSafeInteger time = true := by
        rw [htime]
        exact forkMarker_time_safe hboundary (hpre.mp hQ)
      rw [← hresults, shaped_boundaryClosers .forked turn trace.openStep hsafe (by omega),
        shaped_closerResults .forked turn hsafe _ (by omega)]
    · refine iff_of_false (fun hseed => hQ ?_) (fun hseed => hQ hseed.1)
      have htake := shaped_take hseed (markedPrefix events boundary).length
      rwa [List.append_assoc, List.take_left'  rfl] at htake

theorem types_openTurnClosers (events : List SessionEvent) (cause : OpenTurnCloseCause) :
    ∀ event ∈ openTurnClosers events cause,
      event.type = .toolResult ∨ event.type = .stepEnd ∨ event.type = .turnEnd := by
  intro event hmem
  unfold openTurnClosers at hmem
  simp only at hmem
  split at hmem
  · rename_i turn last _ _
    rcases List.mem_append.mp hmem with hmem | hmem
    · rw [← syntheticResults_closerResults] at hmem
      exact .inl (eq_of_beq (List.mem_filter.mp hmem).2)
    · cases hstep : (scanLog events).openStep <;>
        simp only [hstep, boundaryClosers, List.mem_cons, List.not_mem_nil, or_false] at hmem
      · exact .inr (.inr (hmem ▸ rfl))
      · rcases hmem with rfl | rfl
        · exact .inr (.inl rfl)
        · exact .inr (.inr rfl)
  · cases hmem

theorem not_marker_of_closer {cause : OpenTurnCloseCause}
    (hmem : event ∈ openTurnClosers events cause) : event.isInheritedMarker = false := by
  rcases types_openTurnClosers events cause event hmem with htype | htype | htype <;>
    simp [SessionEvent.isInheritedMarker, htype]

section

variable (h : Marked projections events boundary)
include h

theorem getElem?_buildForkSeed :
    (buildForkSeed events boundary)[boundary + 1]? = some (forkMarker events boundary) := by
  have hlength := h.length_take
  rw [buildForkSeed, markedPrefix, List.append_assoc, List.getElem?_append_right (by omega),
    hlength, Nat.sub_self]
  rfl

theorem drop_buildForkSeed :
    (buildForkSeed events boundary).drop (boundary + 2)
      = openTurnClosers (markedPrefix events boundary) .forked := by
  have hlength : (markedPrefix events boundary).length = boundary + 2 := by
    rw [markedPrefix, List.length_append, h.length_take]
    rfl
  rw [buildForkSeed, ← hlength, List.drop_left]

theorem checkInherited_buildForkSeed :
    Session.checkInherited (buildForkSeed events boundary) true true (some (boundary + 1))
      = .ok (boundary + 1) := by
  have hmarker : ((buildForkSeed events boundary)[boundary + 1]?).any
      SessionEvent.isInheritedMarker = true := by
    rw [getElem?_buildForkSeed h]
    rfl
  have hlater : ((buildForkSeed events boundary).drop (boundary + 1 + 1)).any
      SessionEvent.isInheritedMarker = false := by
    rw [drop_buildForkSeed h, List.any_eq_false]
    exact fun event hmem => by simp [not_marker_of_closer hmem]
  have hlength : ¬(buildForkSeed events boundary).length < boundary + 1 := by
    rw [buildForkSeed, markedPrefix, List.length_append, List.length_append, h.length_take]
    omega
  simp [Session.checkInherited, hmarker, hlater, hlength]

theorem seedMarkers_buildForkSeed (now : ℤ) :
    Session.seedMarkers (buildForkSeed events boundary) true true (boundary + 1) now = [] := by
  simp [Session.seedMarkers, Session.seedMarker, getElem?_buildForkSeed h, forkMarker,
    SessionEvent.isInheritedMarker, SessionEvent.field]

end

/-! ## Messages of the child -/

/-- Message projections rewrite current messages only. -/
def CurrentProjections (projections : List SessionMessageProjection) : Prop :=
  ∀ projection ∈ projections, ∀ event context messages,
    projection.project event context = .ok messages →
      ∀ seq ∈ OrderedMap.keys messages, seq ∈ context.nodes

theorem mem_keys_set_all {messages m : OrderedMap ℕ Json} {seq : ℕ} (h : seq ∈ OrderedMap.keys
      (messages.foldl (fun m (seq, message) => OrderedMap.set seq message m) m)) :
    seq ∈ OrderedMap.keys m ∨ seq ∈ OrderedMap.keys messages := by
  induction messages generalizing m with
  | nil => exact .inl h
  | cons entry messages ih =>
    obtain ⟨k, v⟩ := entry
    rcases ih h with h | h
    · rw [OrderedMap.keys_set] at h
      split at h
      · exact .inl h
      · rcases List.mem_append.mp h with h | h
        · exact .inl h
        · rw [List.mem_singleton.mp h]
          exact .inr List.mem_cons_self
    · exact .inr (List.mem_cons_of_mem _ h)

/-- Projected messages belong to positions of the log. -/
theorem projected_lt_length (hcurrent : CurrentProjections projections)
    {log : List SessionEvent} {acc : SurfaceFoldState × List SurfaceFoldReplacement}
    (h : foldSurfaceState log projections = .ok acc) :
    ∀ seq ∈ OrderedMap.keys acc.1.projectedMessages, seq < log.length := by
  refine foldSurfaceState_induction
    (motive := fun log acc => ∀ seq ∈ OrderedMap.keys acc.1.projectedMessages, seq < log.length)
    (fun seq hmem => by cases hmem) ?_ h
  intro log event acc plan hacc ih hplan seq hmem
  rw [List.length_append, List.length_singleton]
  obtain ⟨-, -, op, -, hcase⟩ := planSurfaceEvent_cases hplan
  rcases hcase with ⟨projection, messages, hfind, hproject, rfl⟩ | ⟨-, -, hmove⟩
  · rcases mem_keys_set_all hmem with hold | hnew
    · exact Nat.lt_succ_of_lt (ih seq hold)
    · have hnode := hcurrent projection (List.mem_of_find?_eq_some hfind) event _ messages
        hproject seq hnew
      exact Nat.lt_succ_of_lt (nodes_lt_length hacc seq hnode)
  · cases hmove <;> exact Nat.lt_succ_of_lt (ih seq hmem)

theorem derivedMessages_snoc_append (hcurrent : CurrentProjections projections)
    {acc : SurfaceFoldState × List SurfaceFoldReplacement}
    (hacc : foldSurfaceState events projections = .ok acc) (hseq : event.seq = events.length)
    (hplan : planSurfaceEvent acc.1 event events.length events 0 projections
      = .ok (some (.append events.length))) :
    derivedMessages (events ++ [event]) projections
      = (· ++ (deriveEventMessage event []).toList) <$> derivedMessages events projections := by
  have hsnoc : foldSurfaceState (events ++ [event]) projections
      = .ok ((applySurfacePlan acc.1 (some (.append events.length))).1, acc.2 ++ []) :=
    foldSurfaceState_snoc_ok_iff.mpr ⟨acc, _, hacc, hplan, rfl⟩
  have hown : deriveEventMessage event acc.1.projectedMessages = deriveEventMessage event [] := by
    have hnone : acc.1.projectedMessages.lookup event.seq = none := by
      refine OrderedMap.lookup_eq_none fun hmem => ?_
      have hlt := projected_lt_length hcurrent hacc event.seq hmem
      omega
    simp only [deriveEventMessage, hnone, List.lookup_nil]
  have hlast : (events ++ [event])[events.length]? = some event := by simp
  unfold derivedMessages
  rw [foldSurface_eq_map, foldSurface_eq_map, hacc, hsnoc]
  refine congrArg Except.ok ?_
  simp only [applySurfacePlan]
  rw [surfaceMessages, List.filterMap_append, ← surfaceMessages,
    Session.surfaceMessages_append [event] (nodes_lt_length hacc), ← hown]
  simp only [List.filterMap_cons, hlast, Option.bind_some, List.filterMap_nil]
  cases deriveEventMessage event acc.1.projectedMessages <;> rfl

theorem derivedMessages_closerResults (hdeclared : DeclaredProjections projections)
    (hcurrent : CurrentProjections projections) (cause : OpenTurnCloseCause) (turn : Json)
    (time : ℤ) (calls : OrderedMap String PendingCall) :
    ∀ {events : List SessionEvent}, CitesBelow calls events.length →
    (∃ acc, foldSurfaceState events projections = .ok acc) →
    derivedMessages (events ++ closerResults cause turn time calls events.length) projections
      = (· ++ (closerResults cause turn time calls events.length).filterMap
          (deriveEventMessage · [])) <$> derivedMessages events projections := by
  induction calls with
  | nil =>
    intro events _ _
    rw [closerResults, List.append_nil, List.filterMap_nil]
    cases derivedMessages events projections <;> simp
  | cons entry calls ih =>
    intro events hcited hreplays
    obtain ⟨callId, call⟩ := entry
    obtain ⟨acc, hacc⟩ := hreplays
    have hplan := plan_closerResult hdeclared cause turn time callId call
      (hcited (callId, call) List.mem_cons_self)
    have hfirst := derivedMessages_snoc_append hcurrent hacc rfl (hplan acc.1 events)
    have hnext := replays_snoc ⟨acc, hacc⟩ (hplan · events)
    have hlength : (events ++ [closerResult cause turn time callId call events.length]).length
        = events.length + 1 := by simp
    have hcited' : CitesBelow calls
        (events ++ [closerResult cause turn time callId call events.length]).length := by
      intro entry hmem callSeq hstarted
      obtain ⟨hlt, hsafe⟩ := hcited entry (List.mem_cons_of_mem _ hmem) callSeq hstarted
      exact ⟨by omega, hsafe⟩
    have hrest := ih hcited' hnext
    rw [hlength] at hrest
    rw [closerResults, List.append_cons, hrest, hfirst]
    cases derivedMessages events projections with
    | error message => rfl
    | ok messages =>
      exact congrArg Except.ok (List.append_assoc messages _ _)

theorem derivedMessages_boundaryClosers (hdeclared : DeclaredProjections projections)
    (cause : OpenTurnCloseCause) (turn : Json) (openStep : Option Json) (time : ℤ)
    (h : ∃ acc, foldSurfaceState events projections = .ok acc) :
    derivedMessages (events ++ boundaryClosers cause turn openStep time events.length) projections
      = derivedMessages events projections := by
  obtain ⟨acc, hacc⟩ := h
  cases openStep with
  | none =>
    exact Session.derivedMessages_snoc_none hacc
      (planSurfaceEvent_logOnly hdeclared rfl rfl rfl rfl acc.1 events)
  | some step =>
    have hplan : planSurfaceEvent acc.1 (closerStepEnd turn step time events.length)
        events.length events 0 projections = .ok none :=
      planSurfaceEvent_logOnly hdeclared rfl rfl rfl rfl acc.1 events
    have hstep := Session.foldSurfaceState_snoc_none hacc hplan
    have hlength : (events ++ [closerStepEnd turn step time events.length]).length
        = events.length + 1 := by simp
    have hend : planSurfaceEvent acc.1 (closerTurnEnd cause turn time (events.length + 1))
        (events ++ [closerStepEnd turn step time events.length]).length
        (events ++ [closerStepEnd turn step time events.length]) 0 projections = .ok none := by
      rw [hlength]
      exact planSurfaceEvent_logOnly hdeclared rfl rfl rfl rfl acc.1 _
    rw [boundaryClosers, List.append_cons, Session.derivedMessages_snoc_none hstep hend,
      Session.derivedMessages_snoc_none hacc hplan]

theorem derivedMessages_openTurnClosers (hdeclared : DeclaredProjections projections)
    (hcurrent : CurrentProjections projections) {log : List SessionEvent} {trace : SessionTrace}
    (h : Agrees log trace) (hlength : log.length ≤ Json.maxArrayLength)
    (hreplays : ∃ acc, foldSurfaceState log projections = .ok acc) (cause : OpenTurnCloseCause) :
    derivedMessages (log ++ openTurnClosers log cause) projections
      = (· ++ (syntheticResults (openTurnClosers log cause)).filterMap (deriveEventMessage · []))
        <$> derivedMessages log projections := by
  cases hturn : trace.openTurn with
  | none =>
    rw [openTurnClosers_closed h hturn cause, List.append_nil]
    cases derivedMessages log projections <;> simp [syntheticResults]
  | some turn =>
    obtain ⟨acc, hacc⟩ := hreplays
    obtain ⟨time, -, hclosers⟩ :=
      openTurnClosers_eq h hturn (seq_of_foldSurfaceState hacc) cause
    have hresults := replays_closerResults hdeclared cause turn time
      (scanLog log).pendingCalls (h.citesBelow hlength) ⟨acc, hacc⟩
    have hboundary := derivedMessages_boundaryClosers hdeclared cause turn trace.openStep time
      hresults
    rw [List.length_append, length_closerResults] at hboundary
    rw [hclosers, ← List.append_assoc, hboundary, derivedMessages_closerResults hdeclared hcurrent
      cause turn time _ (h.citesBelow hlength) ⟨acc, hacc⟩, syntheticResults,
      List.filter_append, ← syntheticResults, ← syntheticResults,
      syntheticResults_closerResults, syntheticResults_boundaryClosers, List.append_nil]

/-! ## Lineages -/

/-- Sessions reached by construction, appends the session invariant accepts, reads and forks. -/
inductive Lineage (projections : List SessionMessageProjection) : Session → Prop
  | create {seed : Option (List SessionEvent)} {seeded : Bool} {supplied : Option ℕ} {now : ℤ}
      {s : Session} (hcreate : Session.create projections seed seeded supplied now = .ok s)
      (htraced : ∃ trace, runTrace s.events = .ok trace) : Lineage projections s
  | append {s : Session} (h : Lineage projections s) (call : AppendCall)
      (htraced : ∃ trace, runTrace (s.append projections call).1.events = .ok trace) :
      Lineage projections (s.append projections call).1
  | deriveMessages {s : Session} (h : Lineage projections s) :
      Lineage projections (s.deriveMessages projections).1
  | fork {s child : Session} (h : Lineage projections s) {id : String} {requested : Option ℕ}
      {now : ℤ} (hfork : s.fork projections id requested now = .ok child) :
      Lineage projections child

/-- What the child of a fork at `boundary` is. -/
structure ForkLaw (projections : List SessionMessageProjection) (s : Session) (boundary : ℕ)
    (child : Session) : Prop where
  inherits : child.events.take (boundary + 1) = s.events.take (boundary + 1)
  count : child.inheritedEventCount = boundary + 1
  marked : (child.events[boundary + 1]?).any SessionEvent.isInheritedMarker = true
  unique : (child.events.drop (boundary + 2)).any SessionEvent.isInheritedMarker = false
  balanced : ∃ trace, runTrace child.events = .ok trace
    ∧ trace.openTurn = none ∧ trace.openStep = none
  derives : (child.deriveMessages projections).2
    = (· ++ (syntheticResults (openTurnClosers (markedPrefix s.events boundary) .forked)).filterMap
        (deriveEventMessage · []))
      <$> derivedMessages (s.events.take (boundary + 1)) projections

theorem checkBoundary_ok {id : String} (hsafe : boundary ≤ Json.maxSafeInteger)
    (hboundary : boundary < events.length) (hseq : events[boundary].seq = boundary) :
    checkBoundary id events boundary = .ok (some boundary) := by
  have hlt : ¬Json.maxSafeInteger < boundary := Nat.not_lt.mpr hsafe
  simp [checkBoundary, hlt, List.getElem?_eq_getElem hboundary, hseq]

theorem checkBoundary_some {id : String} {resolved : ℕ}
    (h : checkBoundary id events boundary = .ok (some resolved)) : resolved < events.length := by
  unfold checkBoundary at h
  by_cases hsafe : Json.maxSafeInteger < boundary
  · simp [hsafe] at h
  · cases hget : events[boundary]? with
    | none => simp [hsafe, hget] at h
    | some event =>
      obtain ⟨hlt, -⟩ := List.getElem?_eq_some_iff.mp hget
      by_cases hseq : event.seq = boundary
      · simp [hsafe, hget, hseq] at h
        omega
      · simp [hsafe, hget, hseq] at h

theorem child_events {child : Session} (hdeclared : DeclaredProjections projections)
    (hsource : ForkSource projections s) (hboundary : boundary < s.events.length) {now : ℤ}
    (hcreate : Session.create projections (some (buildForkSeed s.events boundary)) true
      (some (boundary + 1)) now = .ok child) :
    child.events = buildForkSeed s.events boundary ∧ child.inheritedEventCount = boundary + 1 ∧
    child.Valid projections ∧
    ∃ trace, runTrace child.events = .ok trace ∧ trace.openTurn = none ∧ trace.openStep = none := by
  have hmarked := marked_of_source hdeclared hsource hboundary
  have hconstructed := Session.create_spec hcreate
  have hcut := hconstructed.cut
  simp only [Option.getD_some, Option.isSome_some] at hcut
  rw [checkInherited_buildForkSeed hmarked] at hcut
  have hcount : child.inheritedEventCount = boundary + 1 := (Except.ok.inj hcut).symm
  have hevents : child.events = buildForkSeed s.events boundary := by
    have heq := hconstructed.events_eq
    rw [hcount] at heq
    simp only [Option.getD_some, Option.isSome_some] at heq
    rw [heq, seedMarkers_buildForkSeed hmarked, List.append_nil]
  obtain ⟨trace, htrace, hagrees⟩ := hmarked.traced
  obtain ⟨acc, -, hacc⟩ := hmarked.replays
  refine ⟨hevents, hcount, hconstructed.valid, ?_⟩
  rw [hevents, buildForkSeed]
  exact closers_traced htrace hagrees (seq_of_foldSurfaceState hacc) .forked

theorem forkSource_of_fork {child : Session} (hdeclared : DeclaredProjections projections)
    (hsource : ForkSource projections s) {id : String} {requested : Option ℕ} {now : ℤ}
    (hfork : s.fork projections id requested now = .ok child) : ForkSource projections child := by
  unfold Session.fork at hfork
  obtain ⟨resolved, hresolved, hcreate⟩ := bind_ok hfork
  have hvalid : child.Valid projections := by
    cases resolved with
    | none => exact (Session.create_spec hcreate).valid
    | some boundary => exact (Session.create_spec hcreate).valid
  refine ⟨hvalid, ?_⟩
  cases resolved with
  | none =>
    have hconstructed := Session.create_spec hcreate
    have hcut := hconstructed.cut
    have hcount : child.inheritedEventCount = 0 := (Except.ok.inj hcut).symm
    have hevents := hconstructed.events_eq
    rw [hcount] at hevents
    rw [hevents]
    exact ⟨_, rfl⟩
  | some boundary =>
    have hboundary : boundary < s.events.length := by
      unfold forkBoundary at hresolved
      split at hresolved
      · exact checkBoundary_some hresolved
      · exact checkBoundary_some hresolved
      · cases hresolved
    obtain ⟨-, -, -, trace, htrace, -⟩ := child_events hdeclared hsource hboundary hcreate
    exact ⟨trace, htrace⟩

theorem Lineage.forkSource (hdeclared : DeclaredProjections projections) (h : Lineage projections s) :
    ForkSource projections s := by
  induction h with
  | create hcreate htraced => exact ⟨(Session.create_spec hcreate).valid, htraced⟩
  | append _ call htraced ih => exact ⟨(ih.valid.append call).1, htraced⟩
  | deriveMessages _ ih =>
    obtain ⟨hvalid, hevents, -⟩ := ih.valid.deriveMessages
    exact ⟨hvalid, by rw [hevents]; exact ih.traced⟩
  | fork _ hfork ih => exact forkSource_of_fork hdeclared ih hfork

theorem fork_eq (hsource : ForkSource projections s) (hboundary : boundary < s.events.length)
    (hsafe : boundary ≤ Json.maxSafeInteger) (id : String) (now : ℤ) :
    s.fork projections id (some boundary) now
      = Session.create projections (some (buildForkSeed s.events boundary)) true
          (some (boundary + 1)) now := by
  obtain ⟨acc, hacc⟩ := hsource.valid.replays
  have hchecked : forkBoundary id s.events (some boundary) = .ok (some boundary) :=
    checkBoundary_ok hsafe hboundary (seq_of_foldSurfaceState hacc boundary hboundary)
  rw [Session.fork, hchecked]
  rfl

/-- Along every lineage, at every boundary: the fork is accepted exactly when the copied events
have the seed shape and no waiting call has an empty id, and every child obeys the fork law. -/
theorem fork_spec (hdeclared : DeclaredProjections projections)
    (hcurrent : CurrentProjections projections) {s : Session} (h : Lineage projections s)
    {boundary : ℕ} (hboundary : boundary < s.events.length)
    (hlength : (buildForkSeed s.events boundary).length ≤ Json.maxArrayLength) (id : String)
    (now : ℤ) :
    ((∃ child, s.fork projections id (some boundary) now = .ok child) ↔
      Forkable s.events boundary) ∧
    ∀ child, s.fork projections id (some boundary) now = .ok child →
      ForkLaw projections s boundary child ∧ Lineage projections child := by
  have hsource := h.forkSource hdeclared
  have hmarked := marked_of_source hdeclared hsource hboundary
  have hpre : (markedPrefix s.events boundary).length = boundary + 2 := by
    rw [markedPrefix, List.length_append, hmarked.length_take]
    rfl
  have hmax := Json.maxArrayLength_le
  have hshort : (markedPrefix s.events boundary).length ≤ Json.maxArrayLength := by
    rw [buildForkSeed, List.length_append] at hlength
    omega
  obtain ⟨trace, htrace, hagrees⟩ := hmarked.traced
  obtain ⟨acc, hacc, hacc'⟩ := hmarked.replays
  rw [fork_eq hsource hboundary (by omega)]
  refine ⟨?_, fun child hcreate => ⟨?_, ?_⟩⟩
  · rw [Session.create_ok_iff hdeclared]
    simp only [Option.getD_some, Option.isSome_some]
    rw [shaped_buildForkSeed hmarked hboundary hlength, checkInherited_buildForkSeed hmarked]
    have hreplays := closers_accepted hdeclared hagrees hshort ⟨acc, hacc'⟩ .forked
    exact and_iff_left ⟨hreplays, boundary + 1, rfl⟩
  · obtain ⟨hevents, hcount, hvalid, hbalanced⟩ :=
      child_events hdeclared hsource hboundary hcreate
    have hderived := derivedMessages_openTurnClosers hdeclared hcurrent hagrees hshort
      ⟨acc, hacc'⟩ .forked
    have hinherited : derivedMessages (markedPrefix s.events boundary) projections
        = derivedMessages (s.events.take (boundary + 1)) projections := by
      unfold derivedMessages
      rw [foldSurface_eq_map, foldSurface_eq_map, hacc, hacc']
      exact congrArg Except.ok (Session.surfaceMessages_append [_] (nodes_lt_length hacc))
    refine ⟨?_, hcount, ?_, ?_, hbalanced, ?_⟩
    · rw [hevents, buildForkSeed, markedPrefix, List.append_assoc,
        List.take_left' hmarked.length_take]
    · rw [hevents, getElem?_buildForkSeed hmarked]
      rfl
    · rw [hevents, drop_buildForkSeed hmarked, List.any_eq_false]
      exact fun event hmem => by simp [not_marker_of_closer hmem]
    · rw [hvalid.deriveMessages.2.2, hevents, buildForkSeed, hderived, hinherited]
  · have hfork : s.fork projections id (some boundary) now = .ok child := by
      rw [fork_eq hsource hboundary (by omega)]
      exact hcreate
    exact .fork h hfork

/-- A prompt without a message id. -/
def anonymousPrompt : AppendCall where
  type := .userMessage
  data := .obj [("id", .str ""), ("role", .str "user"),
    ("source", .obj [("kind", .str "user")]), ("content", .arr [])]
  surfaceOp := some (.str "append")
  time := 0

theorem lineage_append_blank (call : AppendCall)
    (htraced : ∃ trace, runTrace (Session.blank.append [] call).1.events = .ok trace) :
    Lineage [] (Session.blank.append [] call).1 := by
  have hcreate : Session.create [] none false none 0 = .ok Session.blank := rfl
  exact .append (.create hcreate ⟨_, rfl⟩) call htraced

/-- A live session whose only event it cannot be forked at. -/
theorem fork_refuses_anonymousPrompt : let s := (Session.blank.append [] anonymousPrompt).1
    Lineage [] s ∧ s.events.length = 1 ∧ ∀ child, s.fork [] "source" (some 0) 0 ≠ .ok child := by
  refine ⟨lineage_append_blank anonymousPrompt ⟨_, rfl⟩, by decide, ?_⟩
  intro child hfork
  have hcreate : Session.create [] (some (buildForkSeed
      (Session.blank.append [] anonymousPrompt).1.events 0)) true (some 1) 0 = .ok child := hfork
  have hshaped := (Session.create_spec hcreate).shaped
  exact absurd (hshaped 0 (by decide)) (by decide)

/-- The fork of a session that holds one prompt. -/
theorem fork_spec_prompt : let s := (Session.blank.append [] promptCall).1
    ((∃ child, s.fork [] "source" (some 0) 0 = .ok child) ↔ Forkable s.events 0) ∧
    ∀ child, s.fork [] "source" (some 0) 0 = .ok child →
      ForkLaw [] s 0 child ∧ Lineage [] child := by
  have hdeclared : DeclaredProjections [] := fun _ h => by cases h
  have hcurrent : CurrentProjections [] := fun _ h => by cases h
  exact fork_spec hdeclared hcurrent (lineage_append_blank promptCall ⟨_, rfl⟩) (by decide)
    (by decide) "source" 0

end TianmaCoder
