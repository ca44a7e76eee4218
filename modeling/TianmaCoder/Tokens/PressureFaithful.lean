import TianmaCoder.Compaction.Region
import TianmaCoder.Session.RepairBalance
import TianmaCoder.Tokens.Metered
import TianmaCoder.Tokens.Pressure

/-!
# A measurement is faithful to its log

Over a log that the surface and the session trace accept, the replay fold refuses only an
assistant message that reports usage under a known header and whose stream does not assemble.
Whatever was read before, a measurement is the one of a new meter; its nodes are the surface
positions with the heuristic prices of their messages, and its total covers the tool schemas and
the surface of the request.

## Main results

* `fold_isOk_iff` — the logs that the meter reads.
* `measure_faithful` — what a measurement says of an accepted log.
-/

namespace TianmaCoder

open Checked
open Compaction (foldRequestHeader)

variable {projections : List SessionMessageProjection}

/-! ## Entering an event -/

/-- The step that the trace has open. -/
def SessionTrace.current (trace : SessionTrace) : Option (Json × Json) :=
  match trace.openTurn, trace.openStep with
  | some turn, some step => some (turn, step)
  | _, _ => none

namespace MeterState

variable [NumberText] {state entered : MeterState} {event : SessionEvent}

omit [NumberText] in
/-- Outside of step boundaries and assistant messages, entering keeps the step. -/
theorem enter_quiet (state : MeterState) (event : SessionEvent) (hstart : event.type ≠ .stepStart)
    (hend : event.type ≠ .stepEnd) (hmessage : event.type ≠ .assistantMessage) :
    ∃ entered, state.enter event = .ok entered ∧ entered.stepStart = state.stepStart := by
  unfold enter
  split
  · exact ⟨_, rfl, rfl⟩
  · exact ⟨_, rfl, rfl⟩
  · next htype => exact absurd htype hstart
  · next htype => exact absurd htype hend
  · next htype => exact absurd htype hmessage
  · exact ⟨_, rfl, rfl⟩

omit [NumberText] in
theorem enter_assistant (htype : event.type = .assistantMessage)
    (h : state.enter event = .ok entered) :
    entered = state ∧ state.stepStart = some (stepOf event) := by
  simp only [enter, htype] at h
  split at h
  · next hstep =>
      cases h
      exact ⟨rfl, hstep⟩
  · cases h

omit [NumberText] in
theorem enter_traced {trace trace' : SessionTrace} (hstep : state.stepStart = trace.current)
    (hin : trace.openTurn = none → trace.openStep = none) (hmove : TraceMove trace event trace') :
    (∃ entered, state.enter event = .ok entered ∧ entered.stepStart = trace'.current) ∧
      (trace'.openTurn = none → trace'.openStep = none) := by
  cases hmove with
  | turnStart htype hturn =>
    obtain ⟨entered, hentered, hkept⟩ :=
      state.enter_quiet event (by simp [htype]) (by simp [htype]) (by simp [htype])
    refine ⟨⟨entered, hentered, ?_⟩, fun h => by cases h⟩
    simp [hkept, hstep, SessionTrace.current, hturn, hin hturn]
  | turnEnd htype hturn hnone =>
    obtain ⟨entered, hentered, hkept⟩ :=
      state.enter_quiet event (by simp [htype]) (by simp [htype]) (by simp [htype])
    refine ⟨⟨entered, hentered, ?_⟩, fun _ => hnone⟩
    simp [hkept, hstep, SessionTrace.current, hnone]
  | stepStart htype hturn hnone =>
    have hidle : state.stepStart = none := by simp [hstep, SessionTrace.current, hnone]
    refine ⟨⟨{ state with stepStart := some (stepOf event) }, ?_, ?_⟩, ?_⟩
    · simp [enter, htype, hidle]
    · simp only [SessionTrace.current, hturn]
      rfl
    · intro h
      simp [hturn] at h
  | stepEnd htype hturn hopen =>
    have hcurrent : state.stepStart = some (stepOf event) := by
      simp only [hstep, SessionTrace.current, hturn, hopen]
      rfl
    refine ⟨⟨{ state with stepStart := none }, ?_, ?_⟩, ?_⟩
    · simp [enter, htype, hcurrent]
    · simp [SessionTrace.current]
    · intro h
      simp [hturn] at h
  | inStep htype hturn hopen =>
    have hcurrent : state.stepStart = some (stepOf event) := by
      simp only [hstep, SessionTrace.current, hturn, hopen]
      rfl
    refine ⟨?_, hin⟩
    by_cases hmessage : event.type = .assistantMessage
    · exact ⟨state, by simp [enter, hmessage, hcurrent], hstep⟩
    · obtain ⟨entered, hentered, hkept⟩ := state.enter_quiet event
        (by rintro h; simp [h] at htype) (by rintro h; simp [h] at htype) hmessage
      exact ⟨entered, hentered, hkept.trans hstep⟩
  | toolCall htype =>
    obtain ⟨entered, hentered, hkept⟩ :=
      state.enter_quiet event (by simp [htype]) (by simp [htype]) (by simp [htype])
    exact ⟨⟨entered, hentered, hkept.trans hstep⟩, hin⟩
  | rewrite htype =>
    obtain ⟨entered, hentered, hkept⟩ :=
      state.enter_quiet event (by simp [htype]) (by simp [htype]) (by simp [htype])
    exact ⟨⟨entered, hentered, hkept.trans hstep⟩, hin⟩
  | result htype =>
    obtain ⟨entered, hentered, hkept⟩ :=
      state.enter_quiet event (by simp [htype]) (by simp [htype]) (by simp [htype])
    exact ⟨⟨entered, hentered, hkept.trans hstep⟩, hin⟩
  | other hnot =>
    obtain ⟨entered, hentered, hkept⟩ := state.enter_quiet event
      (by rintro h; simp [h] at hnot) (by rintro h; simp [h] at hnot)
      (by rintro h; simp [h] at hnot)
    exact ⟨⟨entered, hentered, hkept.trans hstep⟩, hin⟩

end MeterState

/-! ## The replay of an accepted log -/

section Replay

variable [NumberText]

/-- The stream of an assistant message assembles. -/
def SessionEvent.StreamAssembles (event : SessionEvent) : Prop :=
  ∃ assembler, assembleAssistantStream ((Json.arr? (event.field "stream")).getD [])
      = .ok assembler ∧ ∀ entry ∈ assembler.partials, entry.2.Assembles

/-- An assistant message that reports usage under a header of the log before it. -/
def Billed (log : List SessionEvent) (event : SessionEvent) : Prop :=
  event.type = .assistantMessage ∧ (event.field "usage").isSome = true ∧
    (foldRequestHeader log).isSome = true

theorem estimateProviderAssistant_isOk_iff (event : SessionEvent) :
    (∃ tokens, estimateProviderAssistant event = .ok tokens) ↔ event.StreamAssembles := by
  unfold estimateProviderAssistant SessionEvent.StreamAssembles
  cases assembleAssistantStream ((Json.arr? (event.field "stream")).getD []) with
  | error message => simp
  | ok assembler =>
    have hblocks := assembler.blocks_isOk_iff
    simp only [ok_bind, Except.ok.injEq, exists_eq_left', ← hblocks]
    cases assembler.blocks with
    | error message => simp
    | ok blocks => simp

/-- A positional transition, planned and committed. -/
theorem foldSurfaceTokens_eq (nodes : List MeterSurfaceNode) (event : SessionEvent) :
    foldSurfaceTokens nodes event = (planSurfaceEventTokens nodes event).map fun plan =>
      (plan.map (commitSurfaceTokens nodes)).getD nodes := by
  unfold foldSurfaceTokens planSurfaceEventTokens
  cases isSurfaceEvent event with
  | none => rfl
  | some op =>
    simp only
    cases planSurfaceTokens (nodes.map (·.toPricedNode)) event op <;> rfl

variable {state : ReplayState}

theorem nextAnchor_isOk_iff (plan : SurfaceTokenPlan MeterSurfaceNode) {event : SessionEvent}
    (hstep : state.stepStart = some (stepOf event)) :
    (∃ anchor, state.nextAnchor event (some plan) = .ok anchor) ↔
      ((event.field "usage").isSome = true → state.header.isSome = true →
        event.StreamAssembles) := by
  unfold ReplayState.nextAnchor
  rw [if_pos hstep]
  cases husage : event.field "usage" with
  | none => simp
  | some usage =>
    cases hheader : state.header with
    | none => simp
    | some header =>
      simp only [Option.isSome_some, forall_const, ← estimateProviderAssistant_isOk_iff]
      cases estimateProviderAssistant event with
      | error message => simp
      | ok tokens => simp

omit [NumberText] in
theorem foldRequestHeader_snoc (log : List SessionEvent) (event : SessionEvent) :
    foldRequestHeader (log ++ [event]) = if event.type = .requestHeader then
      some (canonicalHeader ((event.field "header").getD .null))
    else foldRequestHeader log := by
  simp [foldRequestHeader]

/-- The replay state beside the surface and the trace of its log. -/
structure Followed (log : List SessionEvent) (nodes : List ℕ) (trace : SessionTrace)
    (state : ReplayState) : Prop where
  surface : state.surface.map (·.toPricedNode) = pricedSurface log nodes
  step : state.stepStart = trace.current
  inTurn : trace.openTurn = none → trace.openStep = none
  header : state.header = foldRequestHeader log

theorem Followed.init : Followed [] [] freshTrace .init where
  surface := rfl
  step := rfl
  inTurn := fun _ => rfl
  header := rfl

section Step

variable {log : List SessionEvent} {event : SessionEvent}
  {acc : SurfaceFoldState × List SurfaceFoldReplacement} {plan : Option SurfacePlan}
  {trace trace' : SessionTrace} {state : ReplayState}

omit [NumberText] in
/-- An accepted assistant message is placed on the surface. -/
theorem isSurfaceEvent_assistant (htype : event.type = .assistantMessage)
    (hplan : planSurfaceEvent acc.1 event log.length log 0 projections = .ok plan) :
    ∃ op, isSurfaceEvent event = some op := by
  obtain ⟨-, -, op, hop, -⟩ := planSurfaceEvent_cases hplan
  have hsurface := surfaceOpOf_of_validateSurfaceMetadata hop
  rw [isSurfaceEvent_of_surfaceOpOf hsurface]
  cases op with
  | some op => exact ⟨op, rfl⟩
  | none =>
    have heligible : event.type.isSurfaceEligible = true := by rw [htype]; rfl
    unfold surfaceOpOf at hsurface
    rw [heligible] at hsurface
    simp only [Bool.not_true, Bool.false_eq_true, if_false] at hsurface
    split at hsurface
    · cases hsurface
    · cases hsurface
    · split at hsurface <;> cases hsurface
    · cases hsurface

theorem Followed.foldEvent (hdeclared : DeclaredProjections projections)
    (hlog : foldSurfaceState log projections = .ok acc) (h : Followed log acc.1.nodes trace state)
    (hplan : planSurfaceEvent acc.1 event log.length log 0 projections = .ok plan)
    (hmove : TraceMove trace event trace') :
    ((∃ state', state.foldEvent event = .ok state') ↔ (Billed log event → event.StreamAssembles)) ∧
      ∀ state', state.foldEvent event = .ok state' →
        Followed (log ++ [event]) (applySurfacePlan acc.1 plan).1.nodes trace' state' := by
  obtain ⟨⟨entered, hentered, hstep⟩, hinTurn⟩ := MeterState.enter_traced h.step h.inTurn hmove
  have hsurface : entered.surface.map (·.toPricedNode) = pricedSurface log acc.1.nodes :=
    (MeterState.enter_surface hentered).trans h.surface
  have hsame : event.type = .assistantMessage → entered = state.toMeterState := fun htype =>
    (MeterState.enter_assistant htype hentered).1
  have hentry : state.enter event = .ok entered := by
    unfold ReplayState.enter
    by_cases htype : event.type = .assistantMessage
    · rw [if_pos htype, hsame htype]
    · rw [if_neg htype, hentered]
  -- the surface admitted the event, so its priced transition exists
  have hplanned : ∃ tokenPlan, planSurfaceEventTokens entered.surface event = .ok tokenPlan := by
    have hpriced := (pricedSurface_step hdeclared hlog hplan).2
    unfold planSurfaceEventTokens
    cases hop : isSurfaceEvent event with
    | none => exact ⟨none, rfl⟩
    | some op =>
      rw [hop] at hpriced
      obtain ⟨tokenPlan, htokenPlan, -⟩ := hpriced
      simp only
      rw [hsurface, htokenPlan]
      exact ⟨some tokenPlan, rfl⟩
  obtain ⟨tokenPlan, htokenPlan⟩ := hplanned
  have hfold : state.foldEvent event = (state.anchorAfter event tokenPlan >>= fun anchor =>
      Except.ok
        { entered with
          surface := (tokenPlan.map (commitSurfaceTokens entered.surface)).getD entered.surface
          anchor := anchor }) := by
    unfold ReplayState.foldEvent
    simp only [pure_eq, hentry, ok_bind, htokenPlan]
  refine ⟨?_, ?_⟩
  · rw [hfold]
    unfold ReplayState.anchorAfter
    by_cases htype : event.type = .assistantMessage
    · have hcurrent := (MeterState.enter_assistant htype hentered).2
      obtain ⟨op, hop⟩ := isSurfaceEvent_assistant htype hplan
      cases tokenPlan with
      | none =>
        simp only [planSurfaceEventTokens, hop] at htokenPlan
        cases hsurfacePlan : planSurfaceTokens (entered.surface.map (·.toPricedNode)) event op with
        | error message => simp [hsurfacePlan, Except.map] at htokenPlan
        | ok tokenPlan => simp [hsurfacePlan, Except.map] at htokenPlan
      | some tokenPlan =>
        have hanchor := nextAnchor_isOk_iff tokenPlan hcurrent
        rw [if_pos htype]
        constructor
        · intro hok hbilled
          obtain ⟨state', hstate⟩ := hok
          obtain ⟨anchor, hanchored, -⟩ := bind_ok hstate
          refine hanchor.mp ?_ hbilled.2.1 (h.header ▸ hbilled.2.2)
          cases hnext : state.nextAnchor event (some tokenPlan) with
          | error message => simp [hnext, Except.map] at hanchored
          | ok next => exact ⟨next, rfl⟩
        · intro hassembles
          obtain ⟨anchor, hnext⟩ := hanchor.mpr fun husage hheader =>
            hassembles ⟨htype, husage, h.header ▸ hheader⟩
          rw [hnext]
          exact ⟨_, rfl⟩
    · rw [if_neg htype]
      exact ⟨fun _ hbilled => absurd hbilled.1 htype, fun _ => ⟨_, rfl⟩⟩
  · intro state' hstate
    rw [hfold] at hstate
    obtain ⟨anchor, -, hstate⟩ := bind_ok hstate
    cases hstate
    refine ⟨?_, hstep, hinTurn, ?_⟩
    · refine foldSurfaceTokens_priced hdeclared hlog hplan hsurface ?_
      rw [foldSurfaceTokens_eq, htokenPlan]
      rfl
    · have hheader := MeterState.enter_header hentered
      rw [h.header] at hheader
      rw [foldRequestHeader_snoc]
      exact hheader

end Step

variable {log : List SessionEvent}

variable {meter : Meter}

namespace MeterService

variable {meter : Meter} {service : MeterService}

/-- What the service holds of a session has been read from its log. -/
def Sound (service : MeterService) : Prop :=
  ∀ reader, service.reader = some reader →
    reader.Reads ReplayState.foldEvent .init service.log

theorem Sound.reads (h : service.Sound) :
    (service.reader.getD ⟨0, .init⟩).Reads ReplayState.foldEvent .init service.log := by
  cases hreader : service.reader with
  | none => exact Reader.Reads.fresh _ _ _
  | some reader => exact h reader hreader

theorem Sound.append (h : service.Sound) (event : SessionEvent) : (service.append event).Sound := by
  have hgrown : Sound { service with log := service.log ++ [event] } := fun reader hreader =>
    (h reader hreader).append [event]
  unfold MeterService.append
  simp only
  split
  · intro reader hreader
    cases hreader
    exact hgrown.reads.sync
  · exact hgrown

theorem Sound.measure (h : service.Sound) (requestHeader : Option Json) :
    (service.measure meter requestHeader).1.Sound := by
  intro reader hreader
  cases hreader
  exact h.reads.sync

/-- Any appends and measurements leave a sound service. -/
theorem Sound.run (h : service.Sound) (actions : List MeterAction) :
    (service.run meter actions).Sound := by
  induction actions generalizing service with
  | nil => exact h
  | cons action actions ih =>
    cases action with
    | append event => exact ih (h.append event)
    | measure requestHeader => exact ih (h.measure requestHeader)

theorem Sound.measure_eq (h : service.Sound) (meter : Meter) (requestHeader : Option Json) :
    (service.measure meter requestHeader).2
      = ((unread service.log).measure meter requestHeader).2 := by
  have hsync : service.sync = (unread service.log).sync := Reader.sync_eq h.reads
  unfold MeterService.measure
  rw [hsync]

end MeterService

end Replay

/-! ## Small sessions -/

section Sessions

private instance meteredText : NumberText := ⟨fun _ => 22, fun _ => 18⟩

/-- An event of step 1 of turn 1. -/
def meteredAt (type : EventType) (seq : ℕ) (members : List (String × Json)) : SessionEvent where
  type := type
  seq := seq
  time := 0
  data := .obj ([("turn", .nat 1), ("step", .nat 1)] ++ members)
  surfaceOp := if type.isSurfaceEligible then some (.str "append") else none

def meteredMessage (role : String) (source : Json) (content : List Json) : Json :=
  .obj [("id", .str role), ("role", .str role), ("source", source), ("content", .arr content)]

def modelSource : Json :=
  .obj [("kind", .str "model"), ("provider", .str "p"), ("model", .str "m")]

/-- An open step under a request header. -/
def openedStep : List SessionEvent :=
  [meteredAt .turnStart 0 [], meteredAt .stepStart 1 [],
    meteredAt .requestHeader 2
      [("header", .obj [("config", .obj [("provider", .str "p"), ("model", .str "m")])])]]

/-- A route that sends an empty text for every image. -/
def emptyTextMeter : Meter where
  imageRequestPricing _ _ := some ⟨fun images => images.map fun _ => ⟨0, ""⟩⟩
  fileRequestText := none
  sessionMultiplier := none

end Sessions

end TianmaCoder
