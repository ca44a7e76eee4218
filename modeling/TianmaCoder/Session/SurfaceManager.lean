import TianmaCoder.Lib.Machine
import TianmaCoder.Session.SurfaceFold

/-!
# The incremental surface

A `SurfaceManager` folds the events of a live log lazily and caches the plan of the last
validated candidate, which it commits without planning again when exactly that candidate is
admitted at exactly that position. Events are frozen objects compared by identity: the log
holds references, and `heap` says which event a reference denotes.

The abstract view of a live log is the replay of the log as it stands. `manager_simulates`
shows that every answer of the manager is the answer of the replay, however validations,
admissions and reads interleave; the cached plan is sound because it was made for the prefix
of the log below its own position, and that prefix never changes.

## Main definitions

* `SurfaceManager`, `validateNext`, `processDelta` — the lazy fold and its cached plan.
* `managerMachine`, `replayMachine` — a live log under the manager, and under full replay.
-/

namespace TianmaCoder

open Checked

/-- The identity of an event object. -/
abbrev Ref := ℕ

/-- A candidate already validated by `validateNext`, pending exact log admission. -/
structure PendingPlan where
  event : Ref
  expectedSeq : ℕ
  plan : Option SurfacePlan
  deriving DecidableEq

/-- Incremental ordered surface view and append-boundary validator. -/
structure SurfaceManager where
  state : SurfaceFoldState
  /-- The position after the last processed event. -/
  nextSeq : ℕ
  pendingPlan : Option PendingPlan
  deriving DecidableEq

namespace SurfaceManager

/-- The manager of a log none of whose events it has processed. -/
def create : SurfaceManager where
  state := createFoldState
  nextSeq := 0
  pendingPlan := none

variable (heap : Ref → SessionEvent) (projections : List SessionMessageProjection)

/-- The definitions a read depends on: those used, and the one an admitted candidate uses. -/
def requiredProjections (log : List Ref) (m : SurfaceManager) : List ProjectionRef :=
  match m.pendingPlan with
  | some candidate =>
    if log[candidate.expectedSeq]? = some candidate.event then
      match candidate.plan with
      | some (.project projection _) => m.state.projections ++ [projection]
      | _ => m.state.projections
    else m.state.projections
  | none => m.state.projections

/-- Cached messages cannot outlive the definitions that interpreted their log. -/
def assertProjections (log : List Ref) (m : SurfaceManager) : Except String Unit :=
  match (m.requiredProjections log).find? fun projection =>
      projection ∉ projections.map (·.toProjectionRef) with
  | some projection => throw
      s!"session message projection \"{projection.type.name}\" was removed or replaced; restore the session with its owning plugin"
  | none => pure ()

/-- The state after the event at `nextSeq`: the pending plan when it was made for exactly this
event here, a fresh plan otherwise. -/
def advance (log : List Ref) (event : Ref) (m : SurfaceManager) : Except String SurfaceFoldState :=
  match m.pendingPlan with
  | some pending =>
    if pending.event = event ∧ pending.expectedSeq = m.nextSeq then
      pure (applySurfacePlan m.state pending.plan).1
    else
      Prod.fst <$> applySurfaceEvent m.state (heap event) m.nextSeq (log.map heap) 0 projections
  | none =>
    Prod.fst <$> applySurfaceEvent m.state (heap event) m.nextSeq (log.map heap) 0 projections

/-- The manager after the event at `nextSeq` was committed; a plan made for this position or
an earlier one is stale. -/
def commit (m : SurfaceManager) (state : SurfaceFoldState) : SurfaceManager where
  state := state
  nextSeq := m.nextSeq + 1
  pendingPlan := m.pendingPlan.filter fun pending => m.nextSeq < pending.expectedSeq

/-- Fold the events `rest` appended since the previous access. A refused event leaves the
manager at the events before it. -/
def processDelta (log : List Ref) : List Ref → SurfaceManager →
    SurfaceManager × Except String Unit
  | [], m => (m, .ok ())
  | event :: rest, m =>
    match m.advance heap projections log event with
    | .error message => (m, .error message)
    | .ok state => processDelta log rest (m.commit state)

/-- What every read does first. -/
def refresh (log : List Ref) (m : SurfaceManager) : SurfaceManager × Except String Unit :=
  match m.assertProjections projections log with
  | .error message => (m, .error message)
  | .ok () => processDelta heap projections log (log.drop m.nextSeq) m

/-- Validate the next candidate without mutating the committed surface. -/
def validateNext (log : List Ref) (event : Ref) (m : SurfaceManager) :
    SurfaceManager × Except String Unit :=
  match m.refresh heap projections log with
  | (m, .error message) => (m, .error message)
  | (m, .ok ()) =>
    match planSurfaceEvent m.state (heap event) log.length (log.map heap) 0 projections with
    | .error message => (m, .error message)
    | .ok plan => ({ m with pendingPlan := some ⟨event, log.length, plan⟩ }, .ok ())

/-- A getter: refresh, then read the state. -/
def read {α : Type} (value : SurfaceFoldState → α) (log : List Ref) (m : SurfaceManager) :
    SurfaceManager × Except String α :=
  match m.refresh heap projections log with
  | (m, .error message) => (m, .error message)
  | (m, .ok ()) => (m, .ok (value m.state))

/-! ## The invariant of the cache -/

variable {heap projections}

/-- The manager holds the replay of the first `nextSeq` events, and its pending plan is the one
the replay would make for the candidate at the candidate's own position. -/
structure Tracks (heap : Ref → SessionEvent) (projections : List SessionMessageProjection)
    (log : List Ref) (m : SurfaceManager) : Prop where
  cursor_le : m.nextSeq ≤ log.length
  state_eq : ∃ replacements,
    foldSurfaceState ((log.take m.nextSeq).map heap) projections = .ok (m.state, replacements)
  pending_sound : ∀ pending, m.pendingPlan = some pending →
    m.nextSeq ≤ pending.expectedSeq ∧ pending.expectedSeq ≤ log.length ∧
    ∃ acc, foldSurfaceState ((log.take pending.expectedSeq).map heap) projections = .ok acc ∧
      planSurfaceEvent acc.1 (heap pending.event) pending.expectedSeq
        ((log.take pending.expectedSeq).map heap) 0 projections = .ok pending.plan

theorem tracks_create (log : List Ref) : Tracks heap projections log create where
  cursor_le := Nat.zero_le _
  state_eq := ⟨[], rfl⟩
  pending_sound := fun pending h => by cases h

variable {log : List Ref} {m : SurfaceManager}

/-- A push extends the log and touches nothing else. -/
theorem Tracks.push (h : Tracks heap projections log m) (event : Ref) :
    Tracks heap projections (log ++ [event]) m where
  cursor_le := by
    rw [List.length_append]
    exact Nat.le_add_right_of_le h.cursor_le
  state_eq := by
    rw [List.take_append_of_le_length h.cursor_le]
    exact h.state_eq
  pending_sound := by
    intro pending hpending
    obtain ⟨hcursor, hlen, hplan⟩ := h.pending_sound pending hpending
    refine ⟨hcursor, ?_, ?_⟩
    · rw [List.length_append]
      exact Nat.le_add_right_of_le hlen
    · rw [List.take_append_of_le_length hlen]
      exact hplan

theorem projections_subset {log : List SessionEvent}
    {acc : SurfaceFoldState × List SurfaceFoldReplacement}
    (h : foldSurfaceState log projections = .ok acc) :
    ∀ projection ∈ acc.1.projections, projection ∈ projections.map (·.toProjectionRef) := by
  refine foldSurfaceState_induction
    (motive := fun _ acc => ∀ p ∈ acc.1.projections, p ∈ projections.map (·.toProjectionRef))
    (fun p hmem => by cases hmem) ?_ h
  intro log event acc plan _ ih hplan p hmem
  obtain ⟨-, -, op, -, hcase⟩ := planSurfaceEvent_cases hplan
  rcases hcase with ⟨projection, messages, hfind, -, rfl⟩ | ⟨-, -, hmove⟩
  · simp only [applySurfacePlan] at hmem
    split at hmem
    · exact ih p hmem
    · rcases List.mem_append.mp hmem with hold | hnew
      · exact ih p hold
      · rw [List.mem_singleton.mp hnew]
        exact List.mem_map_of_mem (List.mem_of_find?_eq_some hfind)
  · cases hmove <;> exact ih p hmem

/-- A plan uses a given definition. -/
theorem projection_mem_of_plan {state : SurfaceFoldState} {event : SessionEvent} {n : ℕ}
    {events : List SessionEvent} {projection : ProjectionRef} {messages : OrderedMap ℕ Json}
    (h : planSurfaceEvent state event n events 0 projections
      = .ok (some (.project projection messages))) :
    projection ∈ projections.map (·.toProjectionRef) := by
  obtain ⟨-, -, op, -, hcase⟩ := planSurfaceEvent_cases h
  rcases hcase with ⟨definition, _, hfind, -, hplan⟩ | ⟨-, -, hmove⟩
  · cases hplan
    exact List.mem_map_of_mem (List.mem_of_find?_eq_some hfind)
  · cases hmove

/-- Under a fixed set of definitions no definition is ever missing. -/
theorem Tracks.assertProjections_ok (h : Tracks heap projections log m) :
    m.assertProjections projections log = .ok () := by
  have hused : ∀ p ∈ m.state.projections, p ∈ projections.map (·.toProjectionRef) := by
    obtain ⟨replacements, hstate⟩ := h.state_eq
    exact projections_subset hstate
  have hrequired : ∀ p ∈ m.requiredProjections log, p ∈ projections.map (·.toProjectionRef) := by
    intro p hmem
    unfold requiredProjections at hmem
    cases hpending : m.pendingPlan with
    | none =>
      simp only [hpending] at hmem
      exact hused p hmem
    | some pending =>
      simp only [hpending] at hmem
      obtain ⟨-, -, acc, -, hplan⟩ := h.pending_sound pending hpending
      split at hmem
      · split at hmem
        · rename_i projection messages hproject
          rcases List.mem_append.mp hmem with hold | hnew
          · exact hused p hold
          · rw [List.mem_singleton.mp hnew]
            rw [hproject] at hplan
            exact projection_mem_of_plan hplan
        · exact hused p hmem
      · exact hused p hmem
  unfold assertProjections
  rw [List.find?_eq_none.mpr]
  · rfl
  · intro p hmem
    simpa using hrequired p hmem

/-! ## One step of the lazy fold -/

theorem Tracks.advance_eq (h : Tracks heap projections log m) {event : Ref}
    (hget : log[m.nextSeq]? = some event) {replacements : List SurfaceFoldReplacement}
    (hstate : foldSurfaceState ((log.take m.nextSeq).map heap) projections
      = .ok (m.state, replacements)) :
    m.advance heap projections log event
      = Prod.fst <$> foldSurfaceState ((log.take (m.nextSeq + 1)).map heap) projections := by
  have hlt : m.nextSeq < log.length := (List.getElem?_eq_some_iff.mp hget).1
  have hlen : ((log.take m.nextSeq).map heap).length = m.nextSeq := by
    simp [Nat.min_eq_left (Nat.le_of_lt hlt)]
  have htake : (log.take (m.nextSeq + 1)).map heap
      = (log.take m.nextSeq).map heap ++ [heap event] := by
    rw [List.take_add_one, hget]
    simp
  have hpre : (log.map heap).take m.nextSeq
      = ((log.take m.nextSeq).map heap).take m.nextSeq := by
    rw [← List.map_take, List.take_of_length_le (Nat.le_of_eq hlen)]
  have hbelow : ∀ seq ∈ m.state.nodes, seq < m.nextSeq := by
    intro seq hmem
    have hlt := nodes_lt_length hstate seq hmem
    rwa [hlen] at hlt
  -- A fresh plan over the whole log reads the processed prefix only.
  have hfresh : Prod.fst <$> applySurfaceEvent m.state (heap event) m.nextSeq (log.map heap) 0
        projections
      = Prod.fst <$> foldSurfaceState ((log.take (m.nextSeq + 1)).map heap) projections := by
    rw [htake, foldSurfaceState_snoc, hstate, hlen, ok_bind, foldSurfaceStep, applySurfaceEvent,
      applySurfaceEvent, planSurfaceEvent_window (heap event) projections hpre hbelow]
    cases planSurfaceEvent m.state (heap event) m.nextSeq ((log.take m.nextSeq).map heap) 0
      projections <;> rfl
  unfold advance
  cases hpending : m.pendingPlan with
  | none => exact hfresh
  | some pending =>
    simp only
    split
    · rename_i hexact
      obtain ⟨hevent, hseq⟩ := hexact
      obtain ⟨-, -, acc, hacc, hplan⟩ := h.pending_sound pending hpending
      rw [hseq] at hacc hplan
      rw [hstate] at hacc
      cases hacc
      rw [hevent] at hplan
      rw [htake, foldSurfaceState_snoc, hstate, hlen, ok_bind,
        foldSurfaceStep_ok_iff.mpr ⟨pending.plan, hplan, rfl⟩]
      rfl
    · exact hfresh

theorem Tracks.commit (h : Tracks heap projections log m) (hlt : m.nextSeq < log.length)
    {acc : SurfaceFoldState × List SurfaceFoldReplacement}
    (hacc : foldSurfaceState ((log.take (m.nextSeq + 1)).map heap) projections = .ok acc) :
    Tracks heap projections log (m.commit acc.1) where
  cursor_le := hlt
  state_eq := ⟨acc.2, hacc⟩
  pending_sound := by
    intro pending hpending
    obtain ⟨hold, hlater⟩ := Option.filter_eq_some_iff.mp hpending
    obtain ⟨-, hlen, hplan⟩ := h.pending_sound pending hold
    exact ⟨Nat.succ_le_of_lt (by simpa using hlater), hlen, hplan⟩

theorem foldSurfaceState_error_append {events more : List SessionEvent} {message : String}
    (h : foldSurfaceState events projections = .error message) :
    foldSurfaceState (events ++ more) projections = .error message := by
  induction more using List.reverseRecOn with
  | nil => rwa [List.append_nil]
  | append_singleton more event ih =>
    rw [← List.append_assoc, foldSurfaceState_snoc, ih]
    rfl

/-- The result of catching up with the log: the refusal of the replay, or its state. -/
inductive CaughtUp (heap : Ref → SessionEvent) (projections : List SessionMessageProjection)
    (log : List Ref) : SurfaceManager × Except String Unit → Prop
  | refused {m : SurfaceManager} {message : String} (tracks : Tracks heap projections log m)
      (hfold : foldSurfaceState (log.map heap) projections = .error message) :
      CaughtUp heap projections log (m, .error message)
  | done {m : SurfaceManager} {replacements : List SurfaceFoldReplacement}
      (tracks : Tracks heap projections log m) (hcursor : m.nextSeq = log.length)
      (hfold : foldSurfaceState (log.map heap) projections = .ok (m.state, replacements)) :
      CaughtUp heap projections log (m, .ok ())

section

variable (h : Tracks heap projections log m)
include h

/-- The lazy fold ends where the replay ends, and refuses what the replay refuses. -/
theorem Tracks.processDelta {rest : List Ref}
    (hrest : log.drop m.nextSeq = rest) :
    CaughtUp heap projections log (m.processDelta heap projections log rest) := by
  induction rest generalizing m with
  | nil =>
    have hlen : m.nextSeq = log.length :=
      Nat.le_antisymm h.cursor_le (List.drop_eq_nil_iff.mp hrest)
    obtain ⟨replacements, hstate⟩ := h.state_eq
    rw [hlen, List.take_length] at hstate
    exact .done h hlen hstate
  | cons event rest ih =>
    have hlt : m.nextSeq < log.length := by
      by_contra hge
      rw [List.drop_eq_nil_of_le (Nat.le_of_not_lt hge)] at hrest
      cases hrest
    have hget : log[m.nextSeq]? = some event := by
      rw [← List.head?_drop, hrest]
      rfl
    obtain ⟨replacements, hstate⟩ := h.state_eq
    have hadvance := h.advance_eq hget hstate
    cases hnext : foldSurfaceState ((log.take (m.nextSeq + 1)).map heap) projections with
    | error message =>
      rw [hnext] at hadvance
      have hfull : foldSurfaceState (log.map heap) projections = .error message := by
        rw [← List.take_append_drop (m.nextSeq + 1) log, List.map_append]
        exact foldSurfaceState_error_append hnext
      have hresult : m.processDelta heap projections log (event :: rest)
          = (m, .error message) := by
        rw [SurfaceManager.processDelta, hadvance]
        rfl
      rw [hresult]
      exact .refused h hfull
    | ok acc =>
      rw [hnext] at hadvance
      have hresult : m.processDelta heap projections log (event :: rest)
          = (m.commit acc.1).processDelta heap projections log rest := by
        rw [SurfaceManager.processDelta, hadvance]
        rfl
      rw [hresult]
      refine ih (h.commit hlt hnext) ?_
      rw [SurfaceManager.commit, ← List.drop_drop, hrest]
      rfl

/-- Every access first catches up with the log. -/
theorem Tracks.refresh :
    CaughtUp heap projections log (m.refresh heap projections log) := by
  rw [SurfaceManager.refresh, h.assertProjections_ok]
  exact h.processDelta rfl

/-- A getter answers with the replay's value. -/
theorem Tracks.read {α : Type} (value : SurfaceFoldState → α) :
    Tracks heap projections log (m.read heap projections value log).1 ∧
      (m.read heap projections value log).2
        = (fun acc => value acc.1) <$> foldSurfaceState (log.map heap) projections := by
  unfold SurfaceManager.read
  have hcaught := h.refresh
  generalize m.refresh heap projections log = result at hcaught ⊢
  cases hcaught with
  | refused tracks hfold => exact ⟨tracks, by rw [hfold]; rfl⟩
  | done tracks hcursor hfold => exact ⟨tracks, by rw [hfold]; rfl⟩

/-- A candidate is accepted exactly when the replay accepts the log extended with it. -/
theorem Tracks.validateNext (event : Ref) :
    Tracks heap projections log (m.validateNext heap projections log event).1 ∧
      (m.validateNext heap projections log event).2
        = (fun _ => ()) <$> foldSurfaceState ((log ++ [event]).map heap) projections := by
  rw [List.map_append, List.map_singleton, foldSurfaceState_snoc]
  unfold SurfaceManager.validateNext
  have hcaught := h.refresh
  generalize m.refresh heap projections log = result at hcaught ⊢
  cases hcaught with
  | refused tracks hfold => exact ⟨tracks, by rw [hfold]; rfl⟩
  | @done m' replacements tracks hcursor hfold =>
    rw [hfold, ok_bind, List.length_map, foldSurfaceStep, applySurfaceEvent]
    cases hplan : planSurfaceEvent m'.state (heap event) log.length (log.map heap) 0
        projections with
    | error message =>
      simp only [hplan]
      exact ⟨tracks, rfl⟩
    | ok plan =>
      simp only [hplan]
      refine ⟨⟨tracks.cursor_le, tracks.state_eq, ?_⟩, rfl⟩
      intro pending hpending
      cases hpending
      simp only [List.take_length]
      exact ⟨Nat.le_of_eq hcursor, Nat.le_refl _, _, hfold, hplan⟩

end

end SurfaceManager

/-! ## A live log under the manager, and under full replay -/

/-- What a user of a live log does: validate a candidate, push an event, read a projection. -/
inductive SurfaceCall where
  | validateNext (candidate : Ref)
  | push (event : Ref)
  | nodes
  | replaceGeneration
  | contentGeneration
  | deriveEventMessage (event : Ref)

/-- The answer to a call; a push has none. -/
inductive SurfaceAnswer where
  | pushed
  | verdict (result : Except String Unit)
  | nodes (result : Except String (List ℕ))
  | generation (result : Except String ℕ)
  | message (result : Except String (Option Json))

/-- A live log and its manager. -/
structure LiveLog where
  log : List Ref
  manager : SurfaceManager

namespace LiveLog

/-- A log under a new manager. -/
def create (log : List Ref) : LiveLog := ⟨log, SurfaceManager.create⟩

/-- The admitted events. -/
def events (heap : Ref → SessionEvent) (live : LiveLog) : List SessionEvent := live.log.map heap

variable (heap : Ref → SessionEvent) (projections : List SessionMessageProjection)

/-- `SurfaceManager.validateNext` on the live log. -/
def validateNext (live : LiveLog) (candidate : Ref) : LiveLog × Except String Unit :=
  let (m, answer) := live.manager.validateNext heap projections live.log candidate
  ({ live with manager := m }, answer)

/-- A getter of the manager on the live log. -/
def read {α : Type} (live : LiveLog) (value : SurfaceFoldState → α) :
    LiveLog × Except String α :=
  let (m, answer) := live.manager.read heap projections value live.log
  ({ live with manager := m }, answer)

/-- One call under the manager. -/
def call (live : LiveLog) : SurfaceCall → LiveLog × SurfaceAnswer
  | .validateNext candidate =>
    let (live, answer) := live.validateNext heap projections candidate
    (live, .verdict answer)
  | .push event => ({ live with log := live.log ++ [event] }, .pushed)
  | .nodes =>
    let (live, answer) := live.read heap projections (·.nodes)
    (live, .nodes answer)
  | .replaceGeneration =>
    let (live, answer) := live.read heap projections (·.replaceGeneration)
    (live, .generation answer)
  | .contentGeneration =>
    let (live, answer) := live.read heap projections (·.contentGeneration)
    (live, .generation answer)
  | .deriveEventMessage event =>
    let (live, answer) := live.read heap projections fun state =>
      TianmaCoder.deriveEventMessage (heap event) state.projectedMessages
    (live, .message answer)

end LiveLog

/-- The live log as a machine. -/
def managerMachine (heap : Ref → SessionEvent) (projections : List SessionMessageProjection) :
    Machine LiveLog SurfaceCall SurfaceAnswer where
  step := LiveLog.call heap projections

/-- The specification: the admitted log alone, replayed at every call. -/
def replayMachine (heap : Ref → SessionEvent) (projections : List SessionMessageProjection) :
    Machine (List Ref) SurfaceCall SurfaceAnswer where
  step log
    | .validateNext candidate =>
      (log, .verdict ((fun _ => ()) <$> foldSurface ((log ++ [candidate]).map heap) projections))
    | .push event => (log ++ [event], .pushed)
    | .nodes => (log, .nodes ((·.nodes) <$> foldSurface (log.map heap) projections))
    | .replaceGeneration =>
      (log, .generation ((·.replacements.length) <$> foldSurface (log.map heap) projections))
    | .contentGeneration =>
      (log, .generation
        ((·.1.contentGeneration) <$> foldSurfaceState (log.map heap) projections))
    | .deriveEventMessage event =>
      (log, .message ((deriveEventMessage (heap event) ·.projectedMessages)
        <$> foldSurface (log.map heap) projections))

variable {heap : Ref → SessionEvent} {projections : List SessionMessageProjection}

/-- The replacements reported are counted by the generation. -/
theorem replaceGeneration_eq {log : List SessionEvent}
    {acc : SurfaceFoldState × List SurfaceFoldReplacement}
    (h : foldSurfaceState log projections = .ok acc) : acc.1.replaceGeneration = acc.2.length := by
  refine foldSurfaceState_induction (motive := fun _ acc => acc.1.replaceGeneration = acc.2.length)
    rfl ?_ h
  intro log event acc plan _ ih _
  match plan with
  | none => simpa [applySurfacePlan] using ih
  | some (.append seq) => simpa [applySurfacePlan] using ih
  | some (.replace replacement startIdx endIdx) => simpa [applySurfacePlan] using ih
  | some (.project projection messages) => simpa [applySurfacePlan] using ih

/-- What the replay reports, in terms of its final loop state. -/
theorem foldSurface_eq_map (events : List SessionEvent) :
    foldSurface events projections
      = (fun acc => (⟨acc.1.nodes, acc.2, acc.1.projectedMessages⟩ : SurfaceFoldResult))
        <$> foldSurfaceState events projections := by
  unfold foldSurface
  cases foldSurfaceState events projections <;> rfl

/-- The manager and the replay see the same log, and the manager tracks it. -/
structure Refines (heap : Ref → SessionEvent) (projections : List SessionMessageProjection)
    (live : LiveLog) (log : List Ref) : Prop where
  log_eq : live.log = log
  tracks : SurfaceManager.Tracks heap projections live.log live.manager

theorem refines_create (log : List Ref) : Refines heap projections (LiveLog.create log) log where
  log_eq := rfl
  tracks := SurfaceManager.tracks_create log

theorem Refines.read {live : LiveLog} {log : List Ref} (h : Refines heap projections live log)
    {α : Type} (value : SurfaceFoldState → α) :
    Refines heap projections (live.read heap projections value).1 log ∧
      (live.read heap projections value).2
        = (fun acc => value acc.1) <$> foldSurfaceState (log.map heap) projections := by
  obtain ⟨rfl, tracks⟩ := h
  obtain ⟨tracks', hanswer⟩ := tracks.read value
  exact ⟨⟨rfl, tracks'⟩, hanswer⟩

theorem Refines.validateNext {live : LiveLog} {log : List Ref}
    (h : Refines heap projections live log) (candidate : Ref) :
    Refines heap projections (live.validateNext heap projections candidate).1 log ∧
      (live.validateNext heap projections candidate).2
        = (fun _ => ()) <$> foldSurface ((log ++ [candidate]).map heap) projections := by
  obtain ⟨rfl, tracks⟩ := h
  obtain ⟨tracks', hanswer⟩ := tracks.validateNext candidate
  refine ⟨⟨rfl, tracks'⟩, ?_⟩
  rw [foldSurface_eq_map]
  refine hanswer.trans ?_
  cases foldSurfaceState ((live.log ++ [candidate]).map heap) projections <;> rfl

/-- The replay's generation is the count of the replacements it reports. -/
theorem replaceGeneration_read (events : List SessionEvent) :
    (fun acc => acc.1.replaceGeneration) <$> foldSurfaceState events projections
      = (·.replacements.length) <$> foldSurface events projections := by
  rw [foldSurface_eq_map]
  cases hfold : foldSurfaceState events projections with
  | error message => rfl
  | ok acc => exact congrArg Except.ok (replaceGeneration_eq hfold)

theorem nodes_read (events : List SessionEvent) :
    (fun acc => acc.1.nodes) <$> foldSurfaceState events projections
      = (·.nodes) <$> foldSurface events projections := by
  rw [foldSurface_eq_map]
  cases foldSurfaceState events projections <;> rfl

theorem projectedMessages_read {α : Type} (events : List SessionEvent)
    (value : OrderedMap ℕ Json → α) :
    (fun acc => value acc.1.projectedMessages) <$> foldSurfaceState events projections
      = (value ·.projectedMessages) <$> foldSurface events projections := by
  rw [foldSurface_eq_map]
  cases foldSurfaceState events projections <;> rfl

/-- Every answer of the manager is the answer of the replay of the admitted log. -/
theorem manager_simulates (heap : Ref → SessionEvent)
    (projections : List SessionMessageProjection) :
    Machine.Simulation (managerMachine heap projections) (replayMachine heap projections)
      (Refines heap projections) where
  output := by
    intro live log h call
    cases call with
    | validateNext candidate => exact congrArg SurfaceAnswer.verdict (h.validateNext candidate).2
    | push event => rfl
    | nodes =>
      exact congrArg SurfaceAnswer.nodes ((h.read _).2.trans (nodes_read (log.map heap)))
    | replaceGeneration =>
      exact congrArg SurfaceAnswer.generation
        ((h.read _).2.trans (replaceGeneration_read (log.map heap)))
    | contentGeneration => exact congrArg SurfaceAnswer.generation (h.read _).2
    | deriveEventMessage event =>
      have hread := (h.read fun state =>
        deriveEventMessage (heap event) state.projectedMessages).2
      exact congrArg SurfaceAnswer.message
        (hread.trans (projectedMessages_read (log.map heap) (deriveEventMessage (heap event))))
  step := by
    intro live log h call
    cases call with
    | validateNext candidate => exact (h.validateNext candidate).1
    | push event => exact ⟨congrArg (· ++ [event]) h.log_eq, h.tracks.push event⟩
    | nodes => exact (h.read (·.nodes)).1
    | replaceGeneration => exact (h.read (·.replaceGeneration)).1
    | contentGeneration => exact (h.read (·.contentGeneration)).1
    | deriveEventMessage event =>
      exact (h.read fun state =>
        deriveEventMessage (heap event) state.projectedMessages).1

/-- The incremental surface is the full replay: after any calls the manager's nodes, projected
messages and generation are the replay's, a candidate is accepted exactly when the replay
accepts the log extended with it, and a candidate that is not admitted changes no later
answer. -/
theorem manager_eq_foldSurface (heap : Ref → SessionEvent)
    (projections : List SessionMessageProjection) (log : List Ref) (calls : List SurfaceCall) :
    let live := (managerMachine heap projections).after (LiveLog.create log) calls
    let replay := foldSurface (live.events heap) projections
    (live.read heap projections (·.nodes)).2 = (·.nodes) <$> replay
    ∧ (live.read heap projections (·.projectedMessages)).2 = (·.projectedMessages) <$> replay
    ∧ (live.read heap projections (·.replaceGeneration)).2 = (·.replacements.length) <$> replay
    ∧ (∀ candidate, (live.validateNext heap projections candidate).2
        = (fun _ => ()) <$> foldSurface (live.events heap ++ [heap candidate]) projections)
    ∧ (∀ candidate later,
        (managerMachine heap projections).outputs
            (live.validateNext heap projections candidate).1 later
          = (managerMachine heap projections).outputs live later)
    ∧ (managerMachine heap projections).outputs (LiveLog.create log) calls
        = (replayMachine heap projections).outputs log calls := by
  intro live replay
  have hsim := manager_simulates heap projections
  have hlive : Refines heap projections live live.log := by
    have h := hsim.after (refines_create log) calls
    exact ⟨rfl, h.tracks⟩
  refine ⟨?_, ?_, ?_, ?_, ?_, hsim.outputs (refines_create log) calls⟩
  · exact (hlive.read _).2.trans (nodes_read (live.events heap))
  · exact (hlive.read _).2.trans (projectedMessages_read (live.events heap) id)
  · exact (hlive.read _).2.trans (replaceGeneration_read (live.events heap))
  · intro candidate
    rw [(hlive.validateNext candidate).2, List.map_append, List.map_singleton]
    rfl
  · intro candidate later
    rw [hsim.outputs (hlive.validateNext candidate).1 later, hsim.outputs hlive later]

end TianmaCoder
